import Sower.Vm.GuardTurns
import Sower.Vm.StreamTurns

/-!
# The relay of commands

The execution, the guard, the process that talks to the guest and the handles of commands, with
the messages that are on their way between them. What one process sends another arrives in the
order in which it was sent, and nothing is known of the order in which messages of different
senders arrive. Any of the processes may die at any time.
-/

namespace Sower.Vm

open Durable

section Terms

/-- The reason of a cancel, as it is sent. -/
def Streaming.Reason.term : Streaming.Reason → Term
  | .cancelled => .atom "cancelled"
  | .timeout => .atom "timeout"
  | .callerDown => .atom "caller_down"
  | .outputConsumerDown => .atom "output_consumer_down"
  | .commandHandleDown => .atom "command_handle_down"

/-- What the terms of the streaming process look like that nobody takes apart. -/
structure Wording where
  /-- An answer of `Protocol.decode_frame` -/
  decoded : Protocol.Decoded → Term
  /-- `{:ok, result}` of a command that ended -/
  result : Streaming.Result → Term

/-- The result of a command, as it is sent. -/
def Wording.outcome (wording : Wording) :
    Except Streaming.CommandError Streaming.Result → Result
  | .ok result => .value (wording.result result)
  | .error (.cancelled reason) => .error reason.term
  | .error (.guest message) => .error (.tagged "guest" (.atom message))

/-- The reason for which the streaming process ends the virtual machine. -/
def Wording.failure (wording : Wording) : Streaming.Failure Term → Term
  | .guestDisconnected => .atom "guest_disconnected"
  | .guestConnection reason => .tagged "guest_connection" reason
  | .cancelUnconfirmed reason => .tagged "cancel_unconfirmed" reason
  | .guestProtocol event => .tagged "guest_protocol" (wording.decoded event)
  | .cancelled reason => reason.term

/-- A report of the streaming process, as it is sent to the guard. -/
def Wording.report (wording : Wording) : Streaming.Report Term → GuardMessage
  | .finish failure => .finish (.error (wording.failure failure))
  | .cancelCommand command reason => .cancelCommand command reason.term
  | .commandFinished command result => .commandFinished command (wording.outcome result)

/-- The result says that the command was cancelled. -/
def Result.Cancels (result : Result) : Prop :=
  ∃ reason : Streaming.Reason, result = .error reason.term

end Terms

section Parties

/-- How far the process that talks to the guest has got. -/
inductive IoStage where
  | absent
  /-- `run`: the guest is not ready. -/
  | connecting (contract : ℕ)
  | up (io : Streaming.Io)
  | gone

/-- The command that is run. -/
def IoStage.command : IoStage → Option Pid
  | .up io => if io.phase = .receiving then io.command else none
  | _ => none

/-- The command that is run although it was cancelled. -/
def IoStage.cancelled : IoStage → Option Pid
  | .up io => if io.phase = .receiving ∧ io.cancelled ≠ none then io.command else none
  | _ => none

/-- The process has not ended, and will take a command when it is there. -/
def IoStage.alive : IoStage → Bool
  | .absent => true
  | .connecting _ => true
  | .up io => io.phase = .idle || io.phase = .receiving
  | .gone => false

/-- A handle, the results that the execution has sent it, and those of them that it has not
taken. -/
structure Desk where
  process : CommandExecution
  inbox : List Result := []
  sent : List Result := []

/-- The handle is sent a result. -/
def Desk.send (x : Desk) (result : Result) : Desk :=
  { x with inbox := x.inbox ++ [result], sent := x.sent ++ [result] }

/-- The handles that were started. -/
abbrev Desks := Pid → Option Desk

/-- What the execution `vm` does about a handle. -/
def Desks.tell (vm : Pid) (desks : Desks) : Pid × News → Desks
  | (h, .started caller deadlineMs retain) => Function.update desks h
      (some { process := (CommandExecution.start vm caller deadlineMs retain).state })
  | (h, .finished result) => Function.update desks h ((desks h).map fun x => x.send result)

/-- All parties, and what is on its way between them, the oldest first. -/
structure Relay where
  execution : Execution
  guard : Guard
  io : IoStage := .absent
  desks : Desks := fun _ => none
  /-- From the execution to the guard. -/
  toGuard : List GuardMessage := []
  /-- From the guard to the execution. -/
  toExecution : List ExecutionMessage := []
  /-- From the guard to the process that talks to the guest. -/
  toIo : List IoMessage := []
  /-- From the process that talks to the guest to the guard. -/
  fromIo : List GuardMessage := []
  /-- `{:cancel_command, handle, reason}` of the handles to the execution. -/
  fromHandles : List (Pid × Term) := []
  /-- `{:cancel_deadline, command}` of the guard to itself, set or sent. -/
  timers : List Pid := []
  /-- The commands that somebody had reason to cancel so far. -/
  asked : List Pid := []
  /-- What the process that talks to the guest has reported so far of commands that are done. -/
  completions : List (Pid × Result) := []

variable (w : Relay) (vm : Pid) (wording : Wording)

/-- The execution takes a turn. -/
def Relay.executed (t : ExecutionTurn) : Relay :=
  { w with
    execution := t.state
    toGuard := w.toGuard ++ t.effects.filterMap (·.toGuard)
    desks := (t.effects.filterMap (·.news)).foldl (Desks.tell vm) w.desks }

/-- The guard takes a turn. -/
def Relay.guarded (t : GuardTurn) : Relay :=
  { w with
    guard := t.state
    toExecution := w.toExecution ++ t.effects.filterMap (·.toExecution)
    toIo := w.toIo ++ t.effects.filterMap (·.toIo)
    timers := w.timers ++ t.effects.filterMap (·.timer) }

/-- The process that talks to the guest takes a turn. -/
def Relay.streamed (t : Streaming.Io × List (Streaming.Act Term)) : Relay :=
  let sent := (t.2.filterMap (·.report?)).map wording.report
  { w with
    io := .up t.1
    fromIo := w.fromIo ++ sent
    asked := w.asked ++ sent.filterMap (·.cancelled?)
    completions := w.completions ++ sent.filterMap (·.result?) }

/-- The handle `h` takes a turn. -/
def Relay.handled (h : Pid) (x : Desk) (t : CommandTurn) : Relay :=
  let reasons := CommandExecution.reasons t.effects
  { w with
    desks := Function.update w.desks h (some { x with process := t.state })
    fromHandles := w.fromHandles ++ reasons.map fun reason => (h, reason)
    asked := w.asked ++ reasons.map fun _ => h }

end Parties

section Steps

/-- Calls and casts, which anybody makes. -/
def ExecutionMessage.Outside : ExecutionMessage → Prop
  | .status _ | .cancel _ | .stop _ | .awaitReady _ | .execute _ _ _ | .await _ | .finish _ => True
  | _ => False

/-- Messages that the guard gets from neither of the other parties nor from a timer that one of
them has it set. -/
def GuardMessage.Outside : GuardMessage → Prop
  | .exit _ _ | .cleanupError _ | .finish _ | .deadline | .cleanupDeadline | .down _ _ _
  | .hypervisor _ _ | .stopped _ | .other => True
  | _ => False

/-- Messages that the process that talks to the guest gets from others than the guard. -/
def Streaming.Msg.Outside : Streaming.Msg Term → Prop
  | .execute _ _ => False
  | .cancel _ _ => False
  | _ => True

/-- A message of the guard, as the process that talks to the guest reads it. -/
def IoMessage.Reads : IoMessage → Streaming.Msg Term → Prop
  | .execute command, m => ∃ request, m = .execute command request
  | .cancel command reason, m =>
    ∃ known : Streaming.Reason, known.term = reason ∧ m = .cancel command known

/-- Messages to a handle that are no result of its command: calls, its timer, the end of its
caller. -/
def CommandMessage.Outside (x : CommandExecution) : CommandMessage → Prop
  | .status _ | .await _ | .cancel _ | .deadline => True
  | .down ref _ => ref = x.callerMonitor ∧ ref ≠ x.vmMonitor
  | .commandFinished _ => False

variable (vm : Pid) (codec : Protocol.Codec) (wording : Wording)

/-- One thing happens. -/
inductive Relay.Step : Relay → Relay → Prop
  /-- Somebody calls the execution. -/
  | call (w : Relay) (m : ExecutionMessage) (fresh : Pid)
      (hrunning : w.execution.running = true) (hm : m.Outside) (hfresh : w.desks fresh = none) :
      Step w (w.executed vm (w.execution.handle fresh m))
  | fromGuard (w : Relay) (m : ExecutionMessage) (rest : List ExecutionMessage) (fresh : Pid)
      (hrunning : w.execution.running = true) (hmail : w.toExecution = m :: rest)
      (hfresh : w.desks fresh = none) :
      Step w (Relay.executed { w with toExecution := rest } vm (w.execution.handle fresh m))
  /-- The execution takes a cancel of a handle. -/
  | fromHandle (w : Relay) (h fresh : Pid) (reason : Term)
      (hrunning : w.execution.running = true) (hmail : (h, reason) ∈ w.fromHandles)
      (hfresh : w.desks fresh = none) :
      Step w (Relay.executed { w with fromHandles := w.fromHandles.erase (h, reason) } vm
        (w.execution.handle fresh (.cancelCommand h reason)))
  /-- The execution hears that the handle it monitors has died. -/
  | handleDown (w : Relay) (h fresh : Pid) (ref : Ref) (x : Desk)
      (hrunning : w.execution.running = true) (hx : w.desks h = some x)
      (hdead : x.process.running = false) (hcommand : w.execution.command = some h)
      (hmonitor : w.execution.commandMonitor = some ref) (hfresh : w.desks fresh = none) :
      Step w (Relay.executed { w with asked := w.asked ++ [h] } vm
        (w.execution.handle fresh (.down ref h)))
  /-- The execution hears that the guard has ended, after all that the guard has sent. -/
  | guardDown (w : Relay) (reason : Term) (fresh : Pid) (hrunning : w.execution.running = true)
      (hguard : w.guard.point.over = true) (hmail : w.toExecution = [])
      (hfresh : w.desks fresh = none) :
      Step w (w.executed vm (w.execution.handle fresh (.guardDown reason)))
  | executionDies (w : Relay) :
      Step w { w with execution := { w.execution with running := false } }
  /-- The guard takes a message of the execution. Only while it admits the launch it may pass
  over older ones. -/
  | guardFromExecution (w : Relay) (before after : List GuardMessage) (m : GuardMessage)
      (hmail : w.toGuard = before ++ m :: after) (htakes : w.guard.takes m)
      (hfirst : before = [] ∨ w.guard.point = .admitting) :
      Step w (Relay.guarded { w with toGuard := before ++ after } (w.guard.receive m))
  | guardFromIo (w : Relay) (before after : List GuardMessage) (m : GuardMessage)
      (hmail : w.fromIo = before ++ m :: after) (htakes : w.guard.takes m)
      (hfirst : before = [] ∨ w.guard.point = .admitting) :
      Step w (Relay.guarded { w with fromIo := before ++ after } (w.guard.receive m))
  | guardTimer (w : Relay) (c : Pid) (hc : c ∈ w.timers) (htakes : w.guard.takes (.cancelDeadline c)) :
      Step w (Relay.guarded { w with timers := w.timers.erase c }
        (w.guard.receive (.cancelDeadline c)))
  | guardMessage (w : Relay) (m : GuardMessage) (hm : m.Outside) (htakes : w.guard.takes m) :
      Step w (w.guarded (w.guard.receive m))
  | guardActs (w : Relay) (t : GuardTurn) (hacts : w.guard.Acts t) : Step w (w.guarded t)
  /-- The monitor is started, and the process that talks to the guest. -/
  | launched (w : Relay) (vmm io : Pid) (osPid contract : ℕ) (hpoint : w.guard.point = .launching) :
      Step w { w.guarded (w.guard.launched (.ok (vmm, osPid, io))) with
        io := .connecting contract }
  | unlaunched (w : Relay) (reason : Term) (hpoint : w.guard.point = .launching) :
      Step w (w.guarded (w.guard.launched (.error reason)))
  | guardDies (w : Relay) (hover : w.guard.point.over = false) :
      Step w (w.guarded (w.guard.go .crashed []))
  /-- The guest is ready. -/
  | connected (w : Relay) (contract socket : ℕ) (readyMs : ℤ) (hio : w.io = .connecting contract) :
      Step w { w with
        io := .up { contract := contract, socket := some socket, readyMs := readyMs }
        fromIo := w.fromIo ++ [.guestReady] }
  | unconnected (w : Relay) (contract : ℕ) (reason : Term) (hio : w.io = .connecting contract) :
      Step w { w with io := .gone, fromIo := w.fromIo ++ [.finish (.error reason)] }
  /-- The process that talks to the guest is idle, and takes the first command of its mailbox. -/
  | ioExecutes (w : Relay) (io : Streaming.Io) (opening : Streaming.Opening Term) (now : ℤ)
      (c : Pid) (before after : List IoMessage) (hio : w.io = .up io) (hidle : io.phase = .idle)
      (hmail : w.toIo = before ++ .execute c :: after)
      (hfirst : ∀ m ∈ before, m.executed? = none) :
      Step w (Relay.streamed { w with toIo := before ++ after } wording
        (io.execute opening now c))
  | ioReceives (w : Relay) (io : Streaming.Io) (o : Streaming.Oracle Term) (c : Pid)
      (m : IoMessage) (read : Streaming.Msg Term) (rest : List IoMessage) (hio : w.io = .up io)
      (hreceiving : io.phase = .receiving) (hcommand : io.command = some c)
      (hmail : w.toIo = m :: rest) (hread : m.Reads read) :
      Step w (Relay.streamed { w with toIo := rest } wording (io.receiveOutput codec o c read))
  | ioHears (w : Relay) (io : Streaming.Io) (o : Streaming.Oracle Term) (c : Pid)
      (m : Streaming.Msg Term) (hio : w.io = .up io) (hreceiving : io.phase = .receiving)
      (hcommand : io.command = some c) (hm : m.Outside) :
      Step w (w.streamed wording (io.receiveOutput codec o c m))
  | ioDies (w : Relay) (hio : w.io ≠ .absent) : Step w { w with io := .gone }
  | handleTurn (w : Relay) (h : Pid) (x : Desk) (m : CommandMessage) (hx : w.desks h = some x)
      (hrunning : x.process.running = true) (hm : m.Outside x.process) :
      Step w (w.handled h x (x.process.handle m))
  /-- A handle takes what the execution has sent it. -/
  | handleResult (w : Relay) (h : Pid) (x : Desk) (result : Result) (rest : List Result)
      (hx : w.desks h = some x) (hrunning : x.process.running = true)
      (hinbox : x.inbox = result :: rest) :
      Step w (w.handled h { x with inbox := rest }
        (x.process.handle (.commandFinished result)))
  /-- A handle hears that the execution has ended, after all that the execution has sent it. -/
  | vmDown (w : Relay) (h : Pid) (x : Desk) (reason : Term) (hx : w.desks h = some x)
      (hrunning : x.process.running = true) (hinbox : x.inbox = [])
      (hdown : w.execution.running = false) :
      Step w (w.handled h x (x.process.handle (.down x.process.vmMonitor reason)))
  | handleDies (w : Relay) (h : Pid) (x : Desk) (hx : w.desks h = some x) :
      Step w { w with
        desks := Function.update w.desks h
          (some { x with process := { x.process with running := false } }) }

/-- A virtual machine is started: there are an execution and its guard. -/
def Relay.start (options : ExecutionOptions) (guard : Pid) (serverMonitor ownerMonitor : Ref)
    (ledgerMonitor : Option Ref) : Relay where
  execution := (Execution.start options vm guard).state
  guard := .run serverMonitor ownerMonitor ledgerMonitor options

/-- What a virtual machine and its commands can get to. -/
inductive Relay.Reachable : Relay → Prop
  | start (options : ExecutionOptions) (guard : Pid) (serverMonitor ownerMonitor : Ref)
      (ledgerMonitor : Option Ref) :
      Reachable (.start vm options guard serverMonitor ownerMonitor ledgerMonitor)
  | step (w w' : Relay) (h : Reachable w) (hstep : Step vm codec wording w w') : Reachable w'

end Steps

end Sower.Vm
