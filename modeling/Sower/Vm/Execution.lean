import Sower.Vm.Ledger

/-!
# The execution of a virtual machine

An execution is the process that others talk to about one virtual machine. Its
guard does the work and reports once how the virtual machine ended and what is
certified of the cleanup; until then those who ask for the end wait here.
-/

namespace Sower.Vm

open Durable

section Messages

/-- What a caller waits for. -/
inductive Waiter where
  | stop
  | await
  deriving DecidableEq

/-- Options of a command that the execution reads. -/
structure CommandOptions where
  deadlineMs : ℕ := 60000
  /-- Why `validate_command_options` rejects the command, if it does. -/
  rejected : Option Term := none

/-- Options of an execution. -/
structure ExecutionOptions where
  executionId : ℕ
  owner : Pid
  /-- The command of a disposable virtual machine. -/
  command : Option CommandOptions
  /-- There is a ledger. -/
  managed : Bool

/-- Answers of an execution. -/
inductive ExecutionAnswer where
  | ok
  | status (status : Status)
  | result (result : Option Result)
  /-- `{:ok, status}` -/
  | ready (status : Status)
  /-- `{:error, {:boot_failed, result}}` -/
  | bootFailed (result : Result)
  /-- `{:ok, handle}` -/
  | started (handle : Pid)
  | disposableVm
  | busy
  | vmUnavailable
  | invalid (reason : Term)
  deriving DecidableEq

/-- What an execution does to the outside. -/
inductive ExecutionEffect where
  | reply (caller : Caller) (answer : ExecutionAnswer)
  /-- Send `{:finish, result}` to the guard. -/
  | finish (guard : Pid) (result : Result)
  | cancelCommand (guard : Pid) (command : Pid) (reason : Term)
  /-- Send `{:execute, handle, command, on_output}` to the guard. -/
  | execute (guard : Pid) (handle : Pid)
  /-- Send `{:command_finished, result}` to the handle of a command. -/
  | commandFinished (command : Pid) (result : Result)
  | startCommand (handle : Pid) (caller : Pid) (deadlineMs : ℕ) (retain : Bool)
  | monitor (ref : Ref) (pid : Pid)
  | demonitor (ref : Ref)
  deriving DecidableEq

/-- `Execution` -/
structure Execution where
  guard : Pid
  status : Status
  waiters : List (Waiter × Caller) := []
  readyWaiters : List Caller := []
  managed : Bool
  commandMonitor : Option Ref := none
  command : Option Pid := none
  options : ExecutionOptions
  /-- The process has not ended. -/
  running : Bool := true
  /-- Next monitor. -/
  refs : ℕ

/-- A turn of an execution. -/
abbrev ExecutionTurn := Turn Execution ExecutionEffect

/-- Messages of an execution, each with the handle that a command started by it would get. -/
inductive ExecutionMessage where
  | status (caller : Caller)
  | cancel (caller : Caller)
  | stop (caller : Caller)
  | awaitReady (caller : Caller)
  | execute (caller : Caller) (process : Pid) (options : CommandOptions)
  | await (caller : Caller)
  /-- `{:finish, result}` -/
  | finish (result : Result)
  | vmStatus (changes : List StatusChange)
  | cancelCommand (command : Pid) (reason : Term)
  | commandFinished (command : Pid) (result : Result)
  | vmFinished (result : Result) (cleanup : Cleanup)
  /-- A monitored process that is not the guard has ended. -/
  | down (ref : Ref) (process : Pid)
  | guardDown (reason : Term)

end Messages

namespace Execution

section Parts

variable (e : Execution)

/-- Nothing is done. -/
def idle : ExecutionTurn := .emit [] e

def replied (caller : Caller) (answer : ExecutionAnswer) : ExecutionTurn :=
  .emit [.reply caller answer] e

/-- The process dies of a message that no clause is for. -/
def crashed : ExecutionTurn := .emit [] { e with running := false }

/-- `terminal?` -/
def terminal : Bool :=
  e.status.phase = .finished || e.status.phase = .stopped || e.status.phase = .retained

/-- `stopping` -/
def stopping : Execution :=
  if e.terminal then e else { e with status := { e.status with phase := .stopping } }

/-- `stop_result` -/
def stopResult : ExecutionAnswer :=
  if e.status.cleanup = some .ok then .ok else .result e.status.result

/-- `begin_command` -/
def beginCommand (handle : Pid) (options : CommandOptions) (caller : Pid) : ExecutionTurn :=
  .emit
    [.startCommand handle caller options.deadlineMs e.status.persistent, .execute e.guard handle,
      .monitor e.refs handle]
    { e with
      command := some handle
      commandMonitor := some e.refs
      refs := e.refs + 1
      status := { e.status with
        phase := if e.status.persistent then .runningCommand else .running } }

end Parts

section Turns

/-- `init`, with the guard that it spawns. -/
def start (options : ExecutionOptions) (execution guard : Pid) : ExecutionTurn :=
  .emit [.monitor 0 guard]
    { guard := guard
      managed := options.managed
      options := options
      refs := 1
      status :=
        { phase := .booting
          persistent := options.command.isNone
          owner := options.owner
          execution := some execution
          executionId := options.executionId
          guard := some guard } }

variable (e : Execution)

/-- `:cancel` -/
def cancel (caller : Caller) : ExecutionTurn :=
  .emit [.finish e.guard .cancelled, .reply caller .ok] e.stopping

/-- `:stop` -/
def stop (caller : Caller) : ExecutionTurn :=
  if e.terminal then e.replied caller e.stopResult
  else .emit [.finish e.guard .ok]
    { e.stopping with waiters := (.stop, caller) :: e.waiters }

/-- `:await_ready` -/
def awaitReady (caller : Caller) : ExecutionTurn :=
  if e.status.phase = .ready || e.status.phase = .runningCommand then
    e.replied caller (.ready e.status)
  else if e.terminal || e.status.phase = .stopping then e.replied caller .vmUnavailable
  else .emit [] { e with readyWaiters := caller :: e.readyWaiters }

/-- `{:execute, command, options}` -/
def execute (handle : Pid) (caller : Caller) (process : Pid) (options : CommandOptions) :
    ExecutionTurn :=
  if !e.status.persistent then e.replied caller .disposableVm
  else if e.command.isSome then e.replied caller .busy
  else if e.status.phase ≠ .ready then e.replied caller .vmUnavailable
  else
    match options.rejected with
    | some reason => e.replied caller (.invalid reason)
    | none =>
      (e.beginCommand handle options process).andThen (.emit [.reply caller (.started handle)])

/-- `:await` -/
def await (caller : Caller) : ExecutionTurn :=
  if e.terminal then e.replied caller (.result e.status.result)
  else .emit [] { e with waiters := (.await, caller) :: e.waiters }

/-- `{:finish, result}` -/
def finish (result : Result) : ExecutionTurn := .emit [.finish e.guard result] e.stopping

/-- A change of the phase. -/
def isPhase : StatusChange → Bool
  | .phase _ => true
  | .directory _ => false
  | .vmm _ => false
  | .osPid _ => false

/-- The status with what the guard has changed. A phase does not replace `:stopping`. -/
def withChanges (changes : List StatusChange) : Execution :=
  let changes :=
    if e.status.phase = .stopping then changes.filter fun change => !isPhase change else changes
  { e with status := changes.foldl Status.apply e.status }

/-- The command of a disposable virtual machine begins once that is ready. -/
def beginInitial (handle : Pid) (e : Execution) : ExecutionTurn :=
  match e.options.command, e.command with
  | some options, none => e.beginCommand handle options e.options.owner
  | some _, some _ => e.idle
  | none, _ => e.idle

/-- `{:vm_status, changes}` -/
def vmStatus (handle : Pid) (changes : List StatusChange) : ExecutionTurn :=
  let e := e.withChanges changes
  if e.status.phase = .ready then
    (Turn.emit (e.readyWaiters.map fun caller => .reply caller (.ready e.status))
      { e with readyWaiters := [] }).andThen (beginInitial handle)
  else e.idle

/-- `{:cancel_command, command, reason}` -/
def cancelCommand (command : Pid) (reason : Term) : ExecutionTurn :=
  if e.command = some command then .emit [.cancelCommand e.guard command reason] e else e.idle

/-- `{:command_finished, command, result}` -/
def commandFinished (command : Pid) (result : Result) : ExecutionTurn :=
  if e.command = some command then
    .emit (e.commandMonitor.toList.map .demonitor ++ [.commandFinished command result])
      { e with
        command := none
        commandMonitor := none
        status := { e.status with
          phase := if e.status.phase = .stopping then .stopping else .ready } }
  else e.crashed

/-- The state in which the virtual machine has finished. -/
def finished (result : Result) (cleanup : Cleanup) : Execution :=
  { e with
    command := none
    commandMonitor := none
    status := { e.status with
      phase := completedPhase cleanup e.status.persistent
      result := some result
      cleanup := some cleanup } }

/-- The answer to one who waits. -/
def waiterAnswer (result : Result) : Waiter → ExecutionAnswer
  | .stop => e.stopResult
  | .await => .result (some result)

/-- `{:vm_finished, result, cleanup}` -/
def vmFinished (result : Result) (cleanup : Cleanup) : ExecutionTurn :=
  let ended := e.finished result cleanup
  .emit
    (e.commandMonitor.toList.map .demonitor ++
      (e.command.toList.map fun command =>
        .commandFinished command (if result = .ok then .error (.atom "vm_stopped") else result)) ++
      (e.readyWaiters.map fun caller => .reply caller (.bootFailed result)) ++
      e.waiters.map fun waiter => .reply waiter.2 (ended.waiterAnswer result waiter.1))
    { ended with waiters := [], readyWaiters := [], running := !e.managed }

/-- `{:DOWN, ref, :process, command, reason}` of a process that is not the guard. -/
def down (ref : Ref) (process : Pid) : ExecutionTurn :=
  if e.commandMonitor = some ref ∧ e.command = some process then
    .emit [.cancelCommand e.guard process (.atom "command_handle_down")] e
  else e.crashed

/-- `{:DOWN, ref, :process, guard, reason}` -/
def guardDown (reason : Term) : ExecutionTurn :=
  if e.terminal then e.idle
  else e.vmFinished (.error (.tagged "guard_down" reason)) .unconfirmed

/-- `handle_call`, `handle_cast` and `handle_info`, with the handle that a command would get. -/
def handle (fresh : Pid) : ExecutionMessage → ExecutionTurn
  | .status caller => e.replied caller (.status e.status)
  | .cancel caller => e.cancel caller
  | .stop caller => e.stop caller
  | .awaitReady caller => e.awaitReady caller
  | .execute caller process options => e.execute fresh caller process options
  | .await caller => e.await caller
  | .finish result => e.finish result
  | .vmStatus changes => e.vmStatus fresh changes
  | .cancelCommand command reason => e.cancelCommand command reason
  | .commandFinished command result => e.commandFinished command result
  | .vmFinished result cleanup => e.vmFinished result cleanup
  | .down ref process => e.down ref process
  | .guardDown reason => e.guardDown reason

/-- A message, if the process has not ended. -/
def turn (input : Pid × ExecutionMessage) : ExecutionTurn :=
  if e.running then e.handle input.1 input.2 else e.idle

/-- Messages, one after the other. -/
def run : List (Pid × ExecutionMessage) → Execution → ExecutionTurn
  | [], e => e.idle
  | input :: rest, e => (e.turn input).andThen (run rest)

end Turns

end Execution

end Sower.Vm
