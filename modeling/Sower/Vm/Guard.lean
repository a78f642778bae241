import Sower.Hypervisor.Process
import Sower.Vm.Execution

/-!
# The guard of a virtual machine

The guard owns what a virtual machine consists of: the process that formats its disk, the
monitor, the process that talks to the guest, the network lease and the runtime directory. It
takes messages in a loop, stops what runs when one of them asks for it, and cleans up at the
end. What it certifies of the cleanup decides whether the ledger frees the reservation.
-/

namespace Sower.Vm

open Durable

section Messages

/-- How a stop of the monitor was answered. -/
inductive StopAnswer where
  /-- `{:ok, outcome}` -/
  | stopped
  /-- `:startup_cleanup_confirmed` -/
  | startupCleanupConfirmed
  | failed (error : Term)
  deriving DecidableEq

/-- What the monitor tells its owner. -/
inductive VmmEvent where
  | exited (outcome : Term)
  | failed (reason : Term)
  | other
  deriving DecidableEq

/-- Messages to the guard; `other` is every message that no clause names. -/
inductive GuardMessage where
  /-- `{:EXIT, pid, reason}` -/
  | exit (pid : Pid) (reason : Hypervisor.ExitReason)
  /-- `{:cleanup_error, pid, message}` -/
  | cleanupError (message : Term)
  | finish (result : Result)
  | deadline
  | cleanupDeadline
  /-- `{:DOWN, ref, :process, pid, reason}` -/
  | down (ref : Ref) (pid : Pid) (reason : Term)
  | guestReady
  | execute (command : Pid)
  | cancelCommand (command : Pid) (reason : Term)
  | cancelDeadline (command : Pid)
  | commandFinished (command : Pid) (result : Result)
  /-- `{:cloud_hypervisor, vmm, event}` -/
  | hypervisor (vmm : Pid) (event : VmmEvent)
  /-- `{:stopped, answer}` of the process that stops the monitor -/
  | stopped (answer : StopAnswer)
  | other
  deriving DecidableEq

/-- What the guard does to the outside. -/
inductive GuardEffect where
  /-- `notify_status`: to the execution, the table and the ledger. -/
  | status (changes : List StatusChange)
  /-- `Rexec.kill_tree` -/
  | killFormatter (formatter : Pid)
  /-- `Process.exit(io, :kill)` -/
  | killIo (io : Pid)
  /-- Start a process that stops the monitor and sends its answer. -/
  | stopVmm (vmm : Pid)
  /-- `Process.send_after` of the deadline of a cleanup -/
  | armCleanup
  /-- Send `{:execute, command, request, callback}` to the process that talks to the guest. -/
  | execute (io : Pid) (command : Pid)
  | cancel (io : Pid) (command : Pid) (reason : Term)
  /-- `Process.send_after` of `{:cancel_deadline, command}` -/
  | armCancel (command : Pid)
  /-- Send `{:command_finished, command, result}` to the execution. -/
  | commandFinished (command : Pid) (result : Result)
  /-- The certificate for the table, the ledger and the execution. -/
  | report (result : Result) (cleanup : Cleanup) (directory : Option String)

/-- Where in its code the guard is. -/
inductive GuardPoint where
  /-- `register`: the ledger has not answered. -/
  | registering
  /-- `allocate` -/
  | allocating
  /-- `prepare` -/
  | preparing
  /-- `start_formatter` -/
  | formatting
  | looping
  /-- `launch`: the network is not provisioned. -/
  | provisioning
  /-- `admit_launch` -/
  | admitting
  /-- `launch_vm` -/
  | launching
  /-- `stop`: the lease is revoked before the monitor is stopped. -/
  | withdrawing
  | awaitingStop
  /-- `finish`: the lease is revoked. -/
  | revoking (result : Result) (certification : Cleanup)
  /-- `finish`: the lease is released. -/
  | releasing (result : Result)
  /-- `remove_known`: the directory is listed. -/
  | listing (result : Result)
  /-- `remove_known`: these files are removed, and after them the directory. -/
  | removing (result : Result) (files : List String)
  /-- The outcome was reported. -/
  | ended
  /-- The process died without a report. -/
  | crashed

/-- `Guard`. Times are left to the messages of the timers. -/
structure Guard where
  serverMonitor : Ref
  ownerMonitor : Ref
  ledgerMonitor : Option Ref
  directory : Option String := none
  vmm : Option Pid := none
  formatter : Option Pid := none
  io : Option Pid := none
  /-- The lease of the network. -/
  network : Option ℕ := none
  outcome : Option Result := none
  cleanupError : Option Term := none
  options : ExecutionOptions
  bootTimer : Bool := false
  command : Option Pid := none
  cancelTimer : Bool := false
  point : GuardPoint := .registering

/-- A turn of the guard. -/
abbrev GuardTurn := Turn Guard GuardEffect

end Messages

section Terms

/-- An outcome as a reason. -/
def outcomeTerm : Hypervisor.Outcome → Term
  | .exitStatus status => .tagged "exit_status" (.atom (toString status))
  | .signal signal => .tagged "signal" (.atom (toString signal))

/-- The reason of an exit. -/
def exitTerm : Hypervisor.ExitReason → Term
  | .normal => .atom "normal"
  | .shutdown outcome => .tagged "shutdown" (outcomeTerm outcome)
  | .cleanupFailed message => .tagged "shutdown" (.tagged "cleanup_failed" (.atom message))
  | .other reason => .atom reason

/-- `{:error, {tag, reason}}` -/
def Result.tagged (tag : String) (reason : Term) : Result := .error (.tagged tag reason)

/-- The outcome, which is `nil` where none is set. -/
def Result.ofOutcome : Option Result → Result
  | some result => result
  | none => .value (.atom "nil")

end Terms

namespace Guard

/-- `run`, before the registration. -/
def run (serverMonitor ownerMonitor : Ref) (ledgerMonitor : Option Ref)
    (options : ExecutionOptions) : Guard where
  serverMonitor := serverMonitor
  ownerMonitor := ownerMonitor
  ledgerMonitor := ledgerMonitor
  options := options

variable (g : Guard)

section Ending

/-- `remove_known`: the files that the guard knows. -/
def knownFiles : List String := ["scratch.ext4", "serial.log"]

/-- The guard goes on elsewhere. -/
def go (point : GuardPoint) (effects : List GuardEffect) : GuardTurn :=
  .emit effects { g with point := point }

/-- `finish` -/
def finish (result : Result) (certification : Cleanup) : GuardTurn :=
  g.go (.revoking result certification) (g.io.toList.map .killIo)

/-- The end of `finish`: the outcome is reported. -/
def conclude (result : Result) (cleanup : Cleanup) : GuardTurn :=
  let result :=
    if cleanup = .ok then result else .cleanupUnconfirmed result cleanup g.directory
  g.go .ended [.report result cleanup g.directory]

/-- `finish`, once the lease was revoked or not. -/
def revoked (result : Result) (certification : Cleanup) (answer : Option Term) : GuardTurn :=
  match certification, answer with
  | .ok, none => g.go (.releasing result) []
  | .ok, some error =>
    g.conclude result (.failed (g.cleanupError.getD error))
  | .failed term, _ => g.conclude result (.failed term)

/-- `finish`, once the lease was released or not. -/
def released (result : Result) (answer : Option Term) : GuardTurn :=
  match g.cleanupError, answer with
  | some error, _ => g.conclude result (.failed error)
  | none, some error => g.conclude result (.failed error)
  | none, none =>
    match g.directory with
    | none => g.conclude result .ok
    | some _ => g.go (.listing result) []

/-- How an operation on the file system fails. -/
inductive FileError where
  | enoent
  | error (reason : Term)
  deriving DecidableEq

/-- The `else` clauses of `remove_known` on an error. -/
def removalFailed (result : Result) : FileError → GuardTurn
  | .enoent => g.conclude result .ok
  | .error reason => g.conclude result (.failed reason)

/-- `remove_known`, once the directory was listed. -/
def listed (result : Result) : Except FileError (List String) → GuardTurn
  | .error error => g.removalFailed result error
  | .ok files =>
    match files.diff knownFiles with
    | [] => g.go (.removing result files) []
    | unexpected :: _ =>
      g.conclude result (.failed (.tagged "unexpected_files" (.atom unexpected)))

/-- `remove_known`, once the next file was removed. -/
def removed (result : Result) (rest : List String) : Except FileError Unit → GuardTurn
  | .error error => g.removalFailed result error
  | .ok () => g.go (.removing result rest) []

/-- `remove_known`, once the directory was removed. -/
def directoryRemoved (result : Result) : Except FileError Unit → GuardTurn
  | .error error => g.removalFailed result error
  | .ok () => g.conclude result .ok

/-- `remove_known`, once the next of the files or, after them, the directory was removed. -/
def removal (result : Result) : List String → Except FileError Unit → GuardTurn
  | [], answer => g.directoryRemoved result answer
  | _ :: rest, answer => g.removed result rest answer

end Ending

section Stopping

/-- `stop` -/
def stop (result : Result) : GuardTurn :=
  match g.outcome with
  | some _ => g.go .looping []
  | none =>
    match g.formatter with
    | some formatter =>
      .emit [.status [.phase .stopping], .killFormatter formatter, .armCleanup]
        { g with outcome := some result, point := .looping }
    | none =>
      match g.vmm with
      | none => g.finish result .ok
      | some _ =>
        .emit (.status [.phase .stopping] :: g.io.toList.map .killIo)
          { g with outcome := some result, point := .withdrawing }

/-- `stop`, once the lease was revoked or not. -/
def withdrawn (answer : Option Term) : GuardTurn :=
  .emit (g.vmm.toList.map .stopVmm ++ [.armCleanup])
    { g with cleanupError := answer, point := .awaitingStop }

/-- The process that `stop` starts: what it makes of the monitor's answers. -/
def stopCleanup (stop : Except Term (Except (Option Hypervisor.Cause) Hypervisor.Outcome))
    (ready : Except Hypervisor.Cause Hypervisor.Status) (status : Hypervisor.Status) :
    StopAnswer :=
  match stop with
  | .ok (.ok _) => .stopped
  | .ok (.error (some (.startup message))) =>
    match ready with
    | .error cause =>
      if cause = .startup message ∧ status.phase = .failed ∧
          status.error = some (.startup message) ∧ status.osPid = none ∧ status.outcome = none
      then .startupCleanupConfirmed
      else .failed (.tagged "startup" (.atom message))
    | .ok _ => .failed (.tagged "startup" (.atom message))
  | .ok (.error _) => .failed (.atom "error")
  | .error reason => .failed (.tagged "vmm_stop" reason)

/-- `await_stop` -/
def awaitStop : GuardMessage → GuardTurn
  | .stopped .stopped => g.finish (.ofOutcome g.outcome) .ok
  | .stopped .startupCleanupConfirmed => g.finish (.ofOutcome g.outcome) .ok
  | .stopped (.failed error) => g.finish (.ofOutcome g.outcome) (.failed error)
  | .cleanupDeadline => g.finish (.ofOutcome g.outcome) (.failed (.atom "shutdown_timeout"))
  | _ => g.go .awaitingStop []

end Stopping

section Loop

/-- The monitor is on someone without whom the virtual machine has to end. -/
def watches (ref : Ref) : Prop :=
  ref = g.serverMonitor ∨ ref = g.ownerMonitor ∨ g.ledgerMonitor = some ref

instance (ref : Ref) : Decidable (g.watches ref) := inferInstanceAs (Decidable (_ ∨ _ ∨ _))

/-- The guard takes the next message. -/
def stay : GuardTurn := g.go .looping []

/-- `{:EXIT, formatter, reason}` -/
def formatterExit (reason : Hypervisor.ExitReason) : GuardTurn :=
  match Hypervisor.completion reason, g.cleanupError with
  | .ok (.exitStatus 0), none =>
    match g.outcome with
    | some outcome => g.finish outcome .ok
    | none => .emit [] { g with formatter := none, point := .provisioning }
  | .ok _, none => g.finish (g.outcome.getD (.tagged "mkfs" (exitTerm reason))) .ok
  | _, some error => g.finish (g.outcome.getD (.tagged "mkfs" (exitTerm reason))) (.failed error)
  | .error message, none =>
    g.finish (g.outcome.getD (.tagged "mkfs" (exitTerm reason)))
      (.failed (.tagged "error" (.atom message)))

/-- `{:EXIT, pid, reason}` -/
def exit (pid : Pid) (reason : Hypervisor.ExitReason) : GuardTurn :=
  if g.formatter = some pid then g.formatterExit reason
  else if g.vmm = some pid then
    g.finish (.tagged "vmm_server_down" (exitTerm reason)) .unconfirmed
  else g.stay

/-- `{:DOWN, ref, :process, pid, reason}` -/
def down (ref : Ref) (pid : Pid) (reason : Term) : GuardTurn :=
  if g.watches ref then g.stop .ownerDown
  else if g.io = some pid then g.stop (.tagged "io_down" reason)
  else g.stay

/-- `{:guest_ready, ready}`. Without a timer to cancel the guard dies. -/
def guestReady : GuardTurn :=
  if g.bootTimer then .emit [.status [.phase .ready]] { g with bootTimer := false, point := .looping }
  else g.go .crashed []

/-- `{:execute, command, request, callback}`. Without a process to send it to the guard dies. -/
def execute (command : Pid) : GuardTurn :=
  match g.command, g.io with
  | some _, _ => g.stay
  | none, none => g.go .crashed []
  | none, some io =>
    .emit [.execute io command,
        .status [.phase (if g.options.command.isSome then .running else .runningCommand)]]
      { g with command := some command, point := .looping }

/-- `{:cancel_command, command, reason}` -/
def cancelCommand (command : Pid) (reason : Term) : GuardTurn :=
  if g.command = some command then
    match g.io with
    | none => g.go .crashed []
    | some io =>
      .emit (.cancel io command reason :: if g.cancelTimer then [] else [.armCancel command])
        { g with cancelTimer := true, point := .looping }
  else g.stay

/-- `{:cancel_deadline, command}` -/
def cancelDeadline (command : Pid) : GuardTurn :=
  if g.command = some command then g.stop (.error (.atom "command_cleanup_unconfirmed"))
  else g.stay

/-- `{:command_finished, command, result}` -/
def commandFinished (command : Pid) (result : Result) : GuardTurn :=
  if g.command = some command then
    (Turn.emit [.commandFinished command result]
      { g with command := none, cancelTimer := false, point := .looping }).andThen fun g =>
        if g.options.command.isSome then g.stop result
        else .emit [.status [.phase .ready]] g
  else g.stay

/-- `{:cloud_hypervisor, vmm, event}` -/
def hypervisor (vmm : Pid) (event : VmmEvent) : GuardTurn :=
  if g.vmm = some vmm then
    match event with
    | .exited outcome => g.stop (.tagged "vmm_exited" outcome)
    | .failed reason => g.stop (.tagged "vmm_failed" reason)
    | .other => g.stay
  else g.stay

/-- `loop` -/
def loop : GuardMessage → GuardTurn
  | .exit pid reason => g.exit pid reason
  | .cleanupError message => .emit [] { g with cleanupError := some message, point := .looping }
  | .finish result => g.stop result
  | .deadline => if g.bootTimer then g.stop (.error (.atom "timeout")) else g.stay
  | .cleanupDeadline => g.finish (.ofOutcome g.outcome) (.failed (.atom "shutdown_timeout"))
  | .down ref pid reason => g.down ref pid reason
  | .guestReady => g.guestReady
  | .execute command => g.execute command
  | .cancelCommand command reason => g.cancelCommand command reason
  | .cancelDeadline command => g.cancelDeadline command
  | .commandFinished command result => g.commandFinished command result
  | .hypervisor vmm event => g.hypervisor vmm event
  | .stopped _ => g.stay
  | .other => g.stay

end Loop

section Launch

/-- The ledger's answer to the registration; without a ledger there is nothing to ask. -/
def registered (admitted : Bool) : GuardTurn :=
  if admitted then g.go .allocating [] else g.finish .ownerDown .ok

/-- `allocate`, once the directory was made or not. -/
def allocated : Except Term String → GuardTurn
  | .ok directory =>
    .emit [.status [.directory directory]]
      { g with bootTimer := true, directory := some directory, point := .preparing }
  | .error reason =>
    Guard.finish { g with bootTimer := true } (.tagged "resource_directory" reason) .ok

/-- `prepare`, once the disk was made or not. -/
def prepared : Except Term Unit → GuardTurn
  | .ok () => g.go .formatting []
  | .error reason => g.finish (.tagged "scratch_startup" reason) .ok

/-- `start_formatter` -/
def formatterStarted : Except Term Pid → GuardTurn
  | .ok formatter => .emit [] { g with formatter := some formatter, point := .looping }
  | .error reason => g.finish (.tagged "scratch_startup" reason) .unconfirmed

/-- How the provision of a network ended. -/
inductive Provision where
  /-- `{:ok, network}`; there may be no network to provision. -/
  | provisioned (network : Option ℕ)
  | unconfirmed (reason : Term)
  /-- The activator was not reached. -/
  | unreached (reason : Term)

/-- `launch` -/
def provisioned : Provision → GuardTurn
  | .provisioned network => .emit [] { g with network := network, point := .admitting }
  | .unconfirmed reason =>
    g.finish (.tagged "network_provision_unconfirmed" reason) .unconfirmed
  | .unreached reason => g.finish (.tagged "network_connect" reason) .ok

/-- The messages that `admit_launch` looks for. -/
def admits : GuardMessage → Prop
  | .finish _ => True
  | .deadline => True
  | .down ref _ _ => g.watches ref
  | _ => False

/-- `admit_launch`, with a message that it looks for. -/
def refused : GuardMessage → GuardTurn
  | .finish result => g.stop result
  | .deadline => g.stop (.error (.atom "timeout"))
  | .down _ _ _ => g.stop .ownerDown
  | _ => g.go .admitting []

/-- `admit_launch`, without such a message. -/
def admitted (late : Bool) : GuardTurn :=
  if late then g.stop (.error (.atom "timeout")) else g.go .launching []

/-- `launch_vm` -/
def launched : Except Term (Pid × ℕ × Pid) → GuardTurn
  | .ok (vmm, osPid, io) =>
    .emit [.status [.vmm vmm, .osPid osPid]]
      { g with vmm := some vmm, io := some io, point := .looping }
  | .error reason => g.finish (.tagged "vmm_startup" reason) .unconfirmed

end Launch

end Guard

end Sower.Vm
