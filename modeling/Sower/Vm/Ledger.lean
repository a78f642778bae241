import Sower.Lib.Durable
import Sower.Lib.Totals

/-!
# The ledger of virtual machines

The ledger admits virtual machines within its budgets, keeps an entry for each
of them until its cleanup is certified, and answers those who wait for one. It
keeps its whole state in a table that outlives it, together with rows that the
guards and executions write themselves.
-/

namespace Sower.Vm

open Durable

section Terms

/-- A process. -/
abbrev Pid := ℕ

/-- A monitor or a timer. -/
abbrev Ref := ℕ

/-- `GenServer.from()`: who waits for the answer of a call. Each call has its own. -/
abbrev Caller := ℕ

/-- Terms that tell a reason. -/
inductive Term where
  | atom (name : String)
  | tagged (tag : String) (body : Term)
  deriving DecidableEq

/-- What is certified of a cleanup. Everything but `:ok` is a failure. -/
inductive Cleanup where
  | ok
  | failed (term : Term)
  deriving DecidableEq

/-- `:unconfirmed` -/
abbrev Cleanup.unconfirmed : Cleanup := .failed (.atom "unconfirmed")

/-- The result of a virtual machine. -/
inductive Result where
  | ok
  | value (term : Term)
  | error (reason : Term)
  /-- `{:error, {:cleanup_unconfirmed, result, cleanup, directory}}` -/
  | cleanupUnconfirmed (result : Result) (cleanup : Cleanup) (directory : Option String)
  deriving DecidableEq

/-- `{:error, :cancelled}` -/
def Result.cancelled : Result := .error (.atom "cancelled")

/-- `{:error, :owner_down}` -/
def Result.ownerDown : Result := .error (.atom "owner_down")

end Terms

section Entries

/-- What a budget is for. -/
inductive Dimension where
  | vms
  | cpus
  | memory
  | scratchBytes
  deriving DecidableEq

/-- `@dimensions` -/
def dimensions : List Dimension := [.vms, .cpus, .memory, .scratchBytes]

/-- An amount in each dimension. -/
structure Resources where
  vms : ℕ
  cpus : ℕ
  memory : ℕ
  scratchBytes : ℕ
  deriving DecidableEq

/-- The amount in one dimension. -/
def Resources.get (r : Resources) : Dimension → ℕ
  | .vms => r.vms
  | .cpus => r.cpus
  | .memory => r.memory
  | .scratchBytes => r.scratchBytes

/-- Phases of a virtual machine. -/
inductive Phase where
  | starting
  | booting
  | ready
  | running
  | runningCommand
  | stopping
  | finished
  | stopped
  | retained
  deriving DecidableEq

/-- Phases that a guard reports. -/
inductive Progress where
  | ready
  | running
  | runningCommand
  | stopping
  deriving DecidableEq

/-- The phase that is reported. -/
def Progress.phase : Progress → Phase
  | .ready => .ready
  | .running => .running
  | .runningCommand => .runningCommand
  | .stopping => .stopping

/-- `VM.Status` -/
structure Status where
  phase : Phase
  directory : Option String := none
  vmm : Option Pid := none
  osPid : Option ℕ := none
  result : Option Result := none
  cleanup : Option Cleanup := none
  executionId : ℕ
  execution : Option Pid := none
  guard : Option Pid := none
  owner : Pid
  persistent : Bool
  deriving DecidableEq

/-- A change that a guard reports. -/
inductive StatusChange where
  | phase (progress : Progress)
  | directory (directory : String)
  | vmm (vmm : Pid)
  | osPid (osPid : ℕ)

/-- `struct!` with one change. -/
def Status.apply (status : Status) : StatusChange → Status
  | .phase progress => { status with phase := progress.phase }
  | .directory directory => { status with directory := some directory }
  | .vmm vmm => { status with vmm := some vmm }
  | .osPid osPid => { status with osPid := some osPid }

/-- `Entry` -/
structure Entry where
  status : Status
  resources : Resources
  reserved : Bool := true
  waiters : List Caller := []
  deriving DecidableEq

/-- `active?` -/
def Entry.active (entry : Entry) : Bool :=
  entry.status.phase != .finished && entry.status.phase != .stopped &&
    entry.status.phase != .retained

/-- Entries by the number of their virtual machine. -/
abbrev Entries := AList fun _ : ℕ => Entry

end Entries

section State

/-- What is monitored. -/
inductive Kind where
  | manager
  | supervisor
  | parent
  | execution (id : ℕ)
  | guard (id : ℕ)
  deriving DecidableEq

/-- Whether virtual machines are admitted. -/
inductive Mode where
  | recovering
  | open
  | shutdown
  deriving DecidableEq

/-- What has been given out, and what has been recorded. No function reads the outcomes. -/
structure History where
  /-- Next unique integer. -/
  ids : ℕ := 0
  /-- Next monitor or timer. -/
  refs : ℕ := 0
  /-- Virtual machines that have completed, with result and cleanup. -/
  outcomes : List (ℕ × Result × Cleanup) := []

/-- The state of the ledger. -/
structure Ledger where
  budgets : Resources
  resultLimit : ℕ := 128
  shutdownMs : ℕ := 15000
  entries : Entries := ∅
  /-- Completed virtual machines with certified cleanup, oldest first. -/
  cleanOrder : List ℕ := []
  manager : Option Pid := none
  supervisor : Option Pid := none
  parent : Option Pid := none
  monitors : List (Ref × Kind) := []
  mode : Mode := .recovering
  shutdownWaiters : List Caller := []
  shutdownTimer : Option Ref := none
  history : History := {}

/-- Options of a start that the ledger reads. -/
structure StartOptions where
  cpus : Option ℕ := none
  memory : Option ℕ := none
  scratchBytes : Option ℕ := none
  /-- The virtual machine is for one command. -/
  command : Bool
  owner : Pid
  /-- Why `VM.Execution.validate_options` rejects the options, if it does. -/
  rejected : Option Term := none

/-- The last word of a guard: its row in the table. -/
structure Certificate where
  guard : Pid
  result : Result
  cleanup : Cleanup
  directory : Option String

/-- What the ledger reads elsewhere during a turn: rows that others write at any time, and
which processes are alive. No row is read twice in a turn. -/
structure Sight where
  guardRow : ℕ → Option Pid := fun _ => none
  executionRow : ℕ → Option Pid := fun _ => none
  statusRows : ℕ → List StatusChange := fun _ => []
  terminalRow : ℕ → Option Certificate := fun _ => none
  alive : Pid → Bool := fun _ => true

/-- Why a call is refused. -/
inductive Refusal where
  | draining
  | notFound
  | invalid (reason : Term)
  | requestExceedsCapacity (dimension : Dimension)
  | capacityExhausted (dimension : Dimension)
  | startFailed (reason : Term)
  deriving DecidableEq

/-- Answers of the ledger. -/
inductive Answer where
  | ok
  | refused (refusal : Refusal)
  /-- `{:ok, id}` -/
  | started (id : ℕ)
  | statuses (statuses : List Status)
  | status (status : Status)
  /-- The result of a virtual machine. -/
  | result (result : Option Result)
  /-- `{:cancel, result}` -/
  | cancel (result : Result)
  /-- `{:error, {:cleanup_incomplete, incomplete}}` -/
  | cleanupIncomplete (incomplete : List (ℕ × Option Cleanup × Option String))
  deriving DecidableEq

/-- What the ledger does to the outside. -/
inductive Effect where
  /-- `persist` -/
  | persist (ledger : Ledger)
  /-- Delete the rows of a virtual machine. -/
  | forget (id : ℕ)
  /-- Send `{:finish, result}` to a guard. -/
  | finish (guard : Pid) (result : Result)
  /-- Cast `{:finish, result}` to an execution. -/
  | castFinish (execution : Pid) (result : Result)
  | reply (caller : Caller) (answer : Answer)
  | monitor (ref : Ref) (pid : Pid)
  | demonitor (ref : Ref)
  | sendAfter (ref : Ref) (ms : ℕ)
  | cancelTimer (ref : Ref)
  /-- `DynamicSupervisor.start_child` -/
  | startChild (supervisor : Option Pid) (id : ℕ) (options : StartOptions)

/-- The state that an effect puts into the table. -/
def Effect.stored : Effect → Option Ledger
  | .persist ledger => some ledger
  | _ => none

/-- A turn of the ledger, or a part of one. -/
abbrev LedgerTurn := Turn Ledger Effect

end State

section Parts

/-- Nothing is done. -/
def still (l : Ledger) : LedgerTurn := .emit [] l

/-- `persist` -/
def persist (l : Ledger) : LedgerTurn := .emit [.persist l] l

/-- `reply` -/
def respond (caller : Caller) (answer : Answer) (l : Ledger) : LedgerTurn :=
  (persist l).andThen (.emit [.reply caller answer])

/-- The amount in use in one dimension. -/
def Ledger.used (l : Ledger) (d : Dimension) : ℕ :=
  l.entries.total fun _ entry => if entry.reserved then entry.resources.get d else 0

/-- `capacity`: the reason for which resources are not available. -/
def capacity (l : Ledger) (resources : Resources) : Option Refusal :=
  let oversized := dimensions.find? fun d => l.budgets.get d < resources.get d
  let exhausted := dimensions.find? fun d => l.budgets.get d < l.used d + resources.get d
  match oversized, exhausted with
  | some d, _ => some (.requestExceedsCapacity d)
  | none, some d => some (.capacityExhausted d)
  | none, none => none

/-- `cancel_entry` -/
def cancelEntry (entry : Entry) (result : Result) : List Effect :=
  match entry.status.guard, entry.status.execution with
  | some guard, _ => [.finish guard result]
  | none, some execution => [.castFinish execution result]
  | none, none => []

/-- `recovery_mode` -/
def recoveryMode (l : Ledger) : Mode := if l.mode = .shutdown then .shutdown else .recovering

/-- `drain` -/
def drain (l : Ledger) : LedgerTurn :=
  let result := if l.mode = .shutdown then Result.cancelled else Result.ownerDown
  .emit (l.entries.entries.flatMap fun e => if e.2.active then cancelEntry e.2 result else []) l

/-- Entries that still hold a reservation, with what is known of their cleanup. -/
def Ledger.incomplete (l : Ledger) : List (ℕ × Option Cleanup × Option String) :=
  l.entries.entries.filterMap fun e =>
    if e.2.reserved then some (e.1, e.2.status.cleanup, e.2.status.directory) else none

/-- `shutdown_result`. A cleanup that is not known yet stands for `:pending`. -/
def shutdownResult (l : Ledger) : Answer :=
  if l.incomplete = [] then .ok
  else .cleanupIncomplete (l.incomplete.mergeSort fun a b => a.1 ≤ b.1)

/-- Some virtual machine is active. -/
def Ledger.busy (l : Ledger) : Bool := l.entries.entries.any fun e => e.2.active

/-- `is_pid(pid) and Process.alive?(pid)` -/
def Sight.attached (sight : Sight) : Option Pid → Bool
  | none => false
  | some pid => sight.alive pid

/-- `settle` -/
def settle (sight : Sight) (l : Ledger) : LedgerTurn :=
  if l.busy then still l
  else if l.mode = .shutdown then
    .emit (l.shutdownWaiters.map (fun caller => .reply caller (shutdownResult l)) ++
        l.shutdownTimer.toList.map .cancelTimer)
      { l with shutdownWaiters := [], shutdownTimer := none }
  else if l.mode = .recovering && sight.attached l.manager && sight.attached l.supervisor &&
      sight.attached l.parent then
    still { l with mode := .open }
  else still l

/-- `monitor`. An earlier monitor of the same kind is dropped. -/
def monitor (pid : Option Pid) (kind : Kind) (l : Ledger) : LedgerTurn :=
  match pid with
  | none => still l
  | some pid =>
    let ref := l.history.refs
    .emit (((l.monitors.filter fun m => m.2 = kind).map fun m => .demonitor m.1) ++
        [.monitor ref pid])
      { l with
        monitors := (ref, kind) :: l.monitors.filter fun m => m.2 ≠ kind
        history := { l.history with refs := ref + 1 } }

/-- The rounds of `evict`. -/
def evictFrom : List ℕ → Ledger → LedgerTurn
  | [], l => still l
  | id :: rest, l =>
    if l.resultLimit < rest.length + 1 then
      (persist { l with entries := l.entries.erase id, cleanOrder := rest }).andThen fun l =>
        (Turn.emit [.forget id] l).andThen (evictFrom rest)
    else still l

/-- `evict` -/
def evict (l : Ledger) : LedgerTurn := evictFrom l.cleanOrder l

/-- The phase of a virtual machine that has completed. -/
def completedPhase (cleanup : Cleanup) (persistent : Bool) : Phase :=
  if cleanup ≠ .ok then .retained else if persistent then .stopped else .finished

/-- An entry whose virtual machine has completed. -/
def Entry.completed (entry : Entry) (result : Result) (cleanup : Cleanup) : Entry :=
  { entry with
    status := { entry.status with
      phase := completedPhase cleanup entry.status.persistent
      result := some result
      cleanup := some cleanup }
    reserved := decide (cleanup ≠ .ok)
    waiters := [] }

/-- The ledger with the outcome of an entry. -/
def Ledger.withOutcome (l : Ledger) (id : ℕ) (entry : Entry) (result : Result)
    (cleanup : Cleanup) : Ledger :=
  { l with
    entries := l.entries.insert id (entry.completed result cleanup)
    cleanOrder := if cleanup = .ok then l.cleanOrder ++ [id] else l.cleanOrder
    history := { l.history with outcomes := l.history.outcomes ++ [(id, result, cleanup)] } }

/-- `complete` -/
def complete (sight : Sight) (id : ℕ) (guard : Option Pid) (result : Result) (cleanup : Cleanup)
    (l : Ledger) : LedgerTurn :=
  match l.entries.lookup id with
  | none => still l
  | some entry =>
    if entry.status.guard = guard && entry.active then
      (evict (l.withOutcome id entry result cleanup)).andThen fun l =>
        (persist l).andThen fun l =>
          (Turn.emit (entry.waiters.map fun caller => .reply caller (.result (some result))) l).andThen
            (settle sight)
    else still l

/-- Put an entry in the place of the one that was there. -/
def Ledger.put (l : Ledger) (id : ℕ) (entry : Entry) : Ledger :=
  { l with entries := l.entries.insert id entry }

/-- `certificate` -/
def certificate (sight : Sight) (id : ℕ) (l : Ledger) : LedgerTurn :=
  match sight.terminalRow id, l.entries.lookup id with
  | some c, some entry =>
    complete sight id (some c.guard) c.result c.cleanup
      (l.put id { entry with status := { entry.status with directory := c.directory } })
  | _, _ => still l

/-- `recover_status` -/
def recoverStatus (sight : Sight) (id : ℕ) (entry : Entry) : Entry :=
  if entry.active then
    { entry with status := (sight.statusRows id).foldl Status.apply entry.status }
  else entry

end Parts

section Turns

/-- `Ledger` options. -/
structure LedgerOptions where
  budgets : Resources := ⟨1, 1, 536870912, 4294967296⟩
  resultLimit : ℕ := 128
  shutdownMs : ℕ := 15000
  parent : Pid

/-- What `init` checks. -/
def LedgerOptions.valid (options : LedgerOptions) : Bool :=
  dimensions.all (fun d => 0 < options.budgets.get d) && 0 < options.shutdownMs

/-- The processes of an entry as their rows have them. -/
def Entry.located (sight : Sight) (id : ℕ) (entry : Entry) : Entry :=
  { entry with status := { entry.status with
      guard := (sight.guardRow id).or entry.status.guard
      execution := (sight.executionRow id).or entry.status.execution } }

/-- One round of the recovery in `init`. -/
def recoverEntry (sight : Sight) (id : ℕ) (l : Ledger) : LedgerTurn :=
  match l.entries.lookup id with
  | none => still l
  | some entry =>
    let entry := recoverStatus sight id (entry.located sight id)
    (monitor entry.status.execution (.execution id) (l.put id entry)).andThen fun l =>
      (monitor entry.status.guard (.guard id) l).andThen (certificate sight id)

/-- The recovery in `init`. -/
def recoverEntries (sight : Sight) : List ℕ → Ledger → LedgerTurn
  | [], l => still l
  | id :: rest, l => (recoverEntry sight id l).andThen (recoverEntries sight rest)

/-- The state that `init` starts from. -/
def LedgerOptions.restore (options : LedgerOptions) (saved : Option Ledger) : Ledger :=
  let previous : Ledger :=
    match saved with
    | none => { budgets := options.budgets }
    | some previous =>
      { previous with monitors := [], mode := .recovering, shutdownTimer := none }
  { previous with
    budgets := options.budgets
    resultLimit := options.resultLimit
    shutdownMs := options.shutdownMs
    parent := some options.parent }

/-- `init` -/
def init (options : LedgerOptions) (sight : Sight) (saved : Option Ledger) : Option LedgerTurn :=
  if options.valid then
    let l := options.restore saved
    some <| (monitor l.parent .parent l).andThen fun l =>
      (monitor l.manager .manager l).andThen fun l =>
      (monitor l.supervisor .supervisor l).andThen fun l =>
      (evict l).andThen fun l =>
      (recoverEntries sight l.entries.keys l).andThen fun l =>
      (drain l).andThen fun l => (settle sight l).andThen persist
  else none

/-- `{:attach_manager, pid}` -/
def attachManager (sight : Sight) (caller : Caller) (pid : Pid) (l : Ledger) : LedgerTurn :=
  let drained :=
    if l.manager ≠ none ∧ l.manager ≠ some pid then drain { l with mode := recoveryMode l }
    else still l
  drained.andThen fun l =>
    (monitor (some pid) .manager { l with manager := some pid }).andThen fun l =>
      (settle sight l).andThen (respond caller .ok)

/-- `{:attach_supervisor, pid}` -/
def attachSupervisor (sight : Sight) (caller : Caller) (pid : Pid) (l : Ledger) : LedgerTurn :=
  let drained :=
    if l.supervisor ≠ none ∧ l.supervisor ≠ some pid then drain { l with mode := recoveryMode l }
    else still l
  drained.andThen fun l =>
    (monitor (some pid) .supervisor { l with supervisor := some pid }).andThen fun l =>
      (settle sight l).andThen (respond caller .ok)

/-- The resources of a start, with defaults. -/
def StartOptions.resources (options : StartOptions) : Resources where
  vms := 1
  cpus := options.cpus.getD 1
  memory := options.memory.getD 536870912
  scratchBytes := options.scratchBytes.getD 4294967296

/-- The entry of a new virtual machine. -/
def StartOptions.entry (options : StartOptions) (id : ℕ) : Entry where
  status :=
    { executionId := id
      owner := options.owner
      persistent := !options.command
      phase := if options.command then .starting else .booting }
  resources := options.resources

/-- A start up to the request for the execution: the entry is persisted. -/
def admitStart (options : StartOptions) (l : Ledger) : LedgerTurn :=
  (persist { l with
    entries := l.entries.insert l.history.ids (options.entry l.history.ids)
    history := { l.history with ids := l.history.ids + 1 } }).andThen
      (.emit [.startChild l.supervisor l.history.ids options])

/-- The rest of a start, with the answer of the supervisor. -/
def started (caller : Caller) (options : StartOptions) (id : ℕ) (child : Except Term Pid)
    (l : Ledger) : LedgerTurn :=
  match child with
  | .ok execution =>
    let entry := options.entry id
    let entry := { entry with status := { entry.status with execution := some execution } }
    (monitor (some execution) (.execution id) (l.put id entry)).andThen
      (respond caller (.started id))
  | .error reason =>
    respond caller (.refused (.startFailed reason)) { l with entries := l.entries.erase id }

/-- Why a start is refused, if it is. -/
def refusal (options : StartOptions) (l : Ledger) : Option Refusal :=
  if l.mode ≠ .open then some .draining
  else
    match options.rejected with
    | some reason => some (.invalid reason)
    | none => capacity l options.resources

/-- `{:start, options}`. A supervisor that is gone makes the ledger exit when it is asked
for the execution. -/
def start (caller : Caller) (options : StartOptions) (child : Except Term Pid) (l : Ledger) :
    LedgerTurn :=
  match refusal options l with
  | some refusal => respond caller (.refused refusal) l
  | none => (admitStart options l).andThen (started caller options l.history.ids child)

/-- `:list` -/
def list (caller : Caller) (l : Ledger) : LedgerTurn :=
  .emit [.reply caller (.statuses ((l.entries.entries.map fun e => e.2.status).mergeSort
    fun a b => a.executionId ≤ b.executionId))] l

/-- `{:status, id}` -/
def status (caller : Caller) (id : ℕ) (l : Ledger) : LedgerTurn :=
  match l.entries.lookup id with
  | some entry => respond caller (.status entry.status) l
  | none => respond caller (.refused .notFound) l

/-- Add a caller to those who wait for an entry. -/
def wait (caller : Caller) (id : ℕ) (entry : Entry) (l : Ledger) : LedgerTurn :=
  persist (l.put id { entry with waiters := caller :: entry.waiters })

/-- `{:stop, id}` -/
def stop (caller : Caller) (id : ℕ) (l : Ledger) : LedgerTurn :=
  match l.entries.lookup id with
  | some entry =>
    if entry.active then (Turn.emit (cancelEntry entry .ok) l).andThen (wait caller id entry)
    else
      respond caller
        (if entry.status.cleanup = some .ok then .ok else .result entry.status.result) l
  | none => respond caller (.refused .notFound) l

/-- `{:cancel, id}` -/
def cancel (caller : Caller) (id : ℕ) (l : Ledger) : LedgerTurn :=
  match l.entries.lookup id with
  | some entry =>
    (Turn.emit (if entry.active then cancelEntry entry .cancelled else []) l).andThen
      (respond caller .ok)
  | none => respond caller (.refused .notFound) l

/-- `{:await, id}` -/
def await (caller : Caller) (id : ℕ) (l : Ledger) : LedgerTurn :=
  match l.entries.lookup id with
  | some entry =>
    if entry.active then wait caller id entry l
    else respond caller (.result entry.status.result) l
  | none => respond caller (.refused .notFound) l

/-- `{:guard_started, id, guard}` -/
def guardStarted (caller : Caller) (id : ℕ) (guard : Pid) (l : Ledger) : LedgerTurn :=
  match l.entries.lookup id with
  | some entry =>
    let entry := { entry with status := { entry.status with guard := some guard } }
    (monitor (some guard) (.guard id) (l.put id entry)).andThen fun l =>
      respond caller (if l.mode = .open ∧ entry.active then .ok else .cancel .cancelled) l
  | none => respond caller (.cancel .cancelled) l

/-- `{:finished, id, guard, result, cleanup}` -/
def finished (sight : Sight) (caller : Caller) (id : ℕ) (guard : Pid) (result : Result)
    (cleanup : Cleanup) (l : Ledger) : LedgerTurn :=
  (complete sight id (some guard) result cleanup l).andThen (respond caller .ok)

/-- Arm the timer of a shutdown unless it is running. -/
def armTimer (l : Ledger) : LedgerTurn :=
  match l.shutdownTimer with
  | some _ => still l
  | none =>
    let ref := l.history.refs
    .emit [.sendAfter ref l.shutdownMs]
      { l with shutdownTimer := some ref, history := { l.history with refs := ref + 1 } }

/-- `:shutdown` -/
def shutdown (sight : Sight) (caller : Caller) (l : Ledger) : LedgerTurn :=
  (drain { l with mode := .shutdown, shutdownWaiters := caller :: l.shutdownWaiters }).andThen
    fun l => (armTimer l).andThen fun l => (settle sight l).andThen persist

/-- `{:status, id, guard, changes}` -/
def statusChanged (id : ℕ) (guard : Pid) (changes : List StatusChange) (l : Ledger) :
    LedgerTurn :=
  match l.entries.lookup id with
  | some entry =>
    if entry.status.guard = some guard && entry.active then
      persist (l.put id { entry with status := changes.foldl Status.apply entry.status })
    else persist l
  | none => persist l

/-- An execution has ended. -/
def executionDown (id : ℕ) (l : Ledger) : LedgerTurn :=
  match l.entries.lookup id with
  | some entry =>
    match entry.status.guard with
    | some guard => .emit (if entry.active then [.finish guard .ownerDown] else []) l
    | none => still l
  | none => still l

/-- What becomes of an entry whose guard has ended without a certificate. -/
def guardLost (sight : Sight) (id : ℕ) (reason : Term) (l : Ledger) : LedgerTurn :=
  match l.entries.lookup id with
  | some entry =>
    if entry.active then
      let entry := recoverStatus sight id entry
      complete sight id entry.status.guard
        (.cleanupUnconfirmed (.error (.tagged "guard_down" reason)) .unconfirmed
          entry.status.directory) .unconfirmed (l.put id entry)
    else still l
  | none => still l

/-- A guard has ended. -/
def guardDown (sight : Sight) (id : ℕ) (reason : Term) (l : Ledger) : LedgerTurn :=
  (certificate sight id l).andThen (guardLost sight id reason)

/-- What the end of a process means. -/
def ended (sight : Sight) (reason : Term) (l : Ledger) : Option Kind → LedgerTurn
  | some .manager => drain { l with mode := recoveryMode l, manager := none }
  | some .supervisor => drain { l with mode := recoveryMode l, supervisor := none }
  | some .parent => drain { l with mode := recoveryMode l, parent := none }
  | some (.execution id) => executionDown id l
  | some (.guard id) => guardDown sight id reason l
  | none => still l

/-- `{:DOWN, ref, :process, pid, reason}` -/
def down (sight : Sight) (ref : Ref) (reason : Term) (l : Ledger) : LedgerTurn :=
  (ended sight reason { l with monitors := l.monitors.filter fun m => m.1 ≠ ref }
    (l.monitors.lookup ref)).andThen fun l => (settle sight l).andThen persist

/-- `:shutdown_deadline` -/
def shutdownDeadline (l : Ledger) : LedgerTurn :=
  (Turn.emit (l.shutdownWaiters.map fun caller => .reply caller (shutdownResult l)) l).andThen
    fun l => persist { l with shutdownWaiters := [], shutdownTimer := none }

/-- Requests that are answered. -/
inductive Request where
  | attachManager (pid : Pid)
  | attachSupervisor (pid : Pid)
  /-- A start, with what the supervisor is going to answer. -/
  | start (options : StartOptions) (child : Except Term Pid)
  | list
  | status (id : ℕ)
  | stop (id : ℕ)
  | cancel (id : ℕ)
  | await (id : ℕ)
  | guardStarted (id : ℕ) (guard : Pid)
  | finished (id : ℕ) (guard : Pid) (result : Result) (cleanup : Cleanup)
  | shutdown

/-- Messages of the ledger. -/
inductive Message where
  | call (caller : Caller) (request : Request)
  | statusChanged (id : ℕ) (guard : Pid) (changes : List StatusChange)
  | down (ref : Ref) (reason : Term)
  | shutdownDeadline

/-- `handle_call` -/
def handleCall (sight : Sight) (caller : Caller) : Request → Ledger → LedgerTurn
  | .attachManager pid => attachManager sight caller pid
  | .attachSupervisor pid => attachSupervisor sight caller pid
  | .start options child => start caller options child
  | .list => list caller
  | .status id => status caller id
  | .stop id => stop caller id
  | .cancel id => cancel caller id
  | .await id => await caller id
  | .guardStarted id guard => guardStarted caller id guard
  | .finished id guard result cleanup => finished sight caller id guard result cleanup
  | .shutdown => shutdown sight caller

/-- `handle_call`, `handle_cast` and `handle_info` -/
def handle (sight : Sight) : Message → Ledger → LedgerTurn
  | .call caller request => handleCall sight caller request
  | .statusChanged id guard changes => statusChanged id guard changes
  | .down ref reason => down sight ref reason
  | .shutdownDeadline => shutdownDeadline

/-- The ledger as a server. -/
def ledger : Server Ledger Effect (Sight × Message) (LedgerOptions × Sight) where
  stored := Effect.stored
  boot input := init input.1 input.2
  handle input := handle input.1 input.2

end Turns

end Sower.Vm
