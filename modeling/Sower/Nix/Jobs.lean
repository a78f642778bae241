import Sower.Lib.Totals
import Sower.Nix.Evaluation

/-!
# The jobs process

One process evaluates a request and all that follows from it. It keeps a queue of
requests, starts a task for each as long as there are free workers, and replies to its
caller when nothing is queued and no task is running. Messages of tasks are taken by the
callback that is invoked for one of them, and up to fifty more by the callback itself.
-/

namespace Sower.Nix

section Processes

/-- Reference of a task, which its monitor shares. -/
abbrev Ref := ℕ

/-- Who has called, `{pid(), term()}`. -/
abbrev Caller := ℕ

/-- A task: the request that is evaluated, and what the evaluation does. -/
abbrev Work := Request × Tree

/-- A message of a task, or about its end. -/
inductive TaskMessage where
  | result (ref : Ref) (value : TaskResult Target)
  /-- `:DOWN`; no reason stands for `:normal`. -/
  | down (ref : Ref) (reason : Option Reason)

/-- A message to the jobs process. -/
inductive Message where
  | task (message : TaskMessage)
  | run (caller : Caller)
  | setMaxWorkers (newMax : ℕ)
  | flush
  | tick

/-- `Nix.Eval.Jobs`. -/
structure Jobs where
  request : Request
  queue : List Target := []
  running : AList fun _ : Ref => Work := ∅
  /-- The last one first. -/
  results : List Eval := []
  maxWorkers : ℕ
  caller : Option Caller := none

/-- `Nix.Eval.Jobs.Result` with the status and whom it is sent to. -/
structure Reply where
  caller : Caller
  status : Status
  request : Request
  results : List Eval
  deriving DecidableEq, Repr

/-- Messages that wait, and the references whose monitors have been removed. -/
structure Inbox where
  messages : List Message := []
  demonitored : List Ref := []

end Processes

section Workers

/-- The tasks for the items, with new references. It raises at what is no request, when
its attribute is asked for. -/
def startTasks : Ref → List Target → Option (List (Ref × Work))
  | _, [] => some []
  | _, .stray _ :: _ => none
  | fresh, .wanted request tree :: rest =>
    (startTasks (fresh + 1) rest).map ((fresh, (request, tree)) :: ·)

/-- The tasks with more of them. -/
def addTasks (table : AList fun _ : Ref => Work) (tasks : List (Ref × Work)) :
    AList fun _ : Ref => Work :=
  tasks.foldl (fun table task => table.insert task.1 task.2) table

/-- How many items are taken off the queue. -/
def Jobs.toSpawn (s : Jobs) : ℕ := min (s.maxWorkers - s.running.entries.length) s.queue.length

/-- `spawn_workers`, with the tasks that are started. -/
def spawnWorkers (fresh : Ref) (s : Jobs) : Option (Jobs × List (Ref × Work)) :=
  (startTasks fresh (s.queue.take s.toSpawn)).map fun tasks =>
    ({ s with queue := s.queue.drop s.toSpawn, running := addTasks s.running tasks }, tasks)

variable {fresh ref : Ref} {s s' : Jobs} {targets : List Target} {tasks : List (Ref × Work)}
  {table : AList fun _ : Ref => Work}

/-- The item that a task is for. -/
def itemOf (task : Ref × Work) : Target := .wanted task.2.1 task.2.2

/-- Every item has its task, and the references are consecutive. -/
theorem startTasks_eq_some (h : startTasks fresh targets = some tasks) :
    tasks.map itemOf = targets ∧ tasks.map Prod.fst = List.range' fresh targets.length := by
  induction targets generalizing fresh tasks with
  | nil =>
    cases h
    exact ⟨rfl, rfl⟩
  | cons target rest ih =>
    cases target with
    | stray chunk => cases h
    | wanted request tree =>
      obtain ⟨others, hothers, hsame⟩ := Option.map_eq_some_iff.mp h
      obtain ⟨hitems, hrefs⟩ := ih hothers
      rw [← hsame, List.map_cons, List.map_cons, hitems, hrefs]
      exact ⟨rfl, rfl⟩

/-- Only a chunk that was taken for a request keeps tasks from being started. -/
theorem exists_startTasks (fresh : Ref) (h : ∀ chunk, .stray chunk ∉ targets) :
    ∃ tasks, startTasks fresh targets = some tasks := by
  induction targets generalizing fresh with
  | nil => exact ⟨[], rfl⟩
  | cons target rest ih =>
    cases target with
    | stray chunk => exact absurd List.mem_cons_self (h chunk)
    | wanted request tree =>
      have hrest (chunk : String) : .stray chunk ∉ rest :=
        fun hmem => h chunk (List.mem_cons_of_mem _ hmem)
      obtain ⟨others, hothers⟩ := ih (fresh + 1) hrest
      exact ⟨(fresh, (request, tree)) :: others, by rw [startTasks, hothers]; rfl⟩

theorem lookup_addTasks_of_notMem (h : ref ∉ tasks.map Prod.fst) :
    (addTasks table tasks).lookup ref = table.lookup ref := by
  induction tasks generalizing table with
  | nil => rfl
  | cons task rest ih =>
    rw [List.map_cons, List.mem_cons, not_or] at h
    have hrest : (addTasks (table.insert task.1 task.2) rest).lookup ref =
        (table.insert task.1 task.2).lookup ref := ih h.2
    rw [AList.lookup_insert_ne h.1] at hrest
    exact hrest

theorem lookup_addTasks_of_mem (table : AList fun _ : Ref => Work) {work : Work} (hnodup : (tasks.map Prod.fst).Nodup)
    (h : (ref, work) ∈ tasks) : (addTasks table tasks).lookup ref = some work := by
  induction tasks generalizing table with
  | nil => cases h
  | cons task rest ih =>
    rw [List.map_cons, List.nodup_cons] at hnodup
    rcases List.mem_cons.mp h with rfl | hmem
    · change (addTasks (table.insert ref work) rest).lookup ref = some work
      rw [lookup_addTasks_of_notMem hnodup.1, AList.lookup_insert]
    · exact ih _ hnodup.2 hmem

theorem total_addTasks {g : Ref → Work → ℕ} (hnodup : (tasks.map Prod.fst).Nodup)
    (h : ∀ ref ∈ tasks.map Prod.fst, table.lookup ref = none) :
    (addTasks table tasks).total g = table.total g + (tasks.map fun task => g task.1 task.2).sum := by
  induction tasks generalizing table with
  | nil => rfl
  | cons task rest ih =>
    rw [List.map_cons, List.nodup_cons] at hnodup
    have hfirst := h task.1 List.mem_cons_self
    have hrest : ∀ ref ∈ rest.map Prod.fst, (table.insert task.1 task.2).lookup ref = none := by
      intro ref hmem
      have hne : ref ≠ task.1 := fun hsame => hnodup.1 (hsame ▸ hmem)
      rw [AList.lookup_insert_ne hne]
      exact h ref (List.mem_cons_of_mem _ hmem)
    have htotal := ih hnodup.2 hrest
    rw [AList.total_insert_of_none hfirst] at htotal
    change (addTasks (table.insert task.1 task.2) rest).total g = _
    rw [List.map_cons, List.sum_cons]
    omega

theorem total_addTasks_le (table : AList fun _ : Ref => Work) (tasks : List (Ref × Work))
    {g : Ref → Work → ℕ} :
    (addTasks table tasks).total g ≤ table.total g + (tasks.map fun task => g task.1 task.2).sum := by
  induction tasks generalizing table with
  | nil => exact Nat.le_refl _
  | cons task rest ih =>
    have hrest := ih (table.insert task.1 task.2)
    have hinsert : (table.insert task.1 task.2).total g ≤ g task.1 task.2 + table.total g := by
      rw [AList.total_insert]
      exact Nat.add_le_add_left AList.total_erase_le _
    change (addTasks (table.insert task.1 task.2) rest).total g ≤ _
    rw [List.map_cons, List.sum_cons]
    omega

/-- What `spawn_workers` does: some items leave the queue for tasks of their own. -/
structure Spawned (fresh : Ref) (s s' : Jobs) (tasks : List (Ref × Work)) : Prop where
  items : tasks.map itemOf ++ s'.queue = s.queue
  refs : tasks.map Prod.fst = List.range' fresh tasks.length
  running : s'.running = addTasks s.running tasks
  results : s'.results = s.results
  request : s'.request = s.request
  maxWorkers : s'.maxWorkers = s.maxWorkers
  caller : s'.caller = s.caller
  count : tasks.length = s.toSpawn

theorem spawned_of_spawnWorkers (h : spawnWorkers fresh s = some (s', tasks)) :
    Spawned fresh s s' tasks := by
  obtain ⟨started, hstarted, hsame⟩ := Option.map_eq_some_iff.mp h
  cases hsame
  obtain ⟨hitems, hrefs⟩ := startTasks_eq_some hstarted
  have hlength : tasks.length = (s.queue.take s.toSpawn).length := by
    rw [← hitems, List.length_map]
  refine ⟨?_, ?_, rfl, rfl, rfl, rfl, rfl, ?_⟩
  · rw [hitems]
    exact List.take_append_drop _ _
  · rw [hrefs, hlength]
  · rw [hlength, List.length_take]
    exact Nat.min_eq_left (Nat.min_le_right _ _)

theorem Spawned.nodup (h : Spawned fresh s s' tasks) : (tasks.map Prod.fst).Nodup := by
  rw [h.refs]
  exact List.nodup_range'

theorem Spawned.fresh_le (h : Spawned fresh s s' tasks) (hmem : ref ∈ tasks.map Prod.fst) :
    fresh ≤ ref ∧ ref < fresh + tasks.length := by
  rw [h.refs] at hmem
  have hrange := List.mem_range'_1.mp hmem
  omega

end Workers

section Messages

variable (f : Formats)

/-- `process_task_result`. -/
def processTaskResult (ref : Ref) (value : TaskResult Target) (s : Jobs) : Jobs :=
  match s.running.lookup ref with
  | none => s
  | some _ =>
    match value with
    | .leaf eval => { s with results := eval :: s.results, running := s.running.erase ref }
    | .branch targets => { s with queue := s.queue ++ targets, running := s.running.erase ref }

/-- `handle_task_crash`. -/
def handleTaskCrash (ref : Ref) (reason : Reason) (s : Jobs) : Jobs :=
  match s.running.lookup ref with
  | none => s
  | some (request, _) =>
    { s with
      running := s.running.erase ref
      results := buildErrorResult f request reason :: s.results }

/-- What `drain_mailbox` does with a message it takes. -/
def drainMessage (s : Jobs) : TaskMessage → Jobs
  | .result ref value => processTaskResult ref value s
  | .down ref none => { s with running := s.running.erase ref }
  | .down ref (some reason) => handleTaskCrash f ref reason s

/-- The first message of a task, and the messages without it. -/
def receiveTask : List Message → Option (TaskMessage × List Message)
  | [] => none
  | .task message :: rest => some (message, rest)
  | message :: rest => (receiveTask rest).map fun found => (found.1, message :: found.2)

/-- The message says that the task has ended. -/
def Message.isDownOf (ref : Ref) : Message → Bool
  | .task (.down ref' _) => ref' == ref
  | _ => false

/-- `Process.demonitor(ref, [:flush])`. -/
def Inbox.demonitor (ref : Ref) (inbox : Inbox) : Inbox :=
  { messages := inbox.messages.filter fun message => !message.isDownOf ref
    demonitored := ref :: inbox.demonitored }

/-- The inbox after a message was taken: the monitor of a task is removed with its
result. -/
def Inbox.settle (message : TaskMessage) (inbox : Inbox) : Inbox :=
  match message with
  | .result ref _ => inbox.demonitor ref
  | .down _ _ => inbox

/-- `drain_mailbox`. -/
def drainMailbox : ℕ → Jobs × Inbox → Jobs × Inbox
  | 0, found => found
  | n + 1, (s, inbox) =>
    match receiveTask inbox.messages with
    | none => (s, inbox)
    | some (message, rest) =>
      drainMailbox n (drainMessage f s message, Inbox.settle message { inbox with messages := rest })

/-- `check_ok`. -/
def checkOk (results : List Eval) : Status :=
  if results.all (·.status == .ok) then .ok else .error

end Messages

section Callbacks

variable (f : Formats)

/-- How a callback ends. -/
inductive Turn where
  | noreply (s : Jobs) (inbox : Inbox) (tasks : List (Ref × Work))
  | stop (reply : Reply)
  /-- An exception, which ends the process. -/
  | raised

/-- Nothing is queued and no task is running. -/
def Jobs.idle (s : Jobs) : Bool := s.queue.isEmpty && s.running.entries.isEmpty

/-- The state after the free workers have been put to work. -/
def Jobs.carryOn (fresh : Ref) (s : Jobs) (inbox : Inbox) : Turn :=
  match spawnWorkers fresh s with
  | none => .raised
  | some (s, tasks) => .noreply s inbox tasks

/-- The reply to the caller; `GenServer.reply/2` raises when nobody has called. -/
def Jobs.finish (s : Jobs) : Turn :=
  match s.caller with
  | none => .raised
  | some caller =>
    let results := s.results.reverse
    .stop { caller, status := checkOk results, request := s.request, results }

/-- `handle_info` of a result before it is known whether all work is done. -/
def afterResult (ref : Ref) (value : TaskResult Target) (s : Jobs) (inbox : Inbox) : Jobs × Inbox :=
  drainMailbox f 50 (processTaskResult ref value s, inbox)

/-- `handle_info` and `handle_call`. -/
def handle (fresh : Ref) (s : Jobs) (inbox : Inbox) : Message → Turn
  | .task (.result ref value) =>
    let (s, inbox) := afterResult f ref value s inbox
    if s.idle then s.finish else s.carryOn fresh inbox
  | .task (.down _ _) => .noreply s inbox []
  | .run caller => ({ s with caller := some caller }).carryOn fresh inbox
  | .setMaxWorkers newMax => .noreply { s with maxWorkers := newMax } inbox []
  | .flush => s.carryOn fresh inbox
  | .tick => .noreply s inbox []

end Callbacks

end Sower.Nix
