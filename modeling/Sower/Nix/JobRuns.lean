import Sower.Nix.Jobs

/-!
# Runs of the jobs process

The jobs process runs with its tasks and its caller. A task returns, and then ends, or
it crashes; the monitor reports both to the process, and a crash also reaches it along
the link. Messages wait in the inbox in the order in which they came. The call, the
results, the crashes and what reaches the process along links come in any order.
-/

namespace Sower.Nix

section Worlds

/-- The jobs process and all around it. -/
structure World where
  /-- Nothing once the process has ended. -/
  jobs : Option Jobs
  inbox : Inbox := {}
  /-- References from here on are unused. -/
  fresh : Ref := 0
  /-- Tasks that evaluate. -/
  tasks : AList fun _ : Ref => Work := ∅
  /-- Tasks that have returned and are about to end. -/
  ending : List Ref := []
  /-- Exit signals of crashed tasks on their way to the process. -/
  signals : List Reason := []
  /-- Who has called. -/
  caller : Option Caller := none
  replies : List Reply := []

/-- What others than tasks and the caller ask of the process. -/
inductive Ask where
  | setMaxWorkers (newMax : ℕ)
  | flush
  | tick

/-- The message to the process. -/
def Ask.message : Ask → Message
  | .setMaxWorkers newMax => .setMaxWorkers newMax
  | .flush => .flush
  | .tick => .tick

/-- Worker limits are at least one. -/
def Ask.allowed : Ask → Bool
  | .setMaxWorkers newMax => 1 ≤ newMax
  | .flush => true
  | .tick => true

/-- What happens next. -/
inductive Event where
  | returns (ref : Ref)
  | crashes (ref : Ref)
  | ends (ref : Ref)
  /-- An exit signal reaches the process. -/
  | signalled
  | calls (caller : Caller)
  | asks (ask : Ask)
  /-- The process takes the message that has waited longest. -/
  | handles

/-- A message has come. -/
def World.deliver (message : Message) (w : World) : World :=
  { w with inbox := { w.inbox with messages := w.inbox.messages ++ [message] } }

/-- The world after a callback. With the process its messages are gone. -/
def World.after (w : World) : Turn → World
  | .noreply s inbox tasks =>
    { w with
      jobs := some s, inbox
      fresh := w.fresh + tasks.length
      tasks := addTasks w.tasks tasks }
  | .stop reply => { w with jobs := none, inbox := {}, replies := w.replies ++ [reply] }
  | .raised => { w with jobs := none, inbox := {} }

variable (f : Formats)

/-- One event, if it can happen. -/
def step (w : World) : Event → Option World
  | .returns ref =>
    match w.tasks.lookup ref with
    | none => none
    | some (request, tree) =>
      match evaluateRequest f request tree with
      | .error _ => none
      | .ok value =>
        some ({ w with tasks := w.tasks.erase ref, ending := ref :: w.ending }.deliver
          (.task (.result ref value)))
  | .crashes ref =>
    match w.tasks.lookup ref with
    | none => none
    | some (request, tree) =>
      match evaluateRequest f request tree with
      | .error reason =>
        some ({ w with tasks := w.tasks.erase ref, signals := w.signals ++ [reason] }.deliver
          (.task (.down ref (some reason))))
      | .ok _ => none
  | .ends ref =>
    if ref ∈ w.ending then
      let ended := { w with ending := w.ending.erase ref }
      some (if ref ∈ w.inbox.demonitored then ended else ended.deliver (.task (.down ref none)))
    else none
  | .signalled =>
    match w.signals with
    | [] => none
    | _ :: rest => some { w with jobs := none, inbox := {}, signals := rest }
  | .calls caller =>
    match w.caller with
    | none => some ({ w with caller := some caller }.deliver (.run caller))
    | some _ => none
  | .asks ask => if ask.allowed then some (w.deliver ask.message) else none
  | .handles =>
    match w.jobs, w.inbox.messages with
    | some s, message :: rest =>
      some (w.after (handle f w.fresh s { w.inbox with messages := rest } message))
    | _, _ => none

/-- Events one after the other. -/
def run : List Event → World → Option World
  | [], w => some w
  | event :: rest, w => (step f w event).bind (run rest)

/-- What an event does, case by case. -/
inductive Happens (f : Formats) (w : World) : Event → World → Prop
  | returns {ref : Ref} {work : Work} {value : TaskResult Target}
      (htask : w.tasks.lookup ref = some work)
      (hvalue : evaluateRequest f work.1 work.2 = .ok value) :
      Happens f w (.returns ref)
        ({ w with tasks := w.tasks.erase ref, ending := ref :: w.ending }.deliver
          (.task (.result ref value)))
  | crashes {ref : Ref} {work : Work} {reason : Reason} (htask : w.tasks.lookup ref = some work)
      (hreason : evaluateRequest f work.1 work.2 = .error reason) :
      Happens f w (.crashes ref)
        ({ w with tasks := w.tasks.erase ref, signals := w.signals ++ [reason] }.deliver
          (.task (.down ref (some reason))))
  | ends {ref : Ref} (hending : ref ∈ w.ending) :
      Happens f w (.ends ref) { w with ending := w.ending.erase ref }
  | endsReported {ref : Ref} (hending : ref ∈ w.ending) :
      Happens f w (.ends ref)
        ({ w with ending := w.ending.erase ref }.deliver (.task (.down ref none)))
  | signalled {reason : Reason} {rest : List Reason} (hsignals : w.signals = reason :: rest) :
      Happens f w .signalled { w with jobs := none, inbox := {}, signals := rest }
  | calls {caller : Caller} (hcaller : w.caller = none) :
      Happens f w (.calls caller) ({ w with caller := some caller }.deliver (.run caller))
  | asks {ask : Ask} (hallowed : ask.allowed = true) :
      Happens f w (.asks ask) (w.deliver ask.message)
  | handles {s : Jobs} {message : Message} {rest : List Message} (hjobs : w.jobs = some s)
      (hmessages : w.inbox.messages = message :: rest) :
      Happens f w .handles
        (w.after (handle f w.fresh s { w.inbox with messages := rest } message))

/-- Every event that can happen is one of the cases. -/
theorem happens_of_step {f : Formats} {w w' : World} {event : Event} (h : step f w event = some w') :
    Happens f w event w' := by
  cases event with
  | returns ref =>
    cases htask : w.tasks.lookup ref with
    | none => simp [step, htask] at h
    | some work =>
      cases hvalue : evaluateRequest f work.1 work.2 with
      | error reason => simp [step, htask, hvalue] at h
      | ok value =>
        simp only [step, htask, hvalue] at h
        cases h
        exact .returns htask hvalue
  | crashes ref =>
    cases htask : w.tasks.lookup ref with
    | none => simp [step, htask] at h
    | some work =>
      cases hreason : evaluateRequest f work.1 work.2 with
      | ok value => simp [step, htask, hreason] at h
      | error reason =>
        simp only [step, htask, hreason] at h
        cases h
        exact .crashes htask hreason
  | ends ref =>
    by_cases hending : ref ∈ w.ending
    · simp only [step, if_pos hending] at h
      by_cases hsilent : ref ∈ w.inbox.demonitored
      · rw [if_pos hsilent] at h
        cases h
        exact .ends hending
      · rw [if_neg hsilent] at h
        cases h
        exact .endsReported hending
    · simp [step, hending] at h
  | signalled =>
    cases hsignals : w.signals with
    | nil => simp [step, hsignals] at h
    | cons reason rest =>
      simp only [step, hsignals] at h
      cases h
      exact .signalled hsignals
  | calls caller =>
    cases hcaller : w.caller with
    | some other => simp [step, hcaller] at h
    | none =>
      simp only [step, hcaller] at h
      cases h
      exact .calls hcaller
  | asks ask =>
    by_cases hallowed : ask.allowed = true
    · simp only [step, if_pos hallowed] at h
      cases h
      exact .asks hallowed
    · simp [step, hallowed] at h
  | handles =>
    cases hjobs : w.jobs with
    | none => simp [step, hjobs] at h
    | some s =>
      cases hmessages : w.inbox.messages with
      | nil => simp [step, hjobs, hmessages] at h
      | cons message rest =>
        simp only [step, hjobs, hmessages] at h
        cases h
        exact .handles hjobs hmessages

/-- `init`: the request is queued and workers are started. -/
def start (request : Request) (tree : Tree) (maxWorkers : ℕ) : World :=
  let s : Jobs := { request, queue := [.wanted request tree], maxWorkers }
  World.after { jobs := some s } (s.carryOn 0 {})

/-- An event that comes from outside, as often as it likes. -/
def Event.isAsk : Event → Bool
  | .asks _ => true
  | _ => false

end Worlds

section Conditions

variable (f : Formats)

/-- The process does not take what it would get wrong: the exit signal of a crashed task;
the report of a crash other than by draining the inbox; the message that completes the
work before it has taken the call. -/
def Spared (w : World) : Event → Prop
  | .signalled => w.jobs = none
  | .handles =>
    match w.jobs, w.inbox.messages with
    | some s, .task (.down ref (some _)) :: _ => s.running.lookup ref = none
    | some s, .task (.result ref value) :: rest =>
      s.caller = none → (afterResult f ref value s { w.inbox with messages := rest }).1.idle = false
    | _, _ => True
  | _ => True

/-- No event of the run is one of these. -/
def SparedAlong : World → List Event → Prop
  | _, [] => True
  | w, event :: rest =>
    Spared f w event ∧
      match step f w event with
      | none => True
      | some w' => SparedAlong w' rest

theorem sparedAlong_cons {f : Formats} {w w' : World} {event : Event}
    (hstep : step f w event = some w') (rest : List Event) :
    SparedAlong f w (event :: rest) ↔ Spared f w event ∧ SparedAlong f w' rest := by
  rw [SparedAlong, hstep]

/-- The caller has called, and the process has nothing more to wait for. -/
def World.Quiet (w : World) : Prop :=
  w.caller.isSome ∧ (w.jobs.isSome → w.tasks.entries = [] ∧ w.inbox.messages = [])

/-- The caller has one reply. It holds the results of the tree, each once, and its status
says whether all of them are ok. -/
def World.Completed (request : Request) (tree : Tree) (w : World) : Prop :=
  ∃ reply, w.replies = [reply] ∧ w.caller = some reply.caller ∧ reply.request = request ∧
    reply.results.Perm (tree.results f request) ∧
    (reply.status = .ok ↔ ∀ eval ∈ tree.results f request, eval.status = .ok)

end Conditions

section Views

/-- What is known of a task: the work it does, the work it is running for, whether it is
about to end, and the messages about it. -/
structure View where
  task : Option Work
  running : Option Work
  ending : Bool
  messages : List TaskMessage

/-- Nothing is known of a task that has not been started. -/
def View.unused : View := ⟨none, none, false, []⟩

/-- The task that a message is about. -/
def TaskMessage.ref : TaskMessage → Ref
  | .result ref _ => ref
  | .down ref _ => ref

/-- The messages about a task. -/
def messagesOf (ref : Ref) (messages : List Message) : List TaskMessage :=
  messages.filterMap fun message =>
    match message with
    | .task message => if message.ref = ref then some message else none
    | _ => none

/-- What is known of a task. -/
def view (tasks : AList fun _ : Ref => Work) (ending : List Ref) (running : AList fun _ : Ref => Work)
    (messages : List Message) (ref : Ref) : View :=
  ⟨tasks.lookup ref, running.lookup ref, decide (ref ∈ ending), messagesOf ref messages⟩

/-- Where a task can be while the process is right about it. -/
inductive Stage (f : Formats) (ref : Ref) : View → Prop
  | evaluating (work : Work) : Stage f ref ⟨some work, some work, false, []⟩
  | returned {work : Work} {value : TaskResult Target} {downs : List TaskMessage} (ending : Bool)
      (hvalue : evaluateRequest f work.1 work.2 = .ok value)
      (hdowns : ∀ message ∈ downs, message = .down ref none) :
      Stage f ref ⟨none, some work, ending, .result ref value :: downs⟩
  | crashed {work : Work} {reason : Reason} (hreason : evaluateRequest f work.1 work.2 = .error reason) :
      Stage f ref ⟨none, some work, false, [.down ref (some reason)]⟩
  | done {downs : List TaskMessage} (ending : Bool)
      (hdowns : ∀ message ∈ downs, message = .down ref none) :
      Stage f ref ⟨none, none, ending, downs⟩

/-- The process waits for a task of which it will not hear. -/
inductive View.Lost : View → Prop
  | lost (work : Work) : Lost ⟨none, some work, false, []⟩

end Views

end Sower.Nix
