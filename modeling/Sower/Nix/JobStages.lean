import Mathlib.Algebra.Order.BigOperators.Group.List
import Mathlib.Algebra.Order.Group.Nat
import Sower.Nix.JobRuns

/-!
# Where tasks are

What the jobs process knows of a task follows from the messages about it: it waits for
the task while it evaluates, while its result waits in the inbox or while the report of
its crash does. Taking a message settles one task and leaves the others alone, and what
has been found together with what is still to be found stays the same.
-/

namespace Sower.Nix

variable {f : Formats} {ref ref' : Ref} {s s' : Jobs} {messages rest : List Message}
  {message : TaskMessage}

section Messages

@[simp] theorem messagesOf_nil : messagesOf ref [] = [] := rfl

theorem messagesOf_append (ref : Ref) (messages rest : List Message) : messagesOf ref (messages ++ rest) =
    messagesOf ref messages ++ messagesOf ref rest := List.filterMap_append

theorem messagesOf_task : messagesOf ref [.task message] =
    if message.ref = ref then [message] else [] := by
  by_cases href : message.ref = ref
  · simp [messagesOf, href]
  · simp [messagesOf, href]

theorem messagesOf_task_self : messagesOf message.ref [.task message] = [message] := by
  rw [messagesOf_task, if_pos rfl]

theorem messagesOf_cons_task : messagesOf ref (.task message :: rest) =
    if message.ref = ref then message :: messagesOf ref rest else messagesOf ref rest := by
  by_cases href : message.ref = ref
  · simp [messagesOf, href]
  · simp [messagesOf, href]

theorem mem_messagesOf : message ∈ messagesOf ref messages ↔
    .task message ∈ messages ∧ message.ref = ref := by
  induction messages with
  | nil => simp
  | cons first rest ih =>
    have hcons : messagesOf ref (first :: rest) = messagesOf ref [first] ++ messagesOf ref rest :=
      messagesOf_append ref [first] rest
    rw [hcons, List.mem_append, ih, List.mem_cons, or_and_right]
    refine or_congr_left ?_
    cases first with
    | task found =>
      rw [messagesOf_task]
      by_cases href : found.ref = ref
      · rw [if_pos href, List.mem_singleton, Message.task.injEq]
        exact ⟨fun h => ⟨h, h ▸ href⟩, fun h => h.1⟩
      · rw [if_neg href]
        simp only [List.not_mem_nil, Message.task.injEq, false_iff, not_and]
        intro hsame
        exact hsame ▸ href
    | _ => simp [messagesOf]

/-- A message that is not about a task. -/
def Message.isOther : Message → Bool
  | .task _ => false
  | _ => true

theorem messagesOf_cons_other {other : Message} (h : other.isOther = true) :
    messagesOf ref (other :: rest) = messagesOf ref rest := by
  cases other with
  | task message => cases h
  | run caller => rfl
  | setMaxWorkers newMax => rfl
  | flush => rfl
  | tick => rfl

theorem messagesOf_append_other {other : Message} (h : other.isOther = true) :
    messagesOf ref (messages ++ [other]) = messagesOf ref messages := by
  rw [messagesOf_append, messagesOf_cons_other h, messagesOf_nil, List.append_nil]

theorem receiveTask_cons_other {other : Message} (h : other.isOther = true) :
    receiveTask (other :: rest) =
      (receiveTask rest).map fun found => (found.1, other :: found.2) := by
  cases other with
  | task message => cases h
  | run caller => rfl
  | setMaxWorkers newMax => rfl
  | flush => rfl
  | tick => rfl

theorem messagesOf_of_receiveTask (h : receiveTask messages = some (message, rest)) (ref : Ref) :
    messagesOf ref messages =
      if message.ref = ref then message :: messagesOf ref rest else messagesOf ref rest := by
  induction messages generalizing rest with
  | nil => cases h
  | cons first others ih =>
    cases hother : first.isOther with
    | false =>
      cases first with
      | task first =>
        cases h
        exact messagesOf_cons_task
      | _ => cases hother
    | true =>
      rw [receiveTask_cons_other hother] at h
      obtain ⟨found, hfound, hsame⟩ := Option.map_eq_some_iff.mp h
      cases hsame
      rw [messagesOf_cons_other hother, messagesOf_cons_other hother]
      exact ih hfound

/-- The message that is received is one of the messages. -/
theorem perm_of_receiveTask (h : receiveTask messages = some (message, rest)) :
    messages.Perm (.task message :: rest) := by
  induction messages generalizing rest with
  | nil => cases h
  | cons first others ih =>
    cases hother : first.isOther with
    | false =>
      cases first with
      | task first =>
        cases h
        exact List.Perm.refl _
      | _ => cases hother
    | true =>
      rw [receiveTask_cons_other hother] at h
      obtain ⟨found, hfound, hsame⟩ := Option.map_eq_some_iff.mp h
      cases hsame
      exact ((ih hfound).cons first).trans (List.Perm.swap _ _ _)

theorem messagesOf_demonitor_ne (inbox : Inbox) (hne : ref ≠ ref') :
    messagesOf ref (inbox.demonitor ref').messages = messagesOf ref inbox.messages := by
  unfold Inbox.demonitor
  induction inbox.messages with
  | nil => rfl
  | cons first rest ih =>
    cases hdown : first.isDownOf ref' with
    | false =>
      rw [List.filter_cons_of_pos (by simp [hdown])]
      simp only [messagesOf, List.filterMap_cons] at ih ⊢
      rw [ih]
    | true =>
      rw [List.filter_cons_of_neg (by simp [hdown]), ih]
      match first with
      | .task (.down other reason) =>
        have hother : other = ref' := by simpa [Message.isDownOf] using hdown
        rw [messagesOf_cons_task, if_neg]
        intro hsame
        exact hne (hsame.symm.trans hother)

end Messages

section Taking

variable {value : TaskResult Target} {reason : Reason}

theorem running_processTaskResult :
    (processTaskResult ref value s).running = s.running.erase ref := by
  unfold processTaskResult
  cases hlookup : s.running.lookup ref with
  | none => exact (AList.erase_of_lookup_eq_none hlookup).symm
  | some work => cases value <;> rfl

theorem running_handleTaskCrash :
    (handleTaskCrash f ref reason s).running = s.running.erase ref := by
  unfold handleTaskCrash
  cases hlookup : s.running.lookup ref with
  | none => exact (AList.erase_of_lookup_eq_none hlookup).symm
  | some work => rfl

/-- Whatever the message says, its task does not run any more. -/
theorem running_drainMessage : (drainMessage f s message).running = s.running.erase message.ref := by
  match message with
  | .result ref value => exact running_processTaskResult
  | .down ref none => rfl
  | .down ref (some reason) => exact running_handleTaskCrash

/-- What messages of tasks do not change. -/
def Jobs.SameSettings (s s' : Jobs) : Prop :=
  s'.request = s.request ∧ s'.maxWorkers = s.maxWorkers ∧ s'.caller = s.caller

theorem sameSettings_processTaskResult : s.SameSettings (processTaskResult ref value s) := by
  unfold processTaskResult
  cases s.running.lookup ref with
  | none => exact ⟨rfl, rfl, rfl⟩
  | some work => cases value <;> exact ⟨rfl, rfl, rfl⟩

theorem sameSettings_drainMessage : s.SameSettings (drainMessage f s message) := by
  match message with
  | .result ref value => exact sameSettings_processTaskResult
  | .down ref none => exact ⟨rfl, rfl, rfl⟩
  | .down ref (some reason) =>
    change s.SameSettings (handleTaskCrash f ref reason s)
    unfold handleTaskCrash
    cases s.running.lookup ref <;> exact ⟨rfl, rfl, rfl⟩

/-- What has been found and what is still to be found. -/
def Jobs.share (g : Target → ℕ) (h : Eval → ℕ) (s : Jobs) : ℕ :=
  (s.results.map h).sum + (s.queue.map g).sum +
    s.running.total fun _ work => g (.wanted work.1 work.2)

/-- The message says what the evaluation of the task makes; a task that has ended is
reported when it is not waited for any more. -/
inductive Genuine (f : Formats) (running : AList fun _ : Ref => Work) : TaskMessage → Prop
  | result {ref : Ref} {work : Work} {value : TaskResult Target}
      (hwork : running.lookup ref = some work)
      (hvalue : evaluateRequest f work.1 work.2 = .ok value) : Genuine f running (.result ref value)
  | ended {ref : Ref} (hwork : running.lookup ref = none) : Genuine f running (.down ref none)
  | crashed {ref : Ref} {work : Work} {reason : Reason} (hwork : running.lookup ref = some work)
      (hreason : evaluateRequest f work.1 work.2 = .error reason) :
      Genuine f running (.down ref (some reason))

variable {g : Target → ℕ} {h : Eval → ℕ}

theorem share_processTaskResult (hc : Conserved f g h) {work : Work}
    (hwork : s.running.lookup ref = some work)
    (hvalue : evaluateRequest f work.1 work.2 = .ok value) :
    (processTaskResult ref value s).share g h = s.share g h := by
  have htotal := AList.total_of_lookup (f := fun (_ : Ref) (work : Work) => g (.wanted work.1 work.2)) hwork
  unfold processTaskResult
  rw [hwork]
  cases value with
  | leaf eval =>
    have hleaf := hc.leaf hvalue
    simp only [Jobs.share, List.map_cons, List.sum_cons]
    omega
  | branch targets =>
    have hbranch := hc.branch hvalue
    simp only [Jobs.share, List.map_append, List.sum_append]
    omega

/-- What a message adds to the results or the queue is what its task was to find. -/
theorem share_drainMessage (hc : Conserved f g h) (hgenuine : Genuine f s.running message) :
    (drainMessage f s message).share g h = s.share g h := by
  cases hgenuine with
  | result hwork hvalue => exact share_processTaskResult hc hwork hvalue
  | ended hwork =>
    simp only [drainMessage, Jobs.share, AList.erase_of_lookup_eq_none hwork]
  | @crashed ref work reason hwork hreason =>
    have htotal := AList.total_of_lookup (f := fun (_ : Ref) (work : Work) => g (.wanted work.1 work.2)) hwork
    have hcrash := hc.crash hreason
    change (handleTaskCrash f ref reason s).share g h = s.share g h
    unfold handleTaskCrash
    rw [hwork]
    simp only [Jobs.share, List.map_cons, List.sum_cons]
    omega

end Taking

section Loads

variable (f)

/-- What is still to happen until an item of the queue is done with. -/
def Target.load (target : Target) : ℕ := target.weight f + 1

/-- What is still to happen until a message is done with. -/
def Message.load : Message → ℕ
  | .task (.result _ (.branch targets)) => 1 + (targets.map (Target.load f)).sum
  | _ => 1

/-- What is still to happen to the queue and the messages. -/
def load (queue : List Target) (messages : List Message) : ℕ :=
  (queue.map (Target.load f)).sum + (messages.map (Message.load f)).sum

variable {f}

theorem load_processTaskResult {value : TaskResult Target} :
    load f (processTaskResult ref value s).queue rest + 1 ≤
      load f s.queue (.task (.result ref value) :: rest) := by
  unfold processTaskResult load
  rw [List.map_cons, List.sum_cons]
  cases s.running.lookup ref with
  | none =>
    cases value with
    | leaf eval =>
      simp only [Message.load]
      omega
    | branch targets =>
      simp only [Message.load]
      omega
  | some work =>
    cases value with
    | leaf eval =>
      simp only [Message.load]
      omega
    | branch targets =>
      simp only [Message.load, List.map_append, List.sum_append]
      omega

theorem queue_drainMessage_down {reason : Option Reason} :
    (drainMessage f s (.down ref reason)).queue = s.queue := by
  cases reason with
  | none => rfl
  | some reason =>
    change (handleTaskCrash f ref reason s).queue = s.queue
    unfold handleTaskCrash
    cases s.running.lookup ref <;> rfl

/-- A message that is taken leaves less to do. -/
theorem load_drainMessage (s : Jobs) (message : TaskMessage) (rest : List Message) :
    load f (drainMessage f s message).queue rest + 1 ≤ load f s.queue (.task message :: rest) := by
  cases message with
  | result ref value => exact load_processTaskResult
  | down ref reason =>
    rw [queue_drainMessage_down]
    simp only [load, List.map_cons, List.sum_cons, Message.load]
    omega

theorem load_perm (queue : List Target) (h : messages.Perm rest) :
    load f queue messages = load f queue rest := by
  unfold load
  rw [(h.map (Message.load f)).sum_eq]

/-- With fewer messages there is less to do. -/
theorem load_sublist (queue : List Target) (h : rest.Sublist messages) :
    load f queue rest ≤ load f queue messages :=
  Nat.add_le_add_left ((h.map (Message.load f)).sum_le_sum fun _ _ => Nat.zero_le _) _

end Loads

section Views

variable {tasks : AList fun _ : Ref => Work} {ending : List Ref}
  {running running' : AList fun _ : Ref => Work} {inbox inbox' : Inbox}

/-- The first message about a task is genuine. -/
theorem Stage.genuine {v : View} (hstage : Stage f ref v) (href : message.ref = ref)
    {more : List TaskMessage} (hmessages : v.messages = message :: more)
    (hrunning : v.running = running.lookup ref) : Genuine f running message := by
  cases hstage with
  | evaluating work => cases hmessages
  | returned ending hvalue hdowns =>
    cases hmessages
    exact .result hrunning.symm hvalue
  | crashed hreason =>
    cases hmessages
    exact .crashed hrunning.symm hreason
  | done ending hdowns =>
    subst hmessages
    have hdown := hdowns message List.mem_cons_self
    subst hdown
    exact .ended hrunning.symm

/-- Once the first message about a task is taken, only the report of its end can follow. -/
theorem Stage.taken {v : View} (hstage : Stage f ref v) {more : List TaskMessage}
    (hmessages : v.messages = message :: more) :
    v.task = none ∧ ∀ message ∈ more, message = .down ref none := by
  cases hstage with
  | evaluating work => cases hmessages
  | returned ending hvalue hdowns =>
    cases hmessages
    exact ⟨rfl, hdowns⟩
  | crashed hreason =>
    cases hmessages
    exact ⟨rfl, fun message hmessage => by cases hmessage⟩
  | done ending hdowns =>
    subst hmessages
    exact ⟨rfl, fun other hother => hdowns other (List.mem_cons_of_mem _ hother)⟩

/-- What taking messages of tasks does to the process and its inbox. -/
structure Advance (f : Formats) (tasks : AList fun _ : Ref => Work) (ending : List Ref)
    (before after : Jobs × Inbox) : Prop where
  /-- Nothing changes about tasks without messages. -/
  untouched : ∀ ref, messagesOf ref before.2.messages = [] →
    view tasks ending after.1.running after.2.messages ref =
      view tasks ending before.1.running before.2.messages ref
  stage : (∀ ref, Stage f ref (view tasks ending before.1.running before.2.messages ref)) →
    ∀ ref, Stage f ref (view tasks ending after.1.running after.2.messages ref)
  share : (∀ ref, Stage f ref (view tasks ending before.1.running before.2.messages ref)) →
    ∀ {g h}, Conserved f g h → after.1.share g h = before.1.share g h
  settings : before.1.SameSettings after.1
  messages : ∀ message ∈ after.2.messages, message ∈ before.2.messages
  load : load f after.1.queue after.2.messages ≤ load f before.1.queue before.2.messages

theorem Advance.refl (found : Jobs × Inbox) : Advance f tasks ending found found where
  untouched _ _ := rfl
  stage h := h
  share _ _ _ _ := rfl
  settings := ⟨rfl, rfl, rfl⟩
  messages _ h := h
  load := Nat.le_refl _

theorem Advance.trans {first second third : Jobs × Inbox}
    (h : Advance f tasks ending first second) (h' : Advance f tasks ending second third) :
    Advance f tasks ending first third where
  untouched ref hnone := by
    have hsame := h.untouched ref hnone
    have hnone' : messagesOf ref second.2.messages = [] := by
      rw [← hnone]
      exact congrArg View.messages hsame
    exact (h'.untouched ref hnone').trans hsame
  stage hstage := h'.stage (h.stage hstage)
  share hstage _ _ hc := (h'.share (h.stage hstage) hc).trans (h.share hstage hc)
  settings := by
    obtain ⟨hrequest, hmax, hcaller⟩ := h.settings
    obtain ⟨hrequest', hmax', hcaller'⟩ := h'.settings
    exact ⟨hrequest'.trans hrequest, hmax'.trans hmax, hcaller'.trans hcaller⟩
  messages message hmessage := h.messages message (h'.messages message hmessage)
  load := Nat.le_trans h'.load h.load

/-- A message is taken. Of the other messages only those about its task may go. -/
theorem advance_taken (h : receiveTask inbox.messages = some (message, rest))
    (hsub : inbox'.messages.Sublist rest)
    (hkept : ∀ ref, message.ref ≠ ref → messagesOf ref inbox'.messages = messagesOf ref rest) :
    Advance f tasks ending (s, inbox) (drainMessage f s message, inbox') := by
  have hmessages := messagesOf_of_receiveTask h
  have hself := hmessages message.ref
  rw [if_pos rfl] at hself
  have hother (ref : Ref) (hne : message.ref ≠ ref) :
      view tasks ending (drainMessage f s message).running inbox'.messages ref =
        view tasks ending s.running inbox.messages ref := by
    have hrest := hmessages ref
    rw [if_neg hne] at hrest
    unfold view
    rw [running_drainMessage, AList.lookup_erase_ne hne.symm, hkept ref hne, hrest]
  refine ⟨?_, ?_, ?_, sameSettings_drainMessage, ?_, ?_⟩
  · intro ref hnone
    apply hother ref
    intro hsame
    rw [← hsame, hself] at hnone
    cases hnone
  · intro hstage ref
    by_cases hsame : message.ref = ref
    · subst hsame
      obtain ⟨htask, hdowns⟩ := (hstage message.ref).taken hself
      have htask' : tasks.lookup message.ref = none := htask
      unfold view
      rw [running_drainMessage, AList.lookup_erase, htask']
      refine .done _ fun other hmem => hdowns other ?_
      obtain ⟨hmem', href⟩ := mem_messagesOf.mp hmem
      exact mem_messagesOf.mpr ⟨hsub.subset hmem', href⟩
    · have hstage' := hstage ref
      rw [← hother ref hsame] at hstage'
      exact hstage'
  · intro hstage g h hc
    exact share_drainMessage hc ((hstage message.ref).genuine rfl hself rfl)
  · intro other hmem
    exact (perm_of_receiveTask h).mem_iff.mpr (List.mem_cons_of_mem _ (hsub.subset hmem))
  · have hload := load_drainMessage (f := f) s message rest
    have hfewer := load_sublist (f := f) (drainMessage f s message).queue hsub
    have hperm := load_perm (f := f) s.queue (perm_of_receiveTask h)
    dsimp only
    omega

/-- One message that is drained. -/
theorem advance_drainMessage (h : receiveTask inbox.messages = some (message, rest)) :
    Advance f tasks ending (s, inbox)
      (drainMessage f s message, Inbox.settle message { inbox with messages := rest }) := by
  cases message with
  | result ref value =>
    exact advance_taken h List.filter_sublist fun other hne =>
      messagesOf_demonitor_ne { inbox with messages := rest } hne.symm
  | down ref reason => exact advance_taken h (List.Sublist.refl _) fun _ _ => rfl

/-- Draining takes one message after the other. -/
theorem advance_drainMailbox (tasks : AList fun _ : Ref => Work) (ending : List Ref) (n : ℕ) :
    ∀ s inbox,
    Advance f tasks ending (s, inbox) (drainMailbox f n (s, inbox)) := by
  induction n with
  | zero => exact fun s inbox => .refl _
  | succ n ih =>
    intro s inbox
    unfold drainMailbox
    cases hreceive : receiveTask inbox.messages with
    | none => exact .refl _
    | some found =>
      obtain ⟨message, rest⟩ := found
      exact (advance_drainMessage hreceive).trans (ih _ _)

/-- The callback for a result takes it and drains the inbox. -/
theorem advance_afterResult (tasks : AList fun _ : Ref => Work) (ending : List Ref) (s : Jobs)
    (ref : Ref) (value : TaskResult Target) (rest : List Message) (demonitored : List Ref) :
    Advance f tasks ending (s, ⟨.task (.result ref value) :: rest, demonitored⟩)
      (afterResult f ref value s ⟨rest, demonitored⟩) := by
  have hfirst : Advance f tasks ending (s, ⟨.task (.result ref value) :: rest, demonitored⟩)
      (drainMessage f s (.result ref value), ⟨rest, demonitored⟩) := by
    have hreceive : receiveTask (.task (.result ref value) :: rest) =
        some (.result ref value, rest) := rfl
    exact advance_taken hreceive (List.Sublist.refl _) fun _ _ => rfl
  exact hfirst.trans (advance_drainMailbox tasks ending 50 _ _)

theorem load_afterResult (s : Jobs) (ref : Ref) (value : TaskResult Target) (rest : List Message)
    (demonitored : List Ref) :
    load f (afterResult f ref value s ⟨rest, demonitored⟩).1.queue
        (afterResult f ref value s ⟨rest, demonitored⟩).2.messages + 1 ≤
      load f s.queue (.task (.result ref value) :: rest) := by
  have hdrain := advance_drainMailbox (f := f) ∅ [] 50
    (processTaskResult ref value s) ⟨rest, demonitored⟩
  exact Nat.le_trans (Nat.add_le_add_right hdrain.load 1) load_processTaskResult

end Views

end Sower.Nix
