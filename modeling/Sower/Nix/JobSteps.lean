import Sower.Nix.JobInvariant

/-!
# What events lead to

An event leaves the process right about its tasks, or the process replies, or it goes
wrong for good, and it goes wrong only by taking what it handles wrongly. Once it has
gone wrong it does not reply any more, and once it has replied it takes nothing more.
-/

namespace Sower.Nix

variable {f : Formats} {request : Request} {tree : Tree} {w w' : World} {s s' : Jobs}
  {ref ref' : Ref} {messages rest : List Message} {event : Event}

section Live

/-- What an event leads to while the process is right about its tasks. -/
inductive Next (f : Formats) (request : Request) (tree : Tree) (w : World) (event : Event)
    (w' : World) : Prop
  | live {s : Jobs} (hlive : Live f request tree w' s) (hspared : Spared f w event)
  | finished (hover : Over f request tree w') (hspared : Spared f w event)
  | doomed (hdoomed : Doomed w') (htaken : tree.Printed f request → ¬ Spared f w event)

/-- Another message waits. -/
theorem Live.deliver_other (h : Live f request tree w s) {other : Message}
    (hother : other.isOther = true) (hlimits : ∀ newMax, other = .setMaxWorkers newMax → 1 ≤ newMax)
    (hcallers : ∀ caller, other = .run caller → w.caller = some caller) :
    Live f request tree (w.deliver other) s := by
  have hready := h.ready
  refine ⟨h.jobs, h.replies, ⟨?_, ?_, hready.limit, ?_, hready.caller, ?_, hready.own,
    hready.share⟩, h.busy⟩
  · intro ref
    have hstage := hready.stage ref
    rw [← view_append_other hother] at hstage
    exact hstage
  · intro ref hfresh
    exact (view_append_other hother).trans (hready.unused ref hfresh)
  · intro newMax hmem
    rcases List.mem_append.mp hmem with hmem | hmem
    · exact hready.limits newMax hmem
    · exact hlimits newMax (List.mem_singleton.mp hmem).symm
  · intro caller hmem
    rcases List.mem_append.mp hmem with hmem | hmem
    · exact hready.callers caller hmem
    · exact hcallers caller (List.mem_singleton.mp hmem).symm

/-- A message about a task waits, with what else its task has done. -/
theorem Live.deliver_task (h : Live f request tree w s) (tasks : AList fun _ : Ref => Work)
    (ending : List Ref) (signals : List Reason) {more : List Message}
    (hmore : ∀ message ∈ more, message.isOther = false)
    (hself : Stage f ref (view tasks ending s.running (w.inbox.messages ++ more) ref))
    (hused : view w.tasks w.ending s.running w.inbox.messages ref ≠ .unused)
    (hkept : ∀ ref', ref' ≠ ref →
      view tasks ending s.running (w.inbox.messages ++ more) ref' =
        view w.tasks w.ending s.running w.inbox.messages ref') :
    Live f request tree
      { w with tasks, ending, signals, inbox := { w.inbox with messages := w.inbox.messages ++ more } }
      s := by
  have hready := h.ready
  have hold (message : Message) (hother : message.isOther = true)
      (hmem : message ∈ w.inbox.messages ++ more) : message ∈ w.inbox.messages := by
    rcases List.mem_append.mp hmem with hmem | hmem
    · exact hmem
    · rw [hmore message hmem] at hother
      cases hother
  refine ⟨h.jobs, h.replies, ⟨?_, ?_, hready.limit, ?_, hready.caller, ?_, hready.own,
    hready.share⟩, h.busy⟩
  · intro ref'
    by_cases hsame : ref' = ref
    · subst hsame
      exact hself
    · have hstage := hready.stage ref'
      rw [← hkept ref' hsame] at hstage
      exact hstage
  · intro ref' hfresh
    have hne : ref' ≠ ref := fun hsame => hused (hsame ▸ hready.unused ref' hfresh)
    exact (hkept ref' hne).trans (hready.unused ref' hfresh)
  · exact fun newMax hmem => hready.limits newMax (hold _ rfl hmem)
  · exact fun caller hmem => hready.callers caller (hold _ rfl hmem)

theorem Live.returns (h : Live f request tree w s) {work : Work} {value : TaskResult Target}
    (htask : w.tasks.lookup ref = some work)
    (hvalue : evaluateRequest f work.1 work.2 = .ok value) :
    Live f request tree
      ({ w with tasks := w.tasks.erase ref, ending := ref :: w.ending }.deliver
        (.task (.result ref value))) s := by
  have hstage := h.ready.stage ref
  have hused : view w.tasks w.ending s.running w.inbox.messages ref ≠ .unused := by
    intro hsame
    have hnone : w.tasks.lookup ref = none := congrArg View.task hsame
    rw [htask] at hnone
    cases hnone
  refine h.deliver_task _ _ w.signals ?_ ?_ hused fun ref' hne => view_returns_of_ne hne
  · intro message hmem
    rw [List.mem_singleton.mp hmem]
    rfl
  · unfold view at hstage ⊢
    rw [htask] at hstage
    have hnew : messagesOf ref [.task (.result ref value)] = [.result ref value] := messagesOf_task_self
    rw [AList.lookup_erase, messagesOf_append, hnew]
    generalize s.running.lookup ref = running at hstage ⊢
    generalize messagesOf ref w.inbox.messages = waiting at hstage ⊢
    generalize hended : decide (ref ∈ w.ending) = ended at hstage
    cases hstage
    exact .returned _ hvalue fun message hmem => by cases hmem

theorem Live.crashes (h : Live f request tree w s) {work : Work} {reason : Reason}
    (htask : w.tasks.lookup ref = some work)
    (hreason : evaluateRequest f work.1 work.2 = .error reason) :
    Live f request tree
      ({ w with tasks := w.tasks.erase ref, signals := w.signals ++ [reason] }.deliver
        (.task (.down ref (some reason)))) s := by
  have hstage := h.ready.stage ref
  have hused : view w.tasks w.ending s.running w.inbox.messages ref ≠ .unused := by
    intro hsame
    have hnone : w.tasks.lookup ref = none := congrArg View.task hsame
    rw [htask] at hnone
    cases hnone
  refine h.deliver_task _ w.ending _ ?_ ?_ hused fun ref' hne => view_crashes_of_ne hne
  · intro message hmem
    rw [List.mem_singleton.mp hmem]
    rfl
  · unfold view at hstage ⊢
    rw [htask] at hstage
    have hnew : messagesOf ref [.task (.down ref (some reason))] = [.down ref (some reason)] := messagesOf_task_self
    rw [AList.lookup_erase, messagesOf_append, hnew]
    generalize s.running.lookup ref = running at hstage ⊢
    generalize messagesOf ref w.inbox.messages = waiting at hstage ⊢
    generalize hended : decide (ref ∈ w.ending) = ended at hstage
    cases hstage
    exact .crashed hreason

/-- A task that has returned ends, and its monitor may report it. -/
theorem Live.ends (h : Live f request tree w s) (hending : ref ∈ w.ending) {more : List Message}
    (hmore : more = [] ∨ more = [.task (.down ref none)]) :
    Live f request tree
      { w with
        ending := w.ending.erase ref
        inbox := { w.inbox with messages := w.inbox.messages ++ more } } s := by
  have hstage := h.ready.stage ref
  have hended : decide (ref ∈ w.ending) = true := decide_eq_true hending
  have hused : view w.tasks w.ending s.running w.inbox.messages ref ≠ .unused := by
    intro hsame
    have hfalse : decide (ref ∈ w.ending) = false := congrArg View.ending hsame
    rw [hended] at hfalse
    cases hfalse
  have hdowns : ∀ message ∈ messagesOf ref more, message = .down ref none := by
    rcases hmore with rfl | rfl
    · exact fun message hmem => by cases hmem
    · intro message hmem
      have hnew : messagesOf ref [.task (.down ref none)] = [.down ref none] := messagesOf_task_self
      rw [hnew] at hmem
      exact List.mem_singleton.mp hmem
  have hboth {downs : List TaskMessage} (hold : ∀ message ∈ downs, message = .down ref none) :
      ∀ message ∈ downs ++ messagesOf ref more, message = .down ref none := by
    intro message hmem
    rcases List.mem_append.mp hmem with hmem | hmem
    · exact hold message hmem
    · exact hdowns message hmem
  refine h.deliver_task w.tasks _ w.signals ?_ ?_ hused ?_
  · rcases hmore with rfl | rfl
    · exact fun message hmem => by cases hmem
    · intro message hmem
      rw [List.mem_singleton.mp hmem]
      rfl
  · unfold view at hstage ⊢
    rw [hended] at hstage
    rw [messagesOf_append]
    generalize s.running.lookup ref = running at hstage ⊢
    generalize messagesOf ref w.inbox.messages = waiting at hstage ⊢
    generalize w.tasks.lookup ref = task at hstage ⊢
    cases hstage with
    | returned _ hvalue hold => exact .returned _ hvalue (hboth hold)
    | done _ hold => exact .done _ (hboth hold)
  · intro ref' hne
    rw [view_ends_of_ne hne]
    rcases hmore with rfl | rfl
    · rw [List.append_nil]
    · exact view_down_of_ne hne

theorem spared_result {value : TaskResult Target} (hjobs : w.jobs = some s)
    (hmessages : w.inbox.messages = .task (.result ref value) :: rest) :
    Spared f w .handles ↔ (s.caller = none →
      (afterResult f ref value s { w.inbox with messages := rest }).1.idle = false) := by
  simp only [Spared, hjobs, hmessages]

theorem spared_crash {reason : Reason} (hjobs : w.jobs = some s)
    (hmessages : w.inbox.messages = .task (.down ref (some reason)) :: rest) :
    Spared f w .handles ↔ s.running.lookup ref = none := by
  simp only [Spared, hjobs, hmessages]

theorem spared_down (hjobs : w.jobs = some s)
    (hmessages : w.inbox.messages = .task (.down ref none) :: rest) : Spared f w .handles := by
  simp only [Spared, hjobs, hmessages]

theorem spared_other {other : Message} (hother : other.isOther = true) (hjobs : w.jobs = some s)
    (hmessages : w.inbox.messages = other :: rest) : Spared f w .handles := by
  cases other with
  | task message => cases hother
  | _ => simp only [Spared, hjobs, hmessages]

/-- A result is taken. -/
theorem Live.handles_result (h : Live f request tree w s) {value : TaskResult Target}
    (hmessages : w.inbox.messages = .task (.result ref value) :: rest) :
    Next f request tree w .handles (w.after
      (handle f w.fresh s { w.inbox with messages := rest } (.task (.result ref value)))) := by
  have hspared := spared_result (f := f) h.jobs hmessages
  have hadvance := advance_afterResult (f := f) w.tasks w.ending s ref value rest
    w.inbox.demonitored
  have hinbox : w.inbox = ⟨.task (.result ref value) :: rest, w.inbox.demonitored⟩ := by
    rw [← hmessages]
  have hready := h.ready
  rw [hmessages] at hready
  rw [← hinbox] at hadvance
  have hsettings := hadvance.settings
  revert hspared hadvance hsettings
  unfold handle
  dsimp only
  generalize afterResult f ref value s { w.inbox with messages := rest } = found
  intro hspared hadvance hsettings
  obtain ⟨s', inbox'⟩ := found
  have hready' : Ready f request tree w s' inbox'.messages := h.ready.advance hadvance
  dsimp only at hspared ⊢
  cases hidle : s'.idle with
  | true =>
    rw [hidle] at hspared
    rw [if_pos rfl]
    rcases hready'.finish hidle h.replies with ⟨hraised, hnone⟩ | ⟨hover, hsome⟩
    · rw [hraised]
      refine .doomed (doomed_of_ended h.replies rfl) fun _ htaken => ?_
      have hcaller : s.caller = none := hsettings.2.2.symm.trans hnone
      cases hspared.mp htaken hcaller
    · refine .finished hover (hspared.mpr fun hnone => absurd ?_ hsome)
      exact hsettings.2.2.trans hnone
  | false =>
    rw [if_neg Bool.false_ne_true]
    have htaken : Spared f w .handles := hspared.mpr fun _ => hidle
    rcases hready'.carryOn inbox' hidle h.replies with ⟨s'', hlive⟩ | ⟨hdoomed, chunk, hmem⟩
    · exact .live hlive htaken
    · exact .doomed hdoomed fun hprinted => absurd hmem (hready'.notMem_queue hprinted chunk)

/-- The report of an end is ignored, which is right for a task that has returned. -/
theorem Live.handles_down (h : Live f request tree w s) {reason : Option Reason}
    (hmessages : w.inbox.messages = .task (.down ref reason) :: rest) :
    Next f request tree w .handles (w.after
      (handle f w.fresh s { w.inbox with messages := rest } (.task (.down ref reason)))) := by
  have hready := h.ready
  have hstage := hready.stage ref
  have href : (TaskMessage.down ref reason).ref = ref := rfl
  have hself : messagesOf ref w.inbox.messages = .down ref reason :: messagesOf ref rest := by
    rw [hmessages, messagesOf_cons_task, if_pos href]
  have hothers (ref' : Ref) (hne : ref' ≠ ref) :
      view w.tasks w.ending s.running rest ref' =
        view w.tasks w.ending s.running w.inbox.messages ref' := by
    have hother : (TaskMessage.down ref reason).ref ≠ ref' := hne.symm
    unfold view
    rw [hmessages, messagesOf_cons_task, if_neg hother]
  have hmem {message : Message} (hrest : message ∈ rest) : message ∈ w.inbox.messages := by
    rw [hmessages]
    exact List.mem_cons_of_mem _ hrest
  change Next f request tree w .handles
    { w with jobs := some s, inbox := { w.inbox with messages := rest } }
  unfold view at hstage
  rw [hself] at hstage
  generalize htask : w.tasks.lookup ref = task at hstage
  generalize hrunning : s.running.lookup ref = running at hstage
  generalize hended : decide (ref ∈ w.ending) = ended at hstage
  generalize hwaiting : messagesOf ref rest = waiting at hstage
  cases hstage with
  | crashed hreason =>
    refine .doomed ⟨h.replies, fun s' hs' => ⟨ref, ?_, ?_⟩⟩ fun _ htaken => ?_
    · by_contra hfresh
      have hunused := congrArg View.running (hready.unused ref (Nat.not_lt.mp hfresh))
      cases hrunning.symm.trans hunused
    · cases hs'
      unfold view
      rw [htask, hrunning, hended, hwaiting]
      exact .lost _
    · cases hrunning.symm.trans ((spared_crash h.jobs hmessages).mp htaken)
  | done _ hdowns =>
    have hdown := hdowns _ List.mem_cons_self
    cases hdown
    refine .live ⟨rfl, h.replies, ⟨?_, ?_, hready.limit, fun newMax hrest =>
      hready.limits newMax (hmem hrest), hready.caller, fun caller hrest =>
      hready.callers caller (hmem hrest), hready.own, hready.share⟩, h.busy⟩
      (spared_down h.jobs hmessages)
    · intro ref'
      by_cases hsame : ref' = ref
      · subst hsame
        change Stage f ref' (view w.tasks w.ending s.running rest ref')
        unfold view
        rw [htask, hrunning, hwaiting]
        exact .done _ fun message hmessage => hdowns message (List.mem_cons_of_mem _ hmessage)
      · have hold := hready.stage ref'
        rw [← hothers ref' hsame] at hold
        exact hold
    · intro ref' hfresh
      have hne : ref' ≠ ref := by
        intro hsame
        have hunused := congrArg View.messages (hready.unused ref' hfresh)
        rw [hsame] at hunused
        cases hself.symm.trans hunused
      exact (hothers ref' hne).trans (hready.unused ref' hfresh)

/-- A message that is not about a task is taken. -/
theorem Ready.tail {other : Message} (h : Ready f request tree w s (other :: rest))
    (hother : other.isOther = true) : Ready f request tree w s rest := by
  refine ⟨?_, ?_, h.limit, fun newMax hmem => h.limits newMax (List.mem_cons_of_mem _ hmem),
    h.caller, fun caller hmem => h.callers caller (List.mem_cons_of_mem _ hmem), h.own, h.share⟩
  · intro ref
    have hstage := h.stage ref
    rw [view_cons_other hother] at hstage
    exact hstage
  · intro ref hfresh
    exact (view_cons_other hother).symm.trans (h.unused ref hfresh)

theorem idle_eq_false (h : s.running.entries ≠ []) : s.idle = false := by
  unfold Jobs.idle
  cases hrunning : s.running.entries with
  | nil => exact absurd hrunning h
  | cons entry entries => simp

theorem Live.handles_other (h : Live f request tree w s) {other : Message}
    (hother : other.isOther = true) (hmessages : w.inbox.messages = other :: rest) :
    Next f request tree w .handles (w.after
      (handle f w.fresh s { w.inbox with messages := rest } other)) := by
  have hspared : Spared f w .handles := spared_other hother h.jobs hmessages
  have hwhole := h.ready
  rw [hmessages] at hwhole
  have hready := hwhole.tail hother
  have hcarry (s' : Jobs) (hready' : Ready f request tree w s' rest)
      (hbusy : s'.running.entries ≠ []) :
      Next f request tree w .handles
        (w.after (s'.carryOn w.fresh { w.inbox with messages := rest })) := by
    have hnext := Ready.carryOn { w.inbox with messages := rest } hready'
      (idle_eq_false hbusy) h.replies
    rcases hnext with ⟨s'', hlive⟩ | ⟨hdoomed, chunk, hmem⟩
    · exact .live hlive hspared
    · exact .doomed hdoomed fun hprinted => absurd hmem (hready'.notMem_queue hprinted chunk)
  cases other with
  | task message => cases hother
  | run caller =>
    refine hcarry { s with caller := some caller } ?_ h.busy
    refine ⟨hready.stage, hready.unused, hready.limit, hready.limits, ?_, hready.callers,
      hready.own, hready.share⟩
    intro other hsome
    cases hsome
    exact hwhole.callers caller List.mem_cons_self
  | setMaxWorkers newMax =>
    refine .live (s := { s with maxWorkers := newMax }) ⟨rfl, h.replies, ?_, h.busy⟩ hspared
    exact ⟨hready.stage, hready.unused, hwhole.limits newMax List.mem_cons_self, hready.limits,
      hready.caller, hready.callers, hready.own, hready.share⟩
  | flush => exact hcarry s hready h.busy
  | tick =>
    refine .live (s := s) ⟨rfl, h.replies, ?_, h.busy⟩ hspared
    exact ⟨hready.stage, hready.unused, hready.limit, hready.limits, hready.caller,
      hready.callers, hready.own, hready.share⟩

/-- What an event leads to while the process is right about its tasks. -/
theorem Live.next (h : Live f request tree w s) (hstep : step f w event = some w') :
    Next f request tree w event w' := by
  cases happens_of_step hstep with
  | returns htask hvalue => exact .live (h.returns htask hvalue) trivial
  | crashes htask hreason => exact .live (h.crashes htask hreason) trivial
  | ends hending =>
    have hlive := h.ends hending (.inl rfl)
    rw [List.append_nil] at hlive
    exact .live hlive trivial
  | endsReported hending => exact .live (h.ends hending (.inr rfl)) trivial
  | signalled hsignals =>
    refine .doomed (doomed_of_ended h.replies rfl) fun _ htaken => ?_
    cases h.jobs.symm.trans htaken
  | @calls caller hcaller =>
    have hready := h.ready
    have hcalled : Live f request tree { w with caller := some caller } s := by
      refine ⟨h.jobs, h.replies, ⟨hready.stage, hready.unused, hready.limit, hready.limits, ?_, ?_,
        hready.own, hready.share⟩, h.busy⟩
      · intro other hsome
        cases hcaller.symm.trans (hready.caller other hsome)
      · intro other hmem
        cases hcaller.symm.trans (hready.callers other hmem)
    refine .live (hcalled.deliver_other rfl (fun _ heq => by cases heq) fun other heq => ?_) trivial
    cases heq
    rfl
  | @asks ask hallowed =>
    refine .live (h.deliver_other ask.isOther_message (fun newMax heq => ?_) fun other heq => ?_)
      trivial
    · cases ask with
      | setMaxWorkers newMax' =>
        cases heq
        exact of_decide_eq_true hallowed
      | flush => cases heq
      | tick => cases heq
    · cases ask <;> cases heq
  | @handles s' message rest hjobs hmessages =>
    cases h.jobs.symm.trans hjobs
    cases hother : message.isOther with
    | true => exact h.handles_other hother hmessages
    | false =>
      match message with
      | .task (.result ref value) => exact h.handles_result hmessages
      | .task (.down ref reason) => exact h.handles_down hmessages

end Live

section Doomed

variable {tasks running : AList fun _ : Ref => Work} {ending : List Ref} {inbox : Inbox}

theorem lost_view : (view tasks ending running messages ref).Lost ↔
    tasks.lookup ref = none ∧ (∃ work, running.lookup ref = some work) ∧ ref ∉ ending ∧
      messagesOf ref messages = [] := by
  constructor
  · intro hlost
    generalize hview : view tasks ending running messages ref = v at hlost
    cases hlost with
    | lost work =>
      have hending : decide (ref ∈ ending) = false := congrArg View.ending hview
      exact ⟨congrArg View.task hview, ⟨work, congrArg View.running hview⟩,
        of_decide_eq_false hending, congrArg View.messages hview⟩
  · rintro ⟨htask, ⟨work, hrunning⟩, hending, hmessages⟩
    unfold view
    rw [htask, hrunning, decide_eq_false hending, hmessages]
    exact .lost work

/-- A lost task stays lost as long as nobody speaks of it. -/
theorem Doomed.keep (h : Doomed w) {signals : List Reason} {caller : Option Caller}
    {fresh : Ref} (hfresh : w.fresh ≤ fresh)
    (hkept : ∀ ref running, (view w.tasks w.ending running w.inbox.messages ref).Lost →
      view tasks ending running inbox.messages ref =
        view w.tasks w.ending running w.inbox.messages ref) :
    Doomed { w with tasks, ending, inbox, signals, caller, fresh } where
  replies := h.replies
  lost s hs := by
    obtain ⟨ref, hlt, hlost⟩ := h.lost s hs
    refine ⟨ref, Nat.lt_of_lt_of_le hlt hfresh, ?_⟩
    have hsame := hkept ref s.running hlost
    rw [← hsame] at hlost
    exact hlost

theorem Doomed.carryOn (hreplies : w.replies = []) (hlt : ref < w.fresh)
    (hlost : (view w.tasks w.ending s.running inbox.messages ref).Lost) :
    Doomed (w.after (s.carryOn w.fresh inbox)) := by
  unfold Jobs.carryOn
  cases hspawn : spawnWorkers w.fresh s with
  | none => exact doomed_of_ended hreplies rfl
  | some found =>
    obtain ⟨s', started⟩ := found
    have hspawned := spawned_of_spawnWorkers hspawn
    have hnotMem : ref ∉ started.map Prod.fst := by
      intro hmem
      exact Nat.not_lt.mpr (hspawned.fresh_le hmem).1 hlt
    refine ⟨hreplies, fun s'' hs'' => ⟨ref, Nat.lt_of_lt_of_le hlt (Nat.le_add_right _ _), ?_⟩⟩
    cases hs''
    rw [← view_spawned_of_notMem hspawned hnotMem] at hlost
    exact hlost

/-- As long as it waits for a lost task the process does not reply. -/
theorem Doomed.handles (h : Doomed w) {message : Message} (hjobs : w.jobs = some s)
    (hmessages : w.inbox.messages = message :: rest) :
    Doomed (w.after (handle f w.fresh s { w.inbox with messages := rest } message)) := by
  obtain ⟨ref, hlt, hlost⟩ := h.lost s hjobs
  obtain ⟨htask, ⟨work, hrunning⟩, hending, hnone⟩ := lost_view.mp hlost
  have hrest : messagesOf ref rest = [] := by
    have hcons : messagesOf ref w.inbox.messages =
        messagesOf ref [message] ++ messagesOf ref rest := by
      rw [hmessages]
      exact messagesOf_append ref [message] rest
    rw [hnone] at hcons
    exact (List.append_eq_nil_iff.mp hcons.symm).2
  have hlost' : (view w.tasks w.ending s.running rest ref).Lost :=
    lost_view.mpr ⟨htask, ⟨work, hrunning⟩, hending, hrest⟩
  have hstay {s' : Jobs} (hsame : s'.running = s.running) :
      Doomed (w.after (.noreply s' { w.inbox with messages := rest } [])) := by
    refine ⟨h.replies, fun s'' hs'' => ⟨ref, hlt, ?_⟩⟩
    cases hs''
    rw [hsame]
    exact hlost'
  cases message with
  | task message =>
    cases message with
    | down ref' reason => exact hstay rfl
    | result ref' value =>
      have hadvance := advance_afterResult (f := f) w.tasks w.ending s ref' value rest
        w.inbox.demonitored
      have hnone' : messagesOf ref (.task (.result ref' value) :: rest) = [] := by
        rw [← hmessages]
        exact hnone
      have hsame := hadvance.untouched ref hnone'
      dsimp only at hsame
      rw [← hmessages] at hsame
      unfold handle
      dsimp only
      generalize afterResult f ref' value s { w.inbox with messages := rest } = found at hsame ⊢
      obtain ⟨s', inbox'⟩ := found
      rw [← hsame] at hlost
      have hbusy : s'.running.entries ≠ [] := by
        obtain ⟨_, ⟨work', hrunning'⟩, _⟩ := lost_view.mp hlost
        intro hempty
        unfold AList.lookup at hrunning'
        rw [hempty] at hrunning'
        cases hrunning'
      dsimp only
      rw [idle_eq_false hbusy, if_neg Bool.false_ne_true]
      exact Doomed.carryOn h.replies hlt hlost
  | run caller => exact Doomed.carryOn (s := { s with caller := some caller }) h.replies hlt hlost'
  | setMaxWorkers newMax => exact hstay rfl
  | flush => exact Doomed.carryOn h.replies hlt hlost'
  | tick => exact hstay rfl

/-- Once it has gone wrong the process does not reply. -/
theorem Doomed.next (h : Doomed w) (hstep : step f w event = some w') : Doomed w' := by
  cases happens_of_step hstep with
  | returns htask hvalue =>
    refine h.keep (Nat.le_refl _) fun ref running hlost => view_returns_of_ne fun hsame => ?_
    rw [← hsame] at htask
    cases (lost_view.mp hlost).1.symm.trans htask
  | crashes htask hreason =>
    refine h.keep (Nat.le_refl _) fun ref running hlost => view_crashes_of_ne fun hsame => ?_
    rw [← hsame] at htask
    cases (lost_view.mp hlost).1.symm.trans htask
  | ends hending =>
    refine h.keep (Nat.le_refl _) fun ref running hlost => view_ends_of_ne fun hsame => ?_
    rw [← hsame] at hending
    exact (lost_view.mp hlost).2.2.1 hending
  | endsReported hending =>
    refine h.keep (Nat.le_refl _) fun ref running hlost => ?_
    have hne : ref ≠ _ := fun hsame => (lost_view.mp hlost).2.2.1 (hsame ▸ hending)
    rw [view_ends_of_ne hne]
    exact view_down_of_ne hne
  | signalled hsignals => exact doomed_of_ended h.replies rfl
  | calls hcaller => exact h.keep (Nat.le_refl _) fun ref running _ => view_append_other rfl
  | @asks ask hallowed =>
    exact h.keep (Nat.le_refl _) fun ref running _ => view_append_other ask.isOther_message
  | handles hjobs hmessages => exact h.handles hjobs hmessages

/-- After the reply nothing more is taken. -/
theorem Over.next (h : Over f request tree w) (hstep : step f w event = some w') :
    Over f request tree w' ∧ Spared f w event := by
  have hjobs := h.jobs
  obtain ⟨reply, hreplies, hcaller, hrest⟩ := h.completed
  have hcompleted := h.completed
  cases happens_of_step hstep with
  | returns htask hvalue => exact ⟨⟨hjobs, hcompleted, h.printed⟩, trivial⟩
  | crashes htask hreason => exact ⟨⟨hjobs, hcompleted, h.printed⟩, trivial⟩
  | ends hending => exact ⟨⟨hjobs, hcompleted, h.printed⟩, trivial⟩
  | endsReported hending => exact ⟨⟨hjobs, hcompleted, h.printed⟩, trivial⟩
  | signalled hsignals => exact ⟨⟨rfl, hcompleted, h.printed⟩, hjobs⟩
  | calls hnone => cases hcaller.symm.trans hnone
  | asks hallowed => exact ⟨⟨hjobs, hcompleted, h.printed⟩, trivial⟩
  | handles hsome hmessages => cases hjobs.symm.trans hsome

end Doomed

end Sower.Nix
