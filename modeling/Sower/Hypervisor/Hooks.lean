import Sower.Hypervisor.Sanity

/-!
# The hook before a stop

The hook is run once at most, and it has been run whenever the monitor is asked to shut
down or its tree is killed.
-/

namespace Sower.Hypervisor

open Traced

section Hooks

/-- The monitor or its tree is asked to end. -/
def Entry.tearsDown : Entry → Bool
  | .request _ kind => kind == .shutdown
  | .kill _ => true
  | .killTree _ => true
  | .stopRunner _ => true
  | _ => false

def Entry.isHook : Entry → Bool
  | .beforeStop => true
  | _ => false

/-- The hook is run once, and before the monitor is asked to end. -/
def HookNeeds (hook : Option Hook) (before : List Entry) (e : Entry) : Prop :=
  (e.isHook = true → .beforeStop ∉ before) ∧
    (e.tearsDown = true → hook.isSome = true → .beforeStop ∈ before)

/-- How far it is with the hook: the one still to be run, if any. -/
structure HookRuns (hook left : Option Hook) (history : List Entry) : Prop where
  ordered : Ordered (HookNeeds hook) history
  pending : ∀ h, left = some h → hook = some h ∧ .beforeStop ∉ history
  run : left = none → hook.isSome = true → .beforeStop ∈ history

variable {hook left : Option Hook} {history es : List Entry} {state : State}

/-- Entries that have nothing to do with stops. -/
theorem HookRuns.other (h : HookRuns hook left history)
    (hes : ∀ e ∈ es, e.isHook = false ∧ e.tearsDown = false) :
    HookRuns hook left (history ++ es) where
  ordered := by
    refine h.ordered.append_free fun e he before => ?_
    obtain ⟨hhook, htears⟩ := hes e he
    constructor
    · intro htrue
      rw [hhook] at htrue
      cases htrue
    · intro htrue
      rw [htears] at htrue
      cases htrue
  pending h' hpending := by
    obtain ⟨hsome, hnot⟩ := h.pending h' hpending
    refine ⟨hsome, fun hmem => ?_⟩
    rcases List.mem_append.mp hmem with hold | hnew
    · exact hnot hold
    · have hfalse := (hes _ hnew).1
      cases hfalse
  run hnone hsome := List.mem_append_left _ (h.run hnone hsome)

/-- Once the hook has been run, anything but it may follow. -/
theorem HookRuns.later (h : HookRuns hook none history) (hes : ∀ e ∈ es, e.isHook = false) :
    HookRuns hook none (history ++ es) where
  ordered := by
    refine h.ordered.append fun before e after heq => ?_
    have he : e.isHook = false := hes e (heq ▸ List.mem_append_right _ List.mem_cons_self)
    constructor
    · intro htrue
      rw [he] at htrue
      cases htrue
    · intro _ hsome
      exact List.mem_append_left _ (h.run rfl hsome)
  pending h' hpending := by cases hpending
  run hnone hsome := List.mem_append_left _ (h.run hnone hsome)

/-- The hook is run when it still has to be. -/
theorem HookRuns.runHook (h : HookRuns hook state.beforeStop history) :
    HookRuns hook none (history ++ state.hooks) := by
  unfold State.hooks
  cases hpending : state.beforeStop with
  | none =>
    rw [hpending] at h
    exact h.later fun e he => by cases he
  | some result =>
    obtain ⟨hsome, hnot⟩ := h.pending result hpending
    constructor
    · refine h.ordered.concat ⟨fun _ => hnot, fun htears => by cases htears⟩
    · intro h' hnone
      cases hnone
    · intro _ _
      exact List.mem_append_right _ (List.mem_singleton_self _)

theorem cancels_other {e : Entry} (h : e ∈ state.cancels) :
    e.isHook = false ∧ e.tearsDown = false := by
  unfold State.cancels at h
  cases hrequest : state.request with
  | none =>
    rw [hrequest] at h
    cases h
  | some request =>
    rw [hrequest] at h
    rw [List.mem_singleton.mp h]
    exact ⟨rfl, rfl⟩

/-- Cancelling a request is no stop. -/
theorem HookRuns.cancels (h : HookRuns hook left history) (state : State) :
    HookRuns hook left (history ++ state.cancels) := h.other fun _ he => cancels_other he

/-- A forced stop runs the hook first. -/
theorem HookRuns.forces (h : HookRuns hook state.beforeStop history) (runner : Option ℕ) :
    HookRuns hook none (history ++ (state.cancels ++ (state.hooks ++ [.killTree runner]))) := by
  rw [← List.append_assoc, ← List.append_assoc]
  exact (h.cancels state).runHook.later fun e he => by rw [List.mem_singleton.mp he]; rfl

theorem asksToStop_notHook {e : Entry} (h : e ∈ state.asksToStop) : e.isHook = false := by
  unfold State.asksToStop State.requests at h
  split at h
  · split at h
    · rw [List.mem_singleton.mp h]
      rfl
    · cases h
  · rw [List.mem_singleton.mp h]
    rfl

/-- However a stop begins, the hook is run first. -/
theorem HookRuns.begins (h : HookRuns hook state.beforeStop history) (mode : StopMode)
    (cause : Cause) :
    HookRuns hook (state.begun mode cause).beforeStop (history ++ state.begins mode cause) := by
  have hentered : HookRuns hook none (history ++ (state.cancels ++ state.hooks)) := by
    rw [← List.append_assoc]
    exact (h.cancels state).runHook
  unfold State.begun State.begins
  split
  · exact h.other fun e he => by cases he
  · exact h.other fun e he => by cases he
  · exact h.other fun e he => by cases he
  · exact h.forces state.runner
  · rw [← List.append_assoc]
    exact hentered.later fun e he => by rw [List.mem_singleton.mp he]; rfl
  · rw [← List.append_assoc]
    have hpending : (state.entered cause).graceful.beforeStop = none := by
      unfold State.graceful
      split <;> rfl
    rw [hpending]
    exact hentered.later fun e he => asksToStop_notHook he

theorem notHook_of_isEnd {e : Entry} (h : e.isEnd = true) : e.isHook = false := by
  cases e with
  | notify event => rfl
  | _ => cases h

/-- The exit of the runner is dealt with after the hook. -/
theorem HookRuns.completes (h : HookRuns hook state.beforeStop history) (reason : ExitReason) :
    HookRuns hook none (history ++ state.completes reason) := by
  unfold State.completes
  dsimp only
  rw [← List.append_assoc, ← List.append_assoc]
  refine (h.cancels state).runHook.later fun e he => ?_
  simp only [List.mem_append] at he
  rcases he with hnotify | hfinish | hstop
  · exact notHook_of_isEnd (isEnd_of_notifiesExit hnotify)
  · obtain ⟨caller, _, rfl⟩ := mem_finishes hfinish
    rfl
  · obtain ⟨caller, _, rfl⟩ := List.mem_map.mp hstop
    rfl

/-- A failed cleanup is dealt with after the hook. -/
theorem HookRuns.reportsUnclean (h : HookRuns hook state.beforeStop history) (message : String) :
    HookRuns hook (state.unclean message).beforeStop
      (history ++ state.reportsUnclean message) := by
  unfold State.unclean State.reportsUnclean
  split
  · exact h.other fun e he => by cases he
  · rw [← List.append_assoc]
    refine h.runHook.later fun e he => ?_
    simp only [List.mem_append, List.mem_cons] at he
    rcases he with hcancel | rfl | hfinish | hstop
    · exact (cancels_other hcancel).1
    · rfl
    · obtain ⟨caller, _, rfl⟩ := mem_finishes hfinish
      rfl
    · obtain ⟨caller, _, rfl⟩ := List.mem_map.mp hstop
      rfl

/-- A request of the startup. -/
theorem requests_other {kind : RequestKind} (hkind : kind ≠ .shutdown) {e : Entry}
    (h : e ∈ state.requests kind) : e.isHook = false ∧ e.tearsDown = false := by
  unfold State.requests at h
  split at h
  · rw [List.mem_singleton.mp h]
    exact ⟨rfl, by simpa [Entry.tearsDown] using hkind⟩
  · cases h

theorem Proceeds.hooks {kind : RequestKind} {result : Except RequestError String}
    {state' : State} (hproceeds : Proceeds state kind result es state')
    (h : HookRuns hook state.beforeStop history) :
    HookRuns hook state'.beforeStop (history ++ es) := by
  cases hproceeds with
  | pinged text =>
    have hstartup : (if state.status.mode = .api then RequestKind.create else .info) ≠ .shutdown := by
      split <;> decide
    refine h.other fun e he => ?_
    rcases List.mem_cons.mp he with rfl | hrequest
    · exact ⟨rfl, rfl⟩
    · exact requests_other hstartup hrequest
  | created text => exact h.other fun e he => requests_other (by decide) he
  | booted text => exact h.other fun e he => requests_other (by decide) he
  | running =>
    refine h.other fun e he => ?_
    rcases List.mem_cons.mp he with rfl | hfinish
    · exact ⟨rfl, rfl⟩
    · obtain ⟨caller, _, rfl⟩ := mem_finishes hfinish
      exact ⟨rfl, rfl⟩
  | waits vmState => exact h.other fun e he => by rw [List.mem_singleton.mp he]; exact ⟨rfl, rfl⟩
  | silent reason => exact h.other fun e he => by rw [List.mem_singleton.mp he]; exact ⟨rfl, rfl⟩
  | fails kind error => exact h.begins _ _

/-- A call keeps the hook in its place. -/
theorem Answers.hooks {caller : ℕ} {call : Call} {state' : State}
    (hanswers : Answers state caller call es state')
    (h : HookRuns hook state.beforeStop history) :
    HookRuns hook state'.beforeStop (history ++ es) := by
  have hreply (answer : Answer) : HookRuns hook state.beforeStop
      (history ++ [.reply caller answer]) :=
    h.other fun e he => by rw [List.mem_singleton.mp he]; exact ⟨rfl, rfl⟩
  cases hanswers with
  | client => exact hreply _
  | status => exact hreply _
  | waits undecided => exact h.other fun e he => by cases he
  | decided decided => exact hreply _
  | unclean mode unclean => exact hreply _
  | ended mode clean ended => exact hreply _
  | timedOut mode clean => exact hreply _
  | stops mode clean running timed =>
    have hwaits : HookRuns hook (state.awaitStop caller).beforeStop history := h
    exact hwaits.begins _ _

/-- A message keeps the hook in its place. -/
theorem Handles.hooks {message : Message} {state' : State}
    (hhandles : Handles state message es state') (hsane : Sane state)
    (h : HookRuns hook state.beforeStop history) :
    HookRuns hook state'.beforeStop (history ++ es) := by
  cases hhandles with
  | ignored harmless => exact h.other fun e he => by cases he
  | heard stream osPid bytes =>
    exact h.other fun e he => by rw [List.mem_singleton.mp he]; exact ⟨rfl, rfl⟩
  | unclean message => exact h.reportsUnclean message
  | exited reason runner => exact h.completes reason
  | proceeds asked answer harmless starting proceeds =>
    have hunrequested : HookRuns hook { state with request := none }.beforeStop history := h
    exact proceeds.hooks hunrequested
  | late kind result harmless late =>
    by_cases hstopping : state.status.phase = .stopping
    · -- The hook was run when the stop began.
      have hrun : state.beforeStop = none := hsane.hooked (Or.inr (Or.inl hstopping))
      rw [hrun] at h
      change HookRuns hook state.beforeStop (history ++ state.stopReplied kind result)
      rw [hrun]
      refine h.later fun e he => ?_
      unfold State.stopReplied at he
      split at he
      · rw [if_pos hstopping] at he
        rw [List.mem_singleton.mp he]
        rfl
      · cases he
    · refine h.other fun e he => ?_
      unfold State.stopReplied at he
      split at he
      · rw [if_neg hstopping] at he
        cases he
      · cases he
  | orphaned gone => exact h.other fun e he => by cases he
  | ownerDown running =>
    have hdead : HookRuns hook { state with ownerDead := true }.beforeStop history := h
    exact hdead.begins _ _
  | poll starting =>
    have hstartup : (if state.status.apiReady then RequestKind.info else .ping) ≠ .shutdown := by
      split <;> decide
    exact h.other fun e he => requests_other hstartup he
  | expires starting => exact h.begins _ _
  | escalates graceful => exact h.forces _
  | givesUp running force clean =>
    refine h.other fun e he => ?_
    rcases mem_givesUp he with ⟨caller, cause, rfl⟩ | ⟨caller, rfl⟩
    · exact ⟨rfl, rfl⟩
    · exact ⟨rfl, rfl⟩

/-- Waiting for the runner only tells the owner something. -/
theorem awaitRunnerTermination_effects (state : State) (mailbox : List Message) :
    (∃ result, (awaitRunnerTermination state mailbox).ending = .ok result) ∧
      ∀ e ∈ (awaitRunnerTermination state mailbox).effects, ∃ stream bytes,
        e = .notify (.output stream bytes) := by
  induction mailbox generalizing state with
  | nil => exact ⟨⟨_, rfl⟩, fun e he => by cases he⟩
  | cons message rest ih =>
    cases message with
    | output stream osPid bytes =>
      unfold awaitRunnerTermination
      split
      · obtain ⟨⟨result, hresult⟩, heffects⟩ := ih state
        refine ⟨⟨result, hresult⟩, fun e he => ?_⟩
        rcases List.mem_cons.mp he with rfl | hrest
        · exact ⟨stream, bytes, rfl⟩
        · exact heffects e hrest
      · exact ih state
    | cleanupError text =>
      unfold awaitRunnerTermination
      exact ih _
    | exit pid reason =>
      unfold awaitRunnerTermination
      split
      · split
        · exact ⟨⟨_, rfl⟩, fun e he => by cases he⟩
        · exact ⟨⟨_, rfl⟩, fun e he => by cases he⟩
      · exact ih state
    | _ =>
      unfold awaitRunnerTermination
      exact ih state

/-- What a server does that is told to end. -/
theorem terminate_effects (state : State) (mailbox : List Message) :
    ∃ heard : List Entry, (∀ e ∈ heard, ∃ event, e = .notify event ∧ ∀ status, event ≠ .ready status) ∧
      (terminate state mailbox).effects = state.cancels ++
        (match state.runner with
          | none => []
          | some runner => state.hooks ++ .stopRunner runner :: heard) := by
  unfold terminate
  rw [cancelRequest_eq, bind_ended]
  cases hrunner : state.runner with
  | none =>
    refine ⟨[], ?_, rfl⟩
    intro e he
    cases he
  | some runner =>
    obtain ⟨⟨result, hresult⟩, heffects⟩ :=
      awaitRunnerTermination_effects state.hooked mailbox
    have hheard : ∀ e ∈ (awaitRunnerTermination state.hooked mailbox).effects,
        ∃ event, e = .notify event ∧ ∀ status, event ≠ .ready status := by
      intro e he
      obtain ⟨stream, bytes, rfl⟩ := heffects e he
      exact ⟨_, rfl, fun status h => by cases h⟩
    dsimp only
    rw [beforeStop_eq, bind_ended, Run.effects_perform_bind, Run.bind_of_ok hresult]
    cases result with
    | ok u =>
      refine ⟨_, hheard, ?_⟩
      dsimp only
      rw [Run.effects_pure, List.append_nil]
    | error text =>
      dsimp only
      split
      · refine ⟨_, ?_, rfl⟩
        intro e he
        rcases List.mem_append.mp he with hold | hlast
        · exact hheard e hold
        · rw [List.mem_singleton.mp hlast]
          exact ⟨_, rfl, fun status h => by cases h⟩
      · refine ⟨_, hheard, ?_⟩
        rw [Run.effects_pure, List.append_nil]

/-- A server that is told to end runs the hook before it stops its runner. -/
theorem terminate_hooks (h : HookRuns hook state.beforeStop history) (mailbox : List Message) :
    Ordered (HookNeeds hook) (history ++ (terminate state mailbox).effects) := by
  obtain ⟨heard, hheard, heffects⟩ := terminate_effects state mailbox
  rw [heffects]
  split
  · rw [List.append_nil]
    exact (h.cancels state).ordered
  · rename_i runner _
    rw [← List.append_assoc, ← List.append_assoc]
    have hlater : HookRuns hook none
        (history ++ state.cancels ++ state.hooks ++ .stopRunner runner :: heard) := by
      refine (h.cancels state).runHook.later fun e he => ?_
      rcases List.mem_cons.mp he with rfl | hnotify
      · rfl
      · obtain ⟨event, rfl, _⟩ := hheard e hnotify
        rfl
    exact hlater.ordered

end Hooks

end Sower.Hypervisor
