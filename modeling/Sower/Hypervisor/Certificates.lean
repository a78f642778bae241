import Sower.Hypervisor.Hooks

/-!
# When a stop counts as clean

A stop is answered with an outcome only after the runner has certified it, with the hook
run without an error and no failed cleanup reported. Once a failed cleanup is on record
it stays there.
-/

namespace Sower.Hypervisor

open Traced

section Needs

/-- The runner has exited with the outcome. -/
def Exited (runner : Option ℕ) (outcome : Outcome) (history : List Entry) : Prop :=
  ∃ pid reason, runner = some pid ∧ completion reason = .ok outcome ∧
    .received (.exit pid reason) ∈ history

/-- A failed cleanup has been reported. -/
def Unclean (history : List Entry) : Prop := ∃ text, .received (.cleanupError text) ∈ history

/-- What the answer to a stop needs: for success, a certified exit of the runner, no
error and a hook that succeeded; without it, that a failed cleanup is not concealed. -/
def StopNeeds (hook : Option Hook) (runner : Option ℕ) (before : List Entry) : Entry → Prop
  | .reply _ (.stop (.ok outcome)) => Exited runner outcome before ∧ ¬ Unclean before ∧
      (∀ h, hook = some h → h = .ok () ∧ .beforeStop ∈ before)
  | .reply _ (.stop (.error cause)) =>
    Unclean before → ∃ message, cause = some (.cleanupFailed message)
  | _ => True

/-- An answer to a stop. -/
def Entry.isStopAnswer : Entry → Bool
  | .reply _ (.stop _) => true
  | _ => false

/-- Something that the server has received. -/
def Entry.isReceived : Entry → Bool
  | .received _ => true
  | _ => false

variable {hook : Option Hook} {runner : Option ℕ} {history es : List Entry}

theorem stopNeeds_other {e : Entry} (h : e.isStopAnswer = false) (before : List Entry) :
    StopNeeds hook runner before e := by
  cases e with
  | reply caller answer =>
    cases answer with
    | stop result => cases h
    | _ => trivial
  | _ => trivial

theorem Exited.append {outcome : Outcome} (h : Exited runner outcome history)
    (es : List Entry) : Exited runner outcome (history ++ es) := by
  obtain ⟨pid, reason, hrunner, hcompletion, hmem⟩ := h
  exact ⟨pid, reason, hrunner, hcompletion, List.mem_append_left _ hmem⟩

theorem not_isReceived_of_mem_map {answer : Answer} {callers : List ℕ} {e : Entry}
    (h : e ∈ callers.map fun caller => Entry.reply caller answer) : e.isReceived = false := by
  obtain ⟨caller, _, rfl⟩ := List.mem_map.mp h
  rfl

theorem unclean_append (hes : ∀ e ∈ es, e.isReceived = false) :
    Unclean (history ++ es) ↔ Unclean history := by
  constructor
  · intro h
    obtain ⟨text, hmem⟩ := h
    refine ⟨text, ?_⟩
    rcases List.mem_append.mp hmem with hold | hnew
    · exact hold
    · have hfalse := hes _ hnew
      cases hfalse
  · intro h
    obtain ⟨text, hmem⟩ := h
    exact ⟨text, List.mem_append_left _ hmem⟩

/-- An answer keeps what it needs while nothing is received. -/
theorem stopNeeds_append {e : Entry} (h : StopNeeds hook runner history e)
    (hes : ∀ e ∈ es, e.isReceived = false) : StopNeeds hook runner (history ++ es) e := by
  cases e with
  | reply caller answer =>
    cases answer with
    | stop result =>
      cases result with
      | ok outcome =>
        obtain ⟨hexited, hclean, hhook⟩ := h
        refine ⟨hexited.append es, ?_, ?_⟩
        · rw [unclean_append hes]
          exact hclean
        · intro result hresult
          obtain ⟨hdone, hmem⟩ := hhook result hresult
          exact ⟨hdone, List.mem_append_left _ hmem⟩
      | error cause =>
        intro hunclean
        exact h ((unclean_append hes).mp hunclean)
    | _ => trivial
  | _ => trivial

/-- The same answer for all of the callers. -/
theorem ordered_stopAnswers {answer : Answer} (callers : List ℕ)
    (h : Ordered (StopNeeds hook runner) history)
    (hneeds : ∀ caller, StopNeeds hook runner history (.reply caller answer)) :
    Ordered (StopNeeds hook runner)
      (history ++ callers.map fun caller => .reply caller answer) := by
  refine h.append fun before e after heq => ?_
  have hmem : e ∈ callers.map fun caller => Entry.reply caller answer := by
    rw [heq]
    exact List.mem_append_right _ List.mem_cons_self
  obtain ⟨caller, _, rfl⟩ := List.mem_map.mp hmem
  refine stopNeeds_append (hneeds caller) fun e he => ?_
  have hall : e ∈ callers.map fun caller => Entry.reply caller answer := by
    rw [heq]
    exact List.mem_append_left _ he
  exact not_isReceived_of_mem_map hall

end Needs

section Certified

/-- What the state and the history say about the end of the monitor. -/
structure Certified (hook : Option Hook) (owned : Option ℕ) (state : State)
    (history : List Entry) : Prop where
  ordered : Ordered (StopNeeds hook owned) history
  pending : ∀ h, state.beforeStop = some h → hook = some h ∧ state.beforeStopError = none
  run : state.beforeStop = none → state.beforeStopError = hook.bind Hook.failure ∧
    (hook.isSome = true → .beforeStop ∈ history)
  runner : ∀ pid, state.runner = some pid → owned = some pid
  clean : state.cleanupError = none → ¬ Unclean history
  outcome : ∀ outcome, state.status.outcome = some outcome →
    state.cleanupError = none ∧ state.beforeStop = none ∧ state.beforeStopError = none ∧
      state.runner = none ∧ Exited owned outcome history

variable {hook : Option Hook} {owned : Option ℕ} {history es : List Entry} {state state' : State}

/-- A hook that left no error was run and said that it is done. -/
theorem Certified.succeeded (h : Certified hook owned state history)
    (hrun : state.beforeStop = none) (herror : state.beforeStopError = none) :
    ∀ result, hook = some result → result = .ok () ∧ .beforeStop ∈ history := by
  intro result hresult
  obtain ⟨hfailure, hmem⟩ := h.run hrun
  rw [herror, hresult] at hfailure
  refine ⟨?_, hmem (by rw [hresult]; rfl)⟩
  cases result with
  | ok u => rfl
  | error text => cases hfailure

/-- The answer of a server that has no runner and no failed cleanup on record. -/
theorem Certified.stopResult (h : Certified hook owned state history)
    (hclean : state.cleanupError = none) (caller : ℕ) :
    StopNeeds hook owned history (.reply caller (.stop state.stopResult)) := by
  unfold State.stopResult
  cases houtcome : state.status.outcome with
  | none => exact fun hunclean => absurd hunclean (h.clean hclean)
  | some outcome =>
    obtain ⟨_, hrun, herror, _, hexited⟩ := h.outcome outcome houtcome
    exact ⟨hexited, h.clean hclean, h.succeeded hrun herror⟩

/-- The certificates of a state serve any state with the same ends. -/
structure SameEnd (state state' : State) : Prop where
  beforeStop : state'.beforeStop = state.beforeStop
  beforeStopError : state'.beforeStopError = state.beforeStopError
  runner : state'.runner = state.runner
  cleanupError : state'.cleanupError = state.cleanupError
  outcome : state'.status.outcome = state.status.outcome

theorem SameEnd.refl (state : State) : SameEnd state state := ⟨rfl, rfl, rfl, rfl, rfl⟩

/-- Entries that are neither received nor answers to a stop. -/
theorem Certified.extend (h : Certified hook owned state history)
    (hsame : SameEnd state state') (hordered : Ordered (StopNeeds hook owned) (history ++ es))
    (hreceived : ∀ e ∈ es, e.isReceived = false) :
    Certified hook owned state' (history ++ es) where
  ordered := hordered
  pending result hpending := by
    rw [hsame.beforeStop] at hpending
    rw [hsame.beforeStopError]
    exact h.pending result hpending
  run hrun := by
    rw [hsame.beforeStop] at hrun
    rw [hsame.beforeStopError]
    obtain ⟨herror, hmem⟩ := h.run hrun
    exact ⟨herror, fun hsome => List.mem_append_left _ (hmem hsome)⟩
  runner pid hpid := h.runner pid (hsame.runner ▸ hpid)
  clean hclean := by
    rw [unclean_append hreceived]
    exact h.clean (hsame.cleanupError ▸ hclean)
  outcome outcome houtcome := by
    rw [hsame.outcome] at houtcome
    obtain ⟨hclean, hrun, herror, hgone, hexited⟩ := h.outcome outcome houtcome
    rw [hsame.cleanupError, hsame.beforeStop, hsame.beforeStopError, hsame.runner]
    exact ⟨hclean, hrun, herror, hgone, hexited.append es⟩

/-- Another state with the same end. -/
theorem Certified.same (h : Certified hook owned state history) (hsame : SameEnd state state') :
    Certified hook owned state' history := by
  have hordered : Ordered (StopNeeds hook owned) (history ++ []) := by
    rw [List.append_nil]
    exact h.ordered
  have hnow := h.extend hsame hordered fun e he => by cases he
  rw [List.append_nil] at hnow
  exact hnow

/-- Entries that have nothing to do with the end. -/
theorem Certified.other (h : Certified hook owned state history) (hsame : SameEnd state state')
    (hes : ∀ e ∈ es, e.isReceived = false ∧ e.isStopAnswer = false) :
    Certified hook owned state' (history ++ es) := by
  refine h.extend hsame ?_ fun e he => (hes e he).1
  exact h.ordered.append_free fun e he before => stopNeeds_other (hes e he).2 before

/-- The hook and its error. -/
theorem Certified.runHook (h : Certified hook owned state history) :
    Certified hook owned state.hooked (history ++ state.hooks) := by
  cases hpending : state.beforeStop with
  | none =>
    have hnone : state.hooks = [] := by
      unfold State.hooks
      rw [hpending]
      rfl
    rw [hooked_of_none hpending, hnone, List.append_nil]
    exact h
  | some result =>
    obtain ⟨hsome, _⟩ := h.pending result hpending
    have hhooks : state.hooks = [.beforeStop] := by
      unfold State.hooks
      rw [hpending]
      rfl
    have herror : state.hooked.beforeStopError = hook.bind Hook.failure := by
      unfold State.hooked
      rw [hpending, hsome]
      rfl
    have hreceived : ∀ e ∈ [Entry.beforeStop], e.isReceived = false := by
      intro e he
      rw [List.mem_singleton.mp he]
      rfl
    rw [hhooks]
    constructor
    · exact h.ordered.concat trivial
    · intro h' hnone
      cases hnone
    · intro _
      refine ⟨herror, fun _ => ?_⟩
      exact List.mem_append_right _ (List.mem_singleton_self _)
    · exact h.runner
    · intro hclean
      rw [unclean_append hreceived]
      exact h.clean hclean
    · intro outcome houtcome
      obtain ⟨_, hrun, _⟩ := h.outcome outcome houtcome
      rw [hpending] at hrun
      cases hrun

/-- Effects of a stop are neither received nor answers. -/
theorem other_of_isStop {e : Entry} (h : e.isStop = true) :
    e.isReceived = false ∧ e.isStopAnswer = false := by
  cases e with
  | received message => cases h
  | reply caller answer => cases h
  | _ => exact ⟨rfl, rfl⟩

theorem other_of_isEnd {e : Entry} (h : e.isEnd = true) :
    e.isReceived = false ∧ e.isStopAnswer = false := by
  cases e with
  | notify event => exact ⟨rfl, rfl⟩
  | _ => cases h

theorem Certified.cancels (h : Certified hook owned state history) (hsame : SameEnd state state')
    (other : State) : Certified hook owned state' (history ++ other.cancels) :=
  h.other hsame fun _ he => other_of_isStop (isStop_of_cancels he)

theorem Certified.forces (h : Certified hook owned state history) (target : Option ℕ) :
    Certified hook owned state.forced
      (history ++ (state.cancels ++ (state.hooks ++ [.killTree target]))) := by
  rw [← List.append_assoc, ← List.append_assoc]
  refine (h.cancels (.refl state) state).runHook.other ⟨rfl, rfl, rfl, rfl, rfl⟩ fun e he => ?_
  rw [List.mem_singleton.mp he]
  exact ⟨rfl, rfl⟩

theorem Certified.begins (h : Certified hook owned state history) (mode : StopMode)
    (cause : Cause) :
    Certified hook owned (state.begun mode cause) (history ++ state.begins mode cause) := by
  have hentered : Certified hook owned state.hooked
      (history ++ (state.cancels ++ state.hooks)) := by
    rw [← List.append_assoc]
    exact (h.cancels (.refl state) state).runHook
  have hnothing : Certified hook owned state (history ++ []) :=
    h.other (.refl state) fun e he => by cases he
  unfold State.begun State.begins
  split
  · exact hnothing
  · exact hnothing
  · exact hnothing
  · exact h.forces state.runner
  · rw [← List.append_assoc]
    refine hentered.other ⟨rfl, rfl, rfl, rfl, rfl⟩ fun e he => ?_
    rw [List.mem_singleton.mp he]
    exact ⟨rfl, rfl⟩
  · rw [← List.append_assoc]
    have hsame : SameEnd state.hooked (state.entered cause).graceful := by
      unfold State.graceful
      split
      · exact ⟨rfl, rfl, rfl, rfl, rfl⟩
      · exact ⟨rfl, rfl, rfl, rfl, rfl⟩
    exact hentered.other hsame fun e he => other_of_isStop (isStop_of_asksToStop he)

/-- The outcome that an exit leaves is certified. -/
theorem exitOutcome_some {reason : ExitReason} {outcome : Outcome}
    (h : (exitOutcome state reason).1 = some outcome) :
    completion reason = .ok outcome ∧ (exitOutcome state reason).2 = none ∧
      state.cleanupError = none ∧ state.beforeStopError = none := by
  unfold exitOutcome at h ⊢
  split at h
  · rename_i certified hcertified
    split at h
    · rename_i hclean
      have hsame : certified = outcome := Option.some.inj h
      rw [hcertified, if_pos hclean, hsame]
      exact ⟨rfl, rfl, hclean⟩
    · cases h
  · cases h

/-- An exit keeps a failed cleanup on record. -/
theorem exitOutcome_unclean {reason : ExitReason} {message : String}
    (h : state.cleanupError = some message) :
    exitOutcome state reason = (none, some message) := by
  unfold exitOutcome
  rw [h]
  split
  · rw [if_neg (fun hclean => by cases hclean.1)]
    rfl
  · rfl

/-- The answer that an exit leaves for those who wait for the stop. -/
theorem Certified.exitResult {reason : ExitReason}
    (h : Certified hook owned (exitedState state reason) history) (caller : ℕ) :
    StopNeeds hook owned history (.reply caller (.stop (exitedState state reason).stopResult)) := by
  cases hrecorded : (exitedState state reason).cleanupError with
  | none => exact h.stopResult hrecorded caller
  | some message =>
    have hresult : (exitOutcome state reason).2 = some message := hrecorded
    have hnone : (exitOutcome state reason).1 = none := by
      cases houtcome : (exitOutcome state reason).1 with
      | none => rfl
      | some outcome =>
        have hclean := (exitOutcome_some houtcome).2.1
        rw [hresult] at hclean
        cases hclean
    have herror : (exitedState state reason).stopResult =
        .error (some (.cleanupFailed message)) := by
      unfold State.stopResult exitedState
      dsimp only
      rw [hnone, hresult]
    rw [herror]
    exact fun _ => ⟨message, rfl⟩

/-- The exit of the runner. -/
theorem Certified.completes (h : Certified hook owned state history) {pid : ℕ}
    (hrunner : state.runner = some pid) (reason : ExitReason)
    (hreceived : .received (.exit pid reason) ∈ history) :
    Certified hook owned (state.completed reason) (history ++ state.completes reason) := by
  have hhooked : Certified hook owned state.hooked
      (history ++ (state.cancels ++ state.hooks)) := by
    rw [← List.append_assoc]
    exact (h.cancels (.refl state) state).runHook
  have hexited : Certified hook owned (exitedState state.hooked reason)
      (history ++ (state.cancels ++ state.hooks)) := by
    constructor
    · exact hhooked.ordered
    · intro result hpending
      cases hpending
    · exact hhooked.run
    · intro other hother
      cases hother
    · intro hclean
      refine hhooked.clean ?_
      by_contra hrecorded
      obtain ⟨message, hmessage⟩ := Option.ne_none_iff_exists'.mp hrecorded
      change (exitOutcome state.hooked reason).2 = none at hclean
      rw [exitOutcome_unclean hmessage] at hclean
      cases hclean
    · intro outcome houtcome
      obtain ⟨hcompletion, hclean, _, herror⟩ := exitOutcome_some houtcome
      refine ⟨hclean, rfl, herror, rfl, pid, reason, h.runner pid hrunner, hcompletion, ?_⟩
      exact List.mem_append_left _ hreceived
  have hlater : state.completes reason = state.cancels ++ state.hooks ++
      ((exitedState state.hooked reason).notifiesExit state.cleanupError.isSome ++
        ((exitedState state.hooked reason).finishes (exitedState state.hooked reason).startupEnd ++
          state.stopWaiters.map fun caller =>
            .reply caller (.stop (exitedState state.hooked reason).stopResult))) := by
    unfold State.completes
    dsimp only
    rw [List.append_assoc]
  rw [hlater, ← List.append_assoc]
  have htold : Certified hook owned (exitedState state.hooked reason)
      (history ++ (state.cancels ++ state.hooks) ++
        ((exitedState state.hooked reason).notifiesExit state.cleanupError.isSome ++
          (exitedState state.hooked reason).finishes
            (exitedState state.hooked reason).startupEnd)) := by
    refine hexited.other (.refl _) fun e he => ?_
    rcases List.mem_append.mp he with hnotify | hfinish
    · exact other_of_isEnd (isEnd_of_notifiesExit hnotify)
    · obtain ⟨caller, _, rfl⟩ := mem_finishes hfinish
      exact ⟨rfl, rfl⟩
  have hsame : SameEnd (exitedState state.hooked reason) (state.completed reason) :=
    ⟨rfl, rfl, rfl, rfl, rfl⟩
  rw [← List.append_assoc (State.notifiesExit _ _), ← List.append_assoc]
  refine htold.extend hsame (ordered_stopAnswers _ htold.ordered fun caller => ?_) fun e he => ?_
  · exact htold.exitResult caller
  · exact not_isReceived_of_mem_map he

/-- A failed cleanup is reported. -/
theorem Certified.unclean (h : Certified hook owned state history) (message : String) :
    Certified hook owned (state.unclean message)
      (history ++ .received (.cleanupError message) :: state.reportsUnclean message) := by
  have hordered : Ordered (StopNeeds hook owned)
      (history ++ .received (.cleanupError message) :: state.reportsUnclean message) := by
    refine h.ordered.append_free fun e he before => ?_
    rcases List.mem_cons.mp he with rfl | hreport
    · trivial
    · rcases mem_reportsUnclean hreport with hstop | hend | ⟨caller, cause, rfl⟩ | ⟨caller, rfl⟩
      · exact stopNeeds_other (other_of_isStop hstop).2 before
      · exact stopNeeds_other (other_of_isEnd hend).2 before
      · trivial
      · exact fun _ => ⟨message, rfl⟩
  cases hrecorded : state.cleanupError with
  | some recorded =>
    have hsame : state.unclean message = state := by
      unfold State.unclean
      rw [hrecorded]
    rw [hsame]
    constructor
    · exact hordered
    · exact h.pending
    · intro hrun
      obtain ⟨herror, hmem⟩ := h.run hrun
      exact ⟨herror, fun hsome => List.mem_append_left _ (hmem hsome)⟩
    · exact h.runner
    · intro hclean
      rw [hrecorded] at hclean
      cases hclean
    · intro outcome houtcome
      obtain ⟨hclean, _⟩ := h.outcome outcome houtcome
      rw [hrecorded] at hclean
      cases hclean
  | none =>
    have hunclean : state.unclean message =
        { (uncleanState state.hooked message).finished (.error (.cleanupFailed message)) with
          stopWaiters := [] } := by
      unfold State.unclean
      rw [hrecorded]
    have hreports : ∃ later, state.reportsUnclean message = state.hooks ++ later := by
      unfold State.reportsUnclean
      rw [hrecorded]
      exact ⟨_, rfl⟩
    obtain ⟨later, hlater⟩ := hreports
    have hhooked := h.runHook
    rw [hunclean]
    constructor
    · exact hordered
    · intro result hpending
      cases hpending
    · intro hrun
      obtain ⟨herror, hmem⟩ := hhooked.run rfl
      refine ⟨herror, fun hsome => ?_⟩
      rw [hlater]
      rcases List.mem_append.mp (hmem hsome) with hold | hnew
      · exact List.mem_append_left _ hold
      · exact List.mem_append_right _ (List.mem_cons_of_mem _ (List.mem_append_left _ hnew))
    · exact h.runner
    · intro hclean
      cases hclean
    · intro outcome houtcome
      cases houtcome

/-- A stop is given up. -/
theorem Certified.givesUp (h : Certified hook owned state history)
    (hclean : state.cleanupError = none) :
    Certified hook owned state.givenUp (history ++ state.givesUp) := by
  have hsame : SameEnd state state.givenUp := ⟨rfl, rfl, rfl, rfl, rfl⟩
  unfold State.givesUp
  rw [← List.append_assoc]
  have htold : Certified hook owned state (history ++ state.stopWaiters.map fun caller =>
      .reply caller (.stop (.error (some .shutdownTimeout)))) := by
    refine h.extend (.refl state) (ordered_stopAnswers _ h.ordered fun caller => ?_) fun e he => ?_
    · exact fun hunclean => absurd hunclean (h.clean hclean)
    · exact not_isReceived_of_mem_map he
  refine htold.other hsame fun e he => ?_
  obtain ⟨caller, _, rfl⟩ := mem_finishes he
  exact ⟨rfl, rfl⟩

end Certified

section Steps

variable {hook : Option Hook} {owned : Option ℕ} {history es : List Entry} {state state' : State}

/-- Nothing is received or answered by sending a request. -/
theorem other_of_requests {kind : RequestKind} {e : Entry} (h : e ∈ state.requests kind) :
    e.isReceived = false ∧ e.isStopAnswer = false := by
  unfold State.requests at h
  split at h
  · rw [List.mem_singleton.mp h]
    exact ⟨rfl, rfl⟩
  · cases h

theorem Proceeds.certified {kind : RequestKind} {result : Except RequestError String}
    (hproceeds : Proceeds state kind result es state')
    (h : Certified hook owned state history) :
    Certified hook owned state' (history ++ es) := by
  cases hproceeds with
  | pinged text =>
    refine h.other ⟨rfl, rfl, rfl, rfl, rfl⟩ fun e he => ?_
    rcases List.mem_cons.mp he with rfl | hrequest
    · exact ⟨rfl, rfl⟩
    · exact other_of_requests hrequest
  | created text => exact h.other ⟨rfl, rfl, rfl, rfl, rfl⟩ fun e he => other_of_requests he
  | booted text => exact h.other ⟨rfl, rfl, rfl, rfl, rfl⟩ fun e he => other_of_requests he
  | running =>
    refine h.other ⟨rfl, rfl, rfl, rfl, rfl⟩ fun e he => ?_
    rcases List.mem_cons.mp he with rfl | hfinish
    · exact ⟨rfl, rfl⟩
    · obtain ⟨caller, _, rfl⟩ := mem_finishes hfinish
      exact ⟨rfl, rfl⟩
  | waits vmState =>
    refine h.other ⟨rfl, rfl, rfl, rfl, rfl⟩ fun e he => ?_
    rw [List.mem_singleton.mp he]
    exact ⟨rfl, rfl⟩
  | silent reason =>
    refine h.other (.refl state) fun e he => ?_
    rw [List.mem_singleton.mp he]
    exact ⟨rfl, rfl⟩
  | fails kind error => exact h.begins _ _

/-- A call keeps the certificates. -/
theorem Answers.certified {caller : ℕ} {call : Call}
    (hanswers : Answers state caller call es state')
    (h : Certified hook owned state history) :
    Certified hook owned state' (history ++ es) := by
  have hreply {answer : Answer} (hneeds : StopNeeds hook owned history (.reply caller answer)) :
      Certified hook owned state (history ++ [.reply caller answer]) := by
    refine h.extend (.refl state) (h.ordered.concat hneeds) fun e he => ?_
    rw [List.mem_singleton.mp he]
    rfl
  have hquiet {state' : State} (hsame : SameEnd state state') :
      Certified hook owned state' (history ++ []) := h.other hsame fun e he => by cases he
  cases hanswers with
  | client => exact hreply trivial
  | status => exact hreply trivial
  | waits undecided => exact hquiet ⟨rfl, rfl, rfl, rfl, rfl⟩
  | decided decided => exact hreply trivial
  | unclean mode unclean => exact hreply fun _ => ⟨_, rfl⟩
  | ended mode clean ended => exact hreply (h.stopResult clean caller)
  | timedOut mode clean => exact hreply fun hunclean => absurd hunclean (h.clean clean)
  | stops mode clean running timed =>
    have hwaits : Certified hook owned (state.awaitStop caller) history := by
      exact h.same ⟨rfl, rfl, rfl, rfl, rfl⟩
    exact hwaits.begins _ _

/-- A message that reports no failed cleanup has been received. -/
theorem Certified.receive (h : Certified hook owned state history) {message : Message}
    (hharmless : ∀ text, message ≠ .cleanupError text) :
    Certified hook owned state (history ++ [.received message]) where
  ordered := h.ordered.concat trivial
  pending := h.pending
  run hrun := by
    obtain ⟨herror, hmem⟩ := h.run hrun
    exact ⟨herror, fun hsome => List.mem_append_left _ (hmem hsome)⟩
  runner := h.runner
  clean hclean := by
    intro hunclean
    obtain ⟨text, hmem⟩ := hunclean
    rcases List.mem_append.mp hmem with hold | hnew
    · exact h.clean hclean ⟨text, hold⟩
    · have heq := List.mem_singleton.mp hnew
      exact hharmless text (Entry.received.inj heq).symm
  outcome outcome houtcome := by
    obtain ⟨hclean, hrun, herror, hgone, hexited⟩ := h.outcome outcome houtcome
    exact ⟨hclean, hrun, herror, hgone, hexited.append _⟩

/-- A message keeps the certificates. -/
theorem Handles.certified {message : Message} (hhandles : Handles state message es state')
    (h : Certified hook owned state history) :
    Certified hook owned state' (history ++ .received message :: es) := by
  have hsplit : history ++ .received message :: es = history ++ [.received message] ++ es :=
    List.append_cons _ _ _
  cases hhandles with
  | unclean message => exact h.unclean message
  | ignored harmless =>
    rw [hsplit]
    exact (h.receive harmless).other (.refl state) fun e he => by cases he
  | heard stream osPid bytes =>
    rw [hsplit]
    refine (h.receive fun _ heq => by cases heq).other (.refl state) fun e he => ?_
    rw [List.mem_singleton.mp he]
    exact ⟨rfl, rfl⟩
  | exited reason runner =>
    rw [hsplit]
    refine (h.receive fun _ heq => by cases heq).completes runner reason ?_
    exact List.mem_append_right _ (List.mem_singleton_self _)
  | proceeds asked answer harmless starting proceeds =>
    rw [hsplit]
    refine proceeds.certified ?_
    exact (h.receive harmless).same ⟨rfl, rfl, rfl, rfl, rfl⟩
  | late kind result harmless late =>
    rw [hsplit]
    refine (h.receive harmless).other ⟨rfl, rfl, rfl, rfl, rfl⟩ fun e he => ?_
    unfold State.stopReplied at he
    split at he
    · split at he
      · rw [List.mem_singleton.mp he]
        exact ⟨rfl, rfl⟩
      · cases he
    · cases he
  | orphaned gone =>
    rw [hsplit]
    exact (h.receive fun _ heq => by cases heq).other ⟨rfl, rfl, rfl, rfl, rfl⟩
      fun e he => by cases he
  | ownerDown running =>
    rw [hsplit]
    have hdead : Certified hook owned { state with ownerDead := true }
        (history ++ [.received .ownerDown]) :=
      (h.receive fun _ heq => by cases heq).same ⟨rfl, rfl, rfl, rfl, rfl⟩
    exact hdead.begins _ _
  | poll starting =>
    rw [hsplit]
    exact (h.receive fun _ heq => by cases heq).other ⟨rfl, rfl, rfl, rfl, rfl⟩
      fun e he => other_of_requests he
  | expires starting =>
    rw [hsplit]
    exact (h.receive fun _ heq => by cases heq).begins _ _
  | escalates graceful =>
    rw [hsplit]
    exact (h.receive fun _ heq => by cases heq).forces _
  | givesUp running force clean =>
    rw [hsplit]
    exact (h.receive fun _ heq => by cases heq).givesUp clean

theorem begun_cleanupError (mode : StopMode) (cause : Cause) :
    (state.begun mode cause).cleanupError = state.cleanupError := by
  unfold State.begun State.graceful
  split
  · rfl
  · rfl
  · rfl
  · rfl
  · rfl
  · split <;> rfl

theorem Proceeds.cleanupError {kind : RequestKind} {result : Except RequestError String}
    (hproceeds : Proceeds state kind result es state') :
    state'.cleanupError = state.cleanupError := by
  cases hproceeds with
  | fails kind error => exact begun_cleanupError _ _
  | _ => rfl

/-- A failed cleanup stays on record through a call. -/
theorem Answers.recorded {caller : ℕ} {call : Call} {message : String}
    (hanswers : Answers state caller call es state')
    (hrecorded : state.cleanupError = some message) : state'.cleanupError = some message := by
  cases hanswers with
  | stops mode clean running timed =>
    rw [hrecorded] at clean
    cases clean
  | _ => exact hrecorded

/-- A failed cleanup stays on record whatever is received. -/
theorem Handles.recorded {message : Message} {text : String}
    (hhandles : Handles state message es state')
    (hrecorded : state.cleanupError = some text) : state'.cleanupError = some text := by
  cases hhandles with
  | unclean message =>
    unfold State.unclean
    rw [hrecorded]
    exact hrecorded
  | exited reason runner =>
    have hhooked : state.hooked.cleanupError = some text := hrecorded
    change (exitOutcome state.hooked reason).2 = some text
    rw [exitOutcome_unclean hhooked]
  | proceeds asked answer harmless starting proceeds =>
    rw [proceeds.cleanupError]
    exact hrecorded
  | ownerDown running =>
    rw [begun_cleanupError]
    exact hrecorded
  | expires starting =>
    rw [begun_cleanupError]
    exact hrecorded
  | _ => exact hrecorded

/-- A server that is told to end answers nobody. -/
theorem terminate_certified (h : Certified hook owned state history) (mailbox : List Message) :
    Ordered (StopNeeds hook owned) (history ++ (terminate state mailbox).effects) := by
  obtain ⟨heard, hheard, heffects⟩ := terminate_effects state mailbox
  rw [heffects]
  refine h.ordered.append_free fun e he before => ?_
  rcases List.mem_append.mp he with hcancel | hrest
  · exact stopNeeds_other (other_of_isStop (isStop_of_cancels hcancel)).2 before
  · split at hrest
    · cases hrest
    · rcases List.mem_append.mp hrest with hhook | hlast
      · exact stopNeeds_other (other_of_isStop (isStop_of_hooks hhook)).2 before
      · rcases List.mem_cons.mp hlast with rfl | hnotify
        · trivial
        · obtain ⟨event, rfl, _⟩ := hheard e hnotify
          trivial

end Steps

end Sower.Hypervisor
