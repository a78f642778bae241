import Sower.Hypervisor.Steps

/-!
# States that the server can be in

What always holds of the server's state by itself: a stop that has begun has run the
hook, whoever waits for something can still be answered, and as long as somebody waits
a timer is set after which nobody does.
-/

namespace Sower.Hypervisor

open Traced

section Sane

/-- What the fields of the state say about each other. -/
structure Sane (state : State) : Prop where
  /-- The hook is run before a stop, and has been run without a runner. -/
  hooked : state.stopStage.isSome ∨ state.status.phase = .stopping ∨ state.runner = none →
    state.beforeStop = none
  /-- An undecided startup is under way or being stopped. -/
  undecided : state.startupResult = none → state.runner.isSome ∧ state.cleanupError = none ∧
    (state.status.phase = .starting ∨ state.stopStage.isSome)
  /-- Whoever waits for the startup waits for it to be decided. -/
  waiting : state.startupWaiters ≠ [] → state.startupResult = none
  /-- Whoever waits for the stop waits for the runner. -/
  stopping : state.stopWaiters ≠ [] → state.runner.isSome ∧ state.cleanupError = none ∧
    state.stopStage.isSome
  starting : state.status.phase = .starting → state.startupResult = none ∧
    state.stopStage = none ∧ state.readinessTimer = true
  /-- A graceful stop has its timer set while there is a runner. -/
  graceful : state.stopStage = some .graceful → state.runner.isSome → state.shutdownTimer = true
  /-- A forced stop has its timer set while somebody waits. -/
  timed : state.stopStage = some .force → state.startupResult = none ∨ state.stopWaiters ≠ [] →
    state.shutdownTimer = true
  /-- No shutdown is asked for during the startup. -/
  requested : state.status.phase = .starting → ∀ r, state.request = some r → r.kind ≠ .shutdown

variable {state : State}

/-- Once the startup is decided nobody waits for it. -/
theorem finished_startupWaiters (h : state.startupWaiters ≠ [] → state.startupResult = none)
    (result : Except Cause Status) : (state.finished result).startupWaiters = [] := by
  unfold State.finished
  dsimp only
  split
  · rfl
  · rename_i hdecided
    by_contra hne
    rw [h hne] at hdecided
    exact hdecided rfl

/-- The request on its way is no matter of the state. -/
theorem Sane.unrequest (h : Sane state) : Sane { state with request := none } :=
  { h with requested := fun _ _ hr => by cases hr }

/-- Nobody waits for the stop any more. -/
theorem Sane.unwait (h : Sane state) : Sane { state with stopWaiters := [] } where
  hooked := h.hooked
  undecided := h.undecided
  waiting := h.waiting
  stopping hne := absurd rfl hne
  starting := h.starting
  graceful := h.graceful
  timed hforce hwait := h.timed hforce (hwait.imp_right fun hne => absurd rfl hne)
  requested := h.requested

/-- A forced stop of a runner. -/
theorem forced_sane (h : Sane { state with stopWaiters := [] })
    (hwait : state.stopWaiters ≠ [] → state.runner.isSome ∧ state.cleanupError = none)
    (hphase : state.status.phase ≠ .starting) : Sane state.forced where
  hooked _ := rfl
  undecided hnone := by
    obtain ⟨hrunner, hclean, _⟩ := h.undecided hnone
    exact ⟨hrunner, hclean, Or.inr rfl⟩
  waiting := h.waiting
  stopping hne := by
    obtain ⟨hrunner, hclean⟩ := hwait hne
    exact ⟨hrunner, hclean, rfl⟩
  starting hstarting := absurd hstarting hphase
  graceful hgraceful := by cases hgraceful
  timed _ _ := rfl
  requested hstarting := absurd hstarting hphase

/-- A stop has begun; how it goes on is left open. -/
structure Entered (state : State) : Prop where
  hooked : state.beforeStop = none
  undecided : state.startupResult = none → state.runner.isSome ∧ state.cleanupError = none
  waiting : state.startupWaiters ≠ [] → state.startupResult = none
  stopping : state.stopWaiters ≠ [] → state.runner.isSome ∧ state.cleanupError = none
  phase : state.status.phase = .stopping

theorem entered_entered (cause : Cause) (h : Sane { state with stopWaiters := [] })
    (hwait : state.stopWaiters ≠ [] → state.runner.isSome ∧ state.cleanupError = none) :
    Entered (state.entered cause) where
  hooked := rfl
  undecided hnone := by
    obtain ⟨hrunner, hclean, _⟩ := h.undecided hnone
    exact ⟨hrunner, hclean⟩
  waiting := h.waiting
  stopping := hwait
  phase := rfl

/-- However the stop goes on, it leaves a stage and a timer. -/
theorem Entered.sane (h : Entered state) {state' : State} (hstage : state'.stopStage.isSome)
    (htimer : state'.shutdownTimer = true)
    (hsame : state' = { state with
      stopStage := state'.stopStage
      shutdownTimer := state'.shutdownTimer
      request := state'.request
      nextPid := state'.nextPid
      beforeStopError := state'.beforeStopError }) : Sane state' := by
  rw [hsame]
  constructor
  · exact fun _ => h.hooked
  · intro hnone
    obtain ⟨hrunner, hclean⟩ := h.undecided hnone
    exact ⟨hrunner, hclean, Or.inr hstage⟩
  · exact h.waiting
  · intro hne
    obtain ⟨hrunner, hclean⟩ := h.stopping hne
    exact ⟨hrunner, hclean, hstage⟩
  · intro hstarting
    rw [h.phase] at hstarting
    cases hstarting
  · exact fun _ _ => htimer
  · exact fun _ _ => htimer
  · intro hstarting
    rw [h.phase] at hstarting
    cases hstarting

theorem entered_forced_sane (h : Entered state) : Sane state.forced := by
  refine h.sane rfl rfl ?_
  have hhooked := h.hooked
  cases state
  dsimp only at hhooked
  subst hhooked
  rfl

theorem entered_graceful_sane (h : Entered state) : Sane state.graceful := by
  unfold State.graceful
  split
  · exact h.sane rfl rfl rfl
  · exact h.sane rfl rfl rfl

/-- A stop, also one that somebody has just asked for. -/
theorem begun_sane {mode : StopMode} {cause : Cause} (h : Sane { state with stopWaiters := [] })
    (hwait : state.stopWaiters ≠ [] → state.runner.isSome ∧ state.cleanupError = none ∧
      (state.stopStage = some .force → state.shutdownTimer = true)) :
    Sane (state.begun mode cause) := by
  have hwait' : state.stopWaiters ≠ [] → state.runner.isSome ∧ state.cleanupError = none :=
    fun hne => ⟨(hwait hne).1, (hwait hne).2.1⟩
  -- A stop that has begun before goes on; only its waiters may be new.
  have hkeeps (hstage : state.stopStage.isSome) : Sane state :=
    { hooked := h.hooked
      undecided := h.undecided
      waiting := h.waiting
      stopping := fun hne => ⟨(hwait hne).1, (hwait hne).2.1, hstage⟩
      starting := h.starting
      graceful := h.graceful
      timed := by
        intro hforce hwaits
        rcases hwaits with hundecided | hne
        · exact h.timed hforce (Or.inl hundecided)
        · exact (hwait hne).2.2 hforce
      requested := h.requested }
  unfold State.begun
  split
  · rename_i hrunner
    have hnobody : state.stopWaiters = [] := by
      by_contra hne
      rw [hrunner] at hwait'
      exact absurd (hwait' hne).1 (by simp)
    have hsame : state = { state with stopWaiters := [] } := by
      cases state
      dsimp only at hnobody
      subst hnobody
      rfl
    rw [hsame]
    exact h
  · rename_i hstage
    exact hkeeps (by rw [hstage]; rfl)
  · rename_i hstage
    exact hkeeps (by rw [hstage]; rfl)
  · rename_i hstage
    refine forced_sane h hwait' fun hstarting => ?_
    have hnone := (h.starting hstarting).2.1
    rw [show ({ state with stopWaiters := [] } : State).stopStage = state.stopStage from rfl,
      hstage] at hnone
    cases hnone
  · exact entered_forced_sane (entered_entered cause h hwait')
  · exact entered_graceful_sane (entered_entered cause h hwait')

theorem Sane.begun (h : Sane state) (mode : StopMode) (cause : Cause) :
    Sane (state.begun mode cause) := by
  refine begun_sane h.unwait fun hne => ?_
  obtain ⟨hrunner, hclean, _⟩ := h.stopping hne
  exact ⟨hrunner, hclean, fun hforce => h.timed hforce (Or.inr hne)⟩

/-- The runner has exited: nobody waits for anything. -/
theorem completed_sane (h : Sane state) (reason : ExitReason) :
    Sane (state.completed reason) where
  hooked _ := rfl
  undecided hnone := by cases hnone
  waiting hne := by
    have hwaiting : (exitedState state.hooked reason).startupWaiters ≠ [] →
        (exitedState state.hooked reason).startupResult = none := h.waiting
    exact absurd (finished_startupWaiters hwaiting (exitedState state.hooked reason).startupEnd) hne
  stopping hne := absurd rfl hne
  starting hstarting := by
    have hended (failed : Bool) : (if failed then Phase.failed else Phase.exited) ≠ .starting := by
      cases failed <;> decide
    exact absurd hstarting (hended _)
  graceful _ hrunner := by cases hrunner
  timed _ hwait := by
    rcases hwait with hundecided | hne
    · cases hundecided
    · exact absurd rfl hne
  requested _ _ hr := by cases hr

/-- The cleanup has failed: nobody waits for anything. -/
theorem unclean_sane (h : Sane state) (message : String) : Sane (state.unclean message) := by
  unfold State.unclean
  split
  · exact h
  · constructor
    · exact fun _ => rfl
    · intro hnone
      cases hnone
    · intro hne
      have hwaiting : (uncleanState state.hooked message).startupWaiters ≠ [] →
          (uncleanState state.hooked message).startupResult = none := h.waiting
      exact absurd (finished_startupWaiters hwaiting (.error (.cleanupFailed message))) hne
    · exact fun hne => absurd rfl hne
    · intro hstarting
      cases hstarting
    · intro hgraceful
      cases hgraceful
    · intro _ hwait
      rcases hwait with hundecided | hne
      · cases hundecided
      · exact absurd rfl hne
    · intro hstarting
      cases hstarting

/-- The stop was given up: nobody waits for anything. -/
theorem givenUp_sane (h : Sane state) (hforce : state.stopStage = some .force) :
    Sane state.givenUp where
  hooked := h.hooked
  undecided hnone := by cases hnone
  waiting hne := by
    refine absurd (finished_startupWaiters ?_ (.error .shutdownTimeout)) hne
    exact h.waiting
  stopping hne := absurd rfl hne
  starting hstarting := by
    have hnone := (h.starting hstarting).2.1
    rw [hforce] at hnone
    cases hnone
  graceful hgraceful := by
    change state.stopStage = some .graceful at hgraceful
    rw [hforce] at hgraceful
    cases hgraceful
  timed _ hwait := by
    rcases hwait with hundecided | hne
    · cases hundecided
    · exact absurd rfl hne
  requested := h.requested

/-- A request for the startup. -/
theorem requested_sane (h : Sane state) {kind : RequestKind} (hkind : kind ≠ .shutdown) :
    Sane (state.requested kind) where
  hooked := h.hooked
  undecided := h.undecided
  waiting := h.waiting
  stopping := h.stopping
  starting := h.starting
  graceful := h.graceful
  timed := h.timed
  requested hstarting r hr := by
    have hr' : state.request.getD ⟨state.nextPid, kind⟩ = r := Option.some.inj hr
    cases hrequest : state.request with
    | none =>
      rw [hrequest] at hr'
      rw [← hr']
      exact hkind
    | some current =>
      rw [hrequest] at hr'
      exact hr' ▸ h.requested hstarting current hrequest

/-- Another status of the startup. -/
theorem status_sane (h : Sane state) {status : Status} (hphase : status.phase = state.status.phase) :
    Sane { state with status := status } where
  hooked := by
    dsimp only
    rw [hphase]
    exact h.hooked
  undecided := by
    dsimp only
    rw [hphase]
    exact h.undecided
  waiting := h.waiting
  stopping := h.stopping
  starting := by
    dsimp only
    rw [hphase]
    exact h.starting
  graceful := h.graceful
  timed := h.timed
  requested := by
    dsimp only
    rw [hphase]
    exact h.requested

/-- The machine runs. -/
theorem ready_sane (h : Sane state) (hphase : state.status.phase = .starting)
    (result : Except Cause Status) : Sane (state.ready.finished result) := by
  obtain ⟨hundecided, hstage, _⟩ := h.starting hphase
  constructor
  · intro hstop
    rcases hstop with hstage' | hstopping | hrunner
    · change state.stopStage.isSome = true at hstage'
      rw [hstage] at hstage'
      cases hstage'
    · cases hstopping
    · exact h.hooked (Or.inr (Or.inr hrunner))
  · intro hnone
    cases hnone
  · intro hne
    have hwaiting : state.ready.startupWaiters ≠ [] → state.ready.startupResult = none := h.waiting
    exact absurd (finished_startupWaiters hwaiting result) hne
  · exact h.stopping
  · intro hstarting
    cases hstarting
  · exact h.graceful
  · intro hforce
    change state.stopStage = some .force at hforce
    rw [hstage] at hforce
    cases hforce
  · intro hstarting
    cases hstarting

theorem Proceeds.sane {kind : RequestKind} {result : Except RequestError String} {es : List Entry}
    {state' : State} (hproceeds : Proceeds state kind result es state') (h : Sane state)
    (hphase : state.status.phase = .starting) : Sane state' := by
  cases hproceeds with
  | pinged text =>
    have hpinged : Sane state.pinged := status_sane h rfl
    refine requested_sane hpinged ?_
    split <;> decide
  | created text => exact requested_sane h (by decide)
  | booted text => exact requested_sane h (by decide)
  | running => exact ready_sane h hphase _
  | waits vmState => exact status_sane h rfl
  | silent reason => exact h
  | fails kind error => exact h.begun _ _

/-- A call leaves a state that the server can be in. -/
theorem Answers.sane {caller : ℕ} {call : Call} {es : List Entry} {state' : State}
    (hanswers : Answers state caller call es state') (h : Sane state) : Sane state' := by
  cases hanswers with
  | client => exact h
  | status => exact h
  | waits undecided => exact { h with waiting := fun _ => undecided }
  | decided decided => exact h
  | unclean mode unclean => exact h
  | ended mode clean ended => exact h
  | timedOut mode clean => exact h
  | stops mode clean running timed =>
    refine begun_sane h.unwait fun _ => ⟨?_, clean, timed⟩
    change state.runner.isSome = true
    rw [running]
    rfl

/-- A message leaves a state that the server can be in. -/
theorem Handles.sane {message : Message} {es : List Entry} {state' : State}
    (hhandles : Handles state message es state') (h : Sane state) : Sane state' := by
  cases hhandles with
  | ignored harmless => exact h
  | heard stream osPid bytes => exact h
  | unclean message => exact unclean_sane h message
  | exited reason runner => exact completed_sane h reason
  | proceeds asked answer harmless starting proceeds =>
    exact proceeds.sane h.unrequest starting
  | late kind result harmless late => exact h.unrequest
  | orphaned gone => exact { h with }
  | ownerDown running =>
    have hdead : Sane { state with ownerDead := true } := { h with }
    exact hdead.begun _ _
  | poll starting =>
    refine requested_sane h ?_
    split <;> decide
  | expires starting => exact h.begun _ _
  | escalates graceful =>
    have hwait : state.stopWaiters ≠ [] → state.runner.isSome ∧ state.cleanupError = none :=
      fun hne => ⟨(h.stopping hne).1, (h.stopping hne).2.1⟩
    refine forced_sane h.unwait hwait fun hstarting => ?_
    have hnone := (h.starting hstarting).2.1
    rw [graceful] at hnone
    cases hnone
  | givesUp running force clean => exact givenUp_sane h force

end Sane

end Sower.Hypervisor
