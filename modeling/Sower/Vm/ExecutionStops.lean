import Sower.Vm.Execution

/-!
# Stopping an execution

Until the guard has reported, those who ask an execution to stop wait, and every
message that is no report keeps them waiting. The report answers all of them, and
whoever comes later, with what it says.
-/

namespace Sower.Vm

open Durable

variable {e : Execution} {c : Caller} {fresh : Pid} {message : ExecutionMessage}
  {result : Result} {cleanup : Cleanup}

section Callers

/-- The message is a call of this caller. -/
def ExecutionMessage.From (c : Caller) : ExecutionMessage → Prop
  | .status caller => caller = c
  | .cancel caller => caller = c
  | .stop caller => caller = c
  | .awaitReady caller => caller = c
  | .execute caller _ _ => caller = c
  | .await caller => caller = c
  | _ => False

/-- What the guard reports, or its end stands for. -/
def ExecutionMessage.report? : ExecutionMessage → Option (Result × Cleanup)
  | .vmFinished result cleanup => some (result, cleanup)
  | .guardDown reason => some (.error (.tagged "guard_down" reason), .unconfirmed)
  | _ => none

/-- The guard has sent the message while it was at work. -/
def ExecutionMessage.FromGuard : ExecutionMessage → Prop
  | .vmStatus _ => True
  | .commandFinished _ _ => True
  | .vmFinished _ _ => True
  | _ => False

/-- The answer that an effect gives to a caller. -/
def ExecutionEffect.answerTo (c : Caller) : ExecutionEffect → Option ExecutionAnswer
  | .reply caller answer => if caller = c then some answer else none
  | _ => none

namespace Execution

/-- The answers to a caller. -/
def answersTo (c : Caller) (effects : List ExecutionEffect) : List ExecutionAnswer :=
  effects.filterMap (ExecutionEffect.answerTo c)

theorem answersTo_append (es es' : List ExecutionEffect) :
    answersTo c (es ++ es') = answersTo c es ++ answersTo c es' :=
  List.filterMap_append

theorem answersTo_silent {effects : List ExecutionEffect}
    (h : ∀ e ∈ effects, e.answerTo c = none) : answersTo c effects = [] :=
  List.filterMap_eq_nil_iff.mpr h

/-- How many calls of this caller wait for the stop. -/
def stops (c : Caller) (e : Execution) : ℕ := e.waiters.count (.stop, c)

/-- The caller waits for nothing but the stop. -/
structure OnlyStops (c : Caller) (e : Execution) : Prop where
  await : (.await, c) ∉ e.waiters
  ready : c ∉ e.readyWaiters

/-- One answer to each of those who wait for the stop. -/
theorem answersTo_waiters (hwaits : (.await, c) ∉ e.waiters) (ended : Execution) :
    answersTo c (e.waiters.map fun waiter =>
      .reply waiter.2 (ended.waiterAnswer result waiter.1)) =
      List.replicate (e.stops c) ended.stopResult := by
  unfold stops
  revert hwaits
  generalize e.waiters = waiters
  intro hwaits
  induction waiters with
  | nil => rfl
  | cons waiter rest ih =>
    obtain ⟨kind, caller⟩ := waiter
    have hrest := ih fun hmem => hwaits (List.mem_cons_of_mem _ hmem)
    unfold answersTo at hrest ⊢
    rw [List.map_cons, List.filterMap_cons, hrest, List.count_cons]
    by_cases hcaller : caller = c
    · cases kind with
      | stop =>
        rw [hcaller]
        simp [ExecutionEffect.answerTo, waiterAnswer, List.replicate_succ]
      | await =>
        rw [hcaller] at hwaits
        exact absurd List.mem_cons_self hwaits
    · have hne : ((kind, caller) == (Waiter.stop, c)) = false := by
        simp [hcaller]
      rw [hne]
      simp [ExecutionEffect.answerTo, hcaller]

theorem answersTo_ready (hready : c ∉ e.readyWaiters) (answer : ExecutionAnswer) :
    answersTo c (e.readyWaiters.map fun caller => .reply caller answer) = [] := by
  apply answersTo_silent
  intro effect heffect
  obtain ⟨caller, hcaller, rfl⟩ := List.mem_map.mp heffect
  apply if_neg
  intro heq
  rw [heq] at hcaller
  exact hready hcaller

end Execution

end Callers

namespace Execution

section Before

/-- A turn that answers this caller nothing and lets it wait. -/
structure Quiet (c : Caller) (e : Execution) (t : ExecutionTurn) : Prop where
  answers : answersTo c t.effects = []
  waits : t.state.OnlyStops c
  stops : t.state.stops c = e.stops c
  pending : t.state.terminal = false

theorem terminal_eq_false : e.terminal = false ↔
    e.status.phase ≠ .finished ∧ e.status.phase ≠ .stopped ∧ e.status.phase ≠ .retained := by
  unfold terminal
  simp [and_assoc]

theorem terminal_stopping (h : e.terminal = false) : e.stopping.terminal = false := by
  unfold stopping
  rw [if_neg (by simp [h])]
  exact terminal_eq_false.mpr (by simp)

theorem waiters_stopping : e.stopping.waiters = e.waiters ∧
    e.stopping.readyWaiters = e.readyWaiters := by
  unfold stopping
  split
  · exact ⟨rfl, rfl⟩
  · exact ⟨rfl, rfl⟩

theorem apply_terminal (status : Status) (change : StatusChange)
    (h : status.phase ≠ .finished ∧ status.phase ≠ .stopped ∧ status.phase ≠ .retained) :
    (status.apply change).phase ≠ .finished ∧ (status.apply change).phase ≠ .stopped ∧
      (status.apply change).phase ≠ .retained := by
  cases change with
  | phase progress => cases progress <;> simp [Status.apply, Progress.phase]
  | directory directory => exact h
  | vmm vmm => exact h
  | osPid osPid => exact h

/-- Guards report no phase of a virtual machine that has finished. -/
theorem terminal_withChanges (h : e.terminal = false) (changes : List StatusChange) :
    (e.withChanges changes).terminal = false := by
  have hfold : ∀ changes : List StatusChange, ∀ status : Status,
      (status.phase ≠ .finished ∧ status.phase ≠ .stopped ∧ status.phase ≠ .retained) →
      (changes.foldl Status.apply status).phase ≠ .finished ∧
        (changes.foldl Status.apply status).phase ≠ .stopped ∧
        (changes.foldl Status.apply status).phase ≠ .retained := by
    intro changes
    induction changes with
    | nil => exact fun _ hstatus => hstatus
    | cons change rest ih => exact fun status hstatus => ih _ (apply_terminal status change hstatus)
  exact terminal_eq_false.mpr (hfold _ _ (terminal_eq_false.mp h))

variable (hwaits : e.OnlyStops c) (hpending : e.terminal = false)

include hwaits hpending

theorem quiet_idle : Quiet c e e.idle := ⟨rfl, hwaits, rfl, hpending⟩

omit hpending in
/-- Effects that are no answers to this caller, on the way to a state in which as many wait. -/
theorem quiet_emit {effects : List ExecutionEffect} {e' : Execution}
    (heffects : ∀ effect ∈ effects, effect.answerTo c = none) (hwaiters : e'.waiters = e.waiters)
    (hready : e'.readyWaiters = e.readyWaiters) (hpending' : e'.terminal = false) :
    Quiet c e (.emit effects e') := by
  refine ⟨answersTo_silent heffects, ⟨?_, ?_⟩, ?_, hpending'⟩
  · change (Waiter.await, c) ∉ e'.waiters
    rw [hwaiters]
    exact hwaits.await
  · change c ∉ e'.readyWaiters
    rw [hready]
    exact hwaits.ready
  · change e'.waiters.count _ = e.waiters.count _
    rw [hwaiters]

theorem quiet_replied {caller : Caller} (hne : caller ≠ c) (answer : ExecutionAnswer) :
    Quiet c e (e.replied caller answer) := by
  apply quiet_emit hwaits
  · intro effect heffect
    rw [List.mem_singleton.mp heffect]
    exact if_neg hne
  · rfl
  · rfl
  · exact hpending

omit hpending in
theorem quiet_beginCommand (handle : Pid) (options : CommandOptions) (caller : Pid) :
    Quiet c e (e.beginCommand handle options caller) := by
  apply quiet_emit hwaits
  · intro effect heffect
    simp only [List.mem_cons, List.not_mem_nil, or_false] at heffect
    rcases heffect with rfl | rfl | rfl
    · rfl
    · rfl
    · rfl
  · rfl
  · rfl
  · apply terminal_eq_false.mpr
    cases e.status.persistent <;> simp

theorem quiet_beginInitial (handle : Pid) : Quiet c e (beginInitial handle e) := by
  unfold beginInitial
  split
  · exact quiet_beginCommand hwaits _ _ _
  · exact quiet_idle hwaits hpending
  · exact quiet_idle hwaits hpending

theorem quiet_vmStatus (handle : Pid) (changes : List StatusChange) :
    Quiet c e (e.vmStatus handle changes) := by
  have hpending' := terminal_withChanges hpending changes
  have hwaits' : (e.withChanges changes).OnlyStops c := ⟨hwaits.await, hwaits.ready⟩
  unfold vmStatus
  dsimp only
  split
  · have hreplies := answersTo_ready hwaits'.ready (.ready (e.withChanges changes).status)
    have hfirst : Quiet c e (Turn.emit ((e.withChanges changes).readyWaiters.map fun caller =>
        .reply caller (.ready (e.withChanges changes).status))
        { e.withChanges changes with readyWaiters := [] }) :=
      ⟨hreplies, ⟨hwaits.await, List.not_mem_nil⟩, rfl, hpending'⟩
    have hrest := quiet_beginInitial hfirst.waits hfirst.pending handle
    refine ⟨?_, hrest.waits, hrest.stops, hrest.pending⟩
    rw [Turn.andThen_effects, answersTo_append, hfirst.answers, hrest.answers, List.nil_append]
  · exact ⟨rfl, hwaits', rfl, hpending'⟩

/-- A message of somebody else that is no report. -/
theorem quiet_handle (fresh : Pid) (hother : ¬ message.From c) (hreport : message.report? = none) :
    Quiet c e (e.handle fresh message) := by
  have hstopping := @waiters_stopping e
  cases message with
  | status caller => exact quiet_replied hwaits hpending hother _
  | cancel caller =>
    apply quiet_emit hwaits
    · intro effect heffect
      simp only [List.mem_cons, List.not_mem_nil, or_false] at heffect
      rcases heffect with rfl | rfl
      · rfl
      · exact if_neg hother
    · exact hstopping.1
    · exact hstopping.2
    · exact terminal_stopping hpending
  | stop caller =>
    have hne : caller ≠ c := hother
    change Quiet c e (e.stop caller)
    unfold stop
    rw [if_neg (by simp [hpending])]
    refine ⟨rfl, ⟨?_, ?_⟩, ?_, terminal_stopping hpending⟩
    · intro hmem
      rcases List.mem_cons.mp hmem with heq | hmem
      · cases heq
      · exact hwaits.await hmem
    · change c ∉ e.stopping.readyWaiters
      rw [hstopping.2]
      exact hwaits.ready
    · have hpair : (Waiter.stop, caller) ≠ (Waiter.stop, c) := by
        intro heq
        exact hne (Prod.mk.inj heq).2
      exact List.count_cons_of_ne hpair
  | awaitReady caller =>
    have hne : caller ≠ c := hother
    change Quiet c e (e.awaitReady caller)
    unfold awaitReady
    split
    · exact quiet_replied hwaits hpending hne _
    · split
      · exact quiet_replied hwaits hpending hne _
      · refine ⟨rfl, ⟨hwaits.await, ?_⟩, rfl, hpending⟩
        intro hmem
        rcases List.mem_cons.mp hmem with heq | hmem
        · exact hne heq.symm
        · exact hwaits.ready hmem
  | execute caller process options =>
    have hne : caller ≠ c := hother
    change Quiet c e (e.execute fresh caller process options)
    unfold execute
    split
    · exact quiet_replied hwaits hpending hne _
    · split
      · exact quiet_replied hwaits hpending hne _
      · split
        · exact quiet_replied hwaits hpending hne _
        · split
          · exact quiet_replied hwaits hpending hne _
          · have hbegin := quiet_beginCommand hwaits fresh options process
            refine ⟨?_, hbegin.waits, hbegin.stops, hbegin.pending⟩
            have hreply : answersTo c [.reply caller (.started fresh)] = [] := by
              apply answersTo_silent
              intro effect heffect
              rw [List.mem_singleton.mp heffect]
              exact if_neg hne
            rw [Turn.andThen_effects, answersTo_append, hbegin.answers]
            exact hreply
  | await caller =>
    have hne : caller ≠ c := hother
    change Quiet c e (e.await caller)
    unfold await
    rw [if_neg (by simp [hpending])]
    refine ⟨rfl, ⟨?_, hwaits.ready⟩, ?_, hpending⟩
    · intro hmem
      rcases List.mem_cons.mp hmem with heq | hmem
      · exact hne (Prod.mk.inj heq).2.symm
      · exact hwaits.await hmem
    · have hpair : (Waiter.await, caller) ≠ (Waiter.stop, c) := by
        intro heq
        cases heq
      exact List.count_cons_of_ne hpair
  | finish result =>
    apply quiet_emit hwaits
    · intro effect heffect
      rw [List.mem_singleton.mp heffect]
      rfl
    · exact hstopping.1
    · exact hstopping.2
    · exact terminal_stopping hpending
  | vmStatus changes => exact quiet_vmStatus hwaits hpending fresh changes
  | cancelCommand command reason =>
    change Quiet c e (e.cancelCommand command reason)
    unfold cancelCommand
    split
    · exact quiet_emit hwaits (fun effect heffect => by
        rw [List.mem_singleton.mp heffect]
        rfl) rfl rfl hpending
    · exact quiet_idle hwaits hpending
  | commandFinished command result =>
    change Quiet c e (e.commandFinished command result)
    unfold commandFinished
    split
    · apply quiet_emit hwaits
      · intro effect heffect
        rcases List.mem_append.mp heffect with hmem | hmem
        · obtain ⟨ref, -, rfl⟩ := List.mem_map.mp hmem
          rfl
        · rw [List.mem_singleton.mp hmem]
          rfl
      · rfl
      · rfl
      · apply terminal_eq_false.mpr
        by_cases hphase : e.status.phase = .stopping
        · simp [hphase]
        · simp [hphase]
    · exact ⟨rfl, ⟨hwaits.await, hwaits.ready⟩, rfl, hpending⟩
  | vmFinished result cleanup => cases hreport
  | down ref process =>
    change Quiet c e (e.down ref process)
    unfold down
    split
    · exact quiet_emit hwaits (fun effect heffect => by
        rw [List.mem_singleton.mp heffect]
        rfl) rfl rfl hpending
    · exact ⟨rfl, ⟨hwaits.await, hwaits.ready⟩, rfl, hpending⟩
  | guardDown reason => cases hreport

end Before

section Report

/-- What one who asks for the stop is told of a virtual machine that has finished. -/
def stopAnswer (result : Result) (cleanup : Cleanup) : ExecutionAnswer :=
  if cleanup = .ok then .ok else .result (some result)

/-- The caller does nothing but ask for the stop. -/
def StopsOnly (c : Caller) (message : ExecutionMessage) : Prop :=
  message.From c → message = .stop c

/-- The guard has reported, and nobody waits any more. -/
structure Settled (result : Result) (cleanup : Cleanup) (e : Execution) : Prop where
  terminal : e.terminal = true
  result : e.status.result = some result
  cleanup : e.status.cleanup = some cleanup
  waiters : e.waiters = []
  ready : e.readyWaiters = []

theorem Settled.stopResult (h : Settled result cleanup e) :
    e.stopResult = stopAnswer result cleanup := by
  unfold Execution.stopResult stopAnswer
  rw [h.cleanup, h.result]
  by_cases hok : cleanup = .ok
  · rw [if_pos (congrArg some hok), if_pos hok]
  · rw [if_neg (fun h => hok (Option.some.inj h)), if_neg hok]

theorem terminal_completedPhase (cleanup : Cleanup) (persistent : Bool) :
    completedPhase cleanup persistent = .finished ∨ completedPhase cleanup persistent = .stopped ∨
      completedPhase cleanup persistent = .retained := by
  unfold completedPhase
  split
  · exact Or.inr (Or.inr rfl)
  · split
    · exact Or.inr (Or.inl rfl)
    · exact Or.inl rfl

/-- The report answers all those who wait for the stop. -/
theorem settled_vmFinished (hwaits : e.OnlyStops c) (result : Result) (cleanup : Cleanup) :
    Settled result cleanup (e.vmFinished result cleanup).state ∧
      answersTo c (e.vmFinished result cleanup).effects =
        List.replicate (e.stops c) (stopAnswer result cleanup) := by
  have hsettled : Settled result cleanup (e.vmFinished result cleanup).state := by
    refine ⟨?_, rfl, rfl, rfl, rfl⟩
    have hphase := terminal_completedPhase cleanup e.status.persistent
    change ({ e.finished result cleanup with waiters := [] } : Execution).terminal = true
    unfold terminal finished
    simpa [or_assoc] using hphase
  refine ⟨hsettled, ?_⟩
  have hsame : (e.finished result cleanup).stopResult = stopAnswer result cleanup := by
    rw [← hsettled.stopResult]
    rfl
  unfold vmFinished
  dsimp only
  rw [Turn.emit_effects, answersTo_append, answersTo_append, answersTo_append,
    answersTo_waiters hwaits.await, answersTo_ready hwaits.ready, hsame]
  have hmonitor : answersTo c (e.commandMonitor.toList.map .demonitor) = [] := by
    apply answersTo_silent
    intro effect heffect
    obtain ⟨ref, -, rfl⟩ := List.mem_map.mp heffect
    rfl
  have hcommand : answersTo c (e.command.toList.map fun command => .commandFinished command
      (if result = .ok then .error (.atom "vm_stopped") else result)) = [] := by
    apply answersTo_silent
    intro effect heffect
    obtain ⟨command, -, rfl⟩ := List.mem_map.mp heffect
    rfl
  rw [hmonitor, hcommand]
  rfl

/-- A report before which nothing was known. -/
theorem settled_report (fresh : Pid) (hwaits : e.OnlyStops c) (hpending : e.terminal = false)
    (hreport : message.report? = some (result, cleanup)) :
    Settled result cleanup (e.handle fresh message).state ∧
      answersTo c (e.handle fresh message).effects =
        List.replicate (e.stops c) (stopAnswer result cleanup) := by
  cases message with
  | vmFinished result' cleanup' =>
    cases hreport
    exact settled_vmFinished hwaits result cleanup
  | guardDown reason =>
    cases hreport
    change Settled _ _ (e.guardDown reason).state ∧ answersTo c (e.guardDown reason).effects = _
    unfold guardDown
    rw [if_neg (by simp [hpending])]
    exact settled_vmFinished hwaits _ _
  | _ => cases hreport

/-- What is said after the report. -/
structure Says (c : Caller) (result : Result) (cleanup : Cleanup) (t : ExecutionTurn) : Prop where
  settled : Settled result cleanup t.state
  answers : ∀ answer ∈ answersTo c t.effects, answer = stopAnswer result cleanup

theorem Settled.says (h : Settled result cleanup e) {effects : List ExecutionEffect}
    (heffects : ∀ effect ∈ effects, effect.answerTo c = none) :
    Says c result cleanup (.emit effects e) := by
  refine ⟨h, ?_⟩
  intro answer hanswer
  rw [Turn.emit_effects, answersTo_silent heffects] at hanswer
  cases hanswer

theorem Settled.replied (h : Settled result cleanup e) {caller : Caller} (hne : caller ≠ c)
    (answer : ExecutionAnswer) : Says c result cleanup (e.replied caller answer) := by
  apply h.says
  intro effect heffect
  rw [List.mem_singleton.mp heffect]
  exact if_neg hne

theorem Settled.crashed (h : Settled result cleanup e) : Says c result cleanup e.crashed :=
  ⟨⟨h.terminal, h.result, h.cleanup, h.waiters, h.ready⟩, fun _ h => nomatch h⟩

theorem stopping_of_terminal (h : e.terminal = true) : e.stopping = e := by
  unfold stopping
  rw [if_pos h]

theorem phase_of_terminal (h : e.terminal = true) :
    e.status.phase ≠ .ready ∧ e.status.phase ≠ .runningCommand := by
  have hphase : e.status.phase = .finished ∨ e.status.phase = .stopped ∨
      e.status.phase = .retained := by
    unfold terminal at h
    simpa [or_assoc] using h
  rcases hphase with hphase | hphase | hphase
  · rw [hphase]
    exact ⟨nofun, nofun⟩
  · rw [hphase]
    exact ⟨nofun, nofun⟩
  · rw [hphase]
    exact ⟨nofun, nofun⟩

/-- Whoever asks after the report is told what it says. The guard sends nothing but its end. -/
theorem Settled.handle (h : Settled result cleanup e) (hstops : StopsOnly c message)
    (hguard : ¬ message.FromGuard) : Says c result cleanup (e.handle fresh message) := by
  have hother : ∀ caller, (message = .stop c → False) → message.From caller → caller ≠ c := by
    intro caller hnot hfrom heq
    rw [heq] at hfrom
    exact hnot (hstops hfrom)
  cases message with
  | status caller => exact h.replied (hother caller nofun rfl) _
  | cancel caller =>
    change Says c result cleanup (.emit [.finish e.guard .cancelled, .reply caller .ok] e.stopping)
    rw [stopping_of_terminal h.terminal]
    apply h.says
    intro effect heffect
    simp only [List.mem_cons, List.not_mem_nil, or_false] at heffect
    rcases heffect with rfl | rfl
    · rfl
    · exact if_neg (hother caller nofun rfl)
  | stop caller =>
    change Says c result cleanup (e.stop caller)
    unfold stop
    rw [if_pos h.terminal, h.stopResult]
    by_cases hcaller : caller = c
    · refine ⟨h, ?_⟩
      intro answer hanswer
      rw [hcaller] at hanswer
      have hsingle : answersTo c (e.replied c (stopAnswer result cleanup)).effects =
          [stopAnswer result cleanup] := by
        simp [answersTo, Execution.replied, ExecutionEffect.answerTo]
      rw [hsingle] at hanswer
      exact List.mem_singleton.mp hanswer
    · exact h.replied hcaller _
  | awaitReady caller =>
    change Says c result cleanup (e.awaitReady caller)
    have hphase := phase_of_terminal h.terminal
    unfold awaitReady
    rw [if_neg (by simp [hphase.1, hphase.2]), if_pos (by simp [h.terminal])]
    exact h.replied (hother caller nofun rfl) _
  | execute caller process options =>
    change Says c result cleanup (e.execute fresh caller process options)
    have hphase := phase_of_terminal h.terminal
    unfold execute
    split
    · exact h.replied (hother caller nofun rfl) _
    · split
      · exact h.replied (hother caller nofun rfl) _
      · rw [if_pos hphase.1]
        exact h.replied (hother caller nofun rfl) _
  | await caller =>
    change Says c result cleanup (e.await caller)
    unfold await
    rw [if_pos h.terminal]
    exact h.replied (hother caller nofun rfl) _
  | finish result' =>
    change Says c result cleanup (.emit [.finish e.guard result'] e.stopping)
    rw [stopping_of_terminal h.terminal]
    apply h.says
    intro effect heffect
    rw [List.mem_singleton.mp heffect]
    rfl
  | vmStatus changes => exact absurd trivial hguard
  | cancelCommand command reason =>
    change Says c result cleanup (e.cancelCommand command reason)
    unfold cancelCommand
    split
    · apply h.says
      intro effect heffect
      rw [List.mem_singleton.mp heffect]
      rfl
    · exact h.says fun _ h => nomatch h
  | commandFinished command result' => exact absurd trivial hguard
  | vmFinished result' cleanup' => exact absurd trivial hguard
  | down ref process =>
    change Says c result cleanup (e.down ref process)
    unfold down
    split
    · apply h.says
      intro effect heffect
      rw [List.mem_singleton.mp heffect]
      rfl
    · exact h.crashed
  | guardDown reason =>
    change Says c result cleanup (e.guardDown reason)
    unfold guardDown
    rw [if_pos h.terminal]
    exact h.says fun _ h => nomatch h

end Report

section Runs

/-- The message asks for the stop on behalf of this caller. -/
def isStop (c : Caller) : ExecutionMessage → Bool
  | .stop caller => caller = c
  | _ => false

/-- A run up to the report. -/
structure Waiting (c : Caller) (inputs : List (Pid × ExecutionMessage)) (e : Execution)
    (t : ExecutionTurn) : Prop where
  answers : answersTo c t.effects = []
  waits : t.state.OnlyStops c
  pending : t.state.terminal = false
  /-- An execution that has not died keeps all those who wait. -/
  stops : t.state.running = true →
    t.state.stops c = e.stops c + inputs.countP fun input => isStop c input.2

theorem isStop_iff : isStop c message = true ↔ message = .stop c := by
  cases message with
  | stop caller => simp [isStop]
  | _ => simp [isStop]

/-- The caller asks for the stop itself. -/
theorem waiting_stop (hwaits : e.OnlyStops c) (hpending : e.terminal = false) :
    Waiting c [(fresh, .stop c)] e (e.stop c) := by
  unfold stop
  rw [if_neg (by simp [hpending])]
  refine ⟨rfl, ⟨?_, ?_⟩, terminal_stopping hpending, ?_⟩
  · intro hmem
    rcases List.mem_cons.mp hmem with heq | hmem
    · cases heq
    · exact hwaits.await hmem
  · change c ∉ e.stopping.readyWaiters
    rw [waiters_stopping.2]
    exact hwaits.ready
  · intro _
    have hcount : ((Waiter.stop, c) :: e.waiters).count (Waiter.stop, c) =
        e.waiters.count (Waiter.stop, c) + 1 := List.count_cons_self
    have hone : [(fresh, ExecutionMessage.stop c)].countP (fun input => isStop c input.2) = 1 := by
      simp [isStop]
    rw [hone]
    exact hcount

theorem turn_waiting {input : Pid × ExecutionMessage} (hwaits : e.OnlyStops c)
    (hpending : e.terminal = false) (hstops : StopsOnly c input.2)
    (hreport : input.2.report? = none) : Waiting c [input] e (e.turn input) := by
  unfold turn
  by_cases hrunning : e.running = true
  · rw [if_pos hrunning]
    obtain ⟨fresh, message⟩ := input
    by_cases hstop : message = .stop c
    · rw [hstop]
      exact waiting_stop hwaits hpending
    · have hother : ¬ message.From c := fun hfrom => hstop (hstops hfrom)
      obtain ⟨hanswers, honly, hsame, hpending'⟩ :=
        quiet_handle hwaits hpending fresh hother hreport
      refine ⟨hanswers, honly, hpending', ?_⟩
      intro _
      have hnone : isStop c message = false := by
        rw [Bool.eq_false_iff]
        exact fun h => hstop (isStop_iff.mp h)
      have hzero : [(fresh, message)].countP (fun input => isStop c input.2) = 0 := by
        simp [hnone]
      rw [hzero]
      exact hsame
  · rw [if_neg hrunning]
    exact ⟨rfl, hwaits, hpending, fun h => absurd h hrunning⟩

/-- A process that has ended stays so. -/
theorem run_dead (inputs : List (Pid × ExecutionMessage)) (hdead : e.running = false) :
    run inputs e = e.idle := by
  induction inputs with
  | nil => rfl
  | cons input rest ih =>
    have hturn : e.turn input = e.idle := by
      unfold turn
      rw [if_neg (by simp [hdead])]
    unfold run
    rw [hturn]
    change (⟨(run rest e).state, [] ++ (run rest e).effects⟩ : ExecutionTurn) = e.idle
    rw [ih]
    rfl

theorem run_waiting {inputs : List (Pid × ExecutionMessage)} (hwaits : e.OnlyStops c)
    (hpending : e.terminal = false) (hstops : ∀ input ∈ inputs, StopsOnly c input.2)
    (hreports : ∀ input ∈ inputs, input.2.report? = none) : Waiting c inputs e (run inputs e) := by
  induction inputs generalizing e with
  | nil => exact ⟨rfl, hwaits, hpending, fun _ => rfl⟩
  | cons input rest ih =>
    have hfirst := turn_waiting hwaits hpending (hstops input List.mem_cons_self)
      (hreports input List.mem_cons_self)
    have hrest := ih hfirst.waits hfirst.pending
      (fun other hmem => hstops other (List.mem_cons_of_mem _ hmem))
      (fun other hmem => hreports other (List.mem_cons_of_mem _ hmem))
    refine ⟨?_, hrest.waits, hrest.pending, ?_⟩
    · change answersTo c ((e.turn input).effects ++ (run rest (e.turn input).state).effects) = []
      rw [answersTo_append, hfirst.answers, hrest.answers]
      rfl
    · intro hrunning
      have halive : (e.turn input).state.running = true := by
        by_contra hdead
        change (run rest (e.turn input).state).state.running = true at hrunning
        rw [run_dead rest (Bool.not_eq_true _ ▸ hdead)] at hrunning
        exact hdead hrunning
      have hone := hfirst.stops halive
      have hmore := hrest.stops hrunning
      have hsplit : (input :: rest).countP (fun input => isStop c input.2) =
          rest.countP (fun input => isStop c input.2) +
            [input].countP fun input => isStop c input.2 := by
        rw [← List.singleton_append, List.countP_append, Nat.add_comm]
      change (run rest (e.turn input).state).state.stops c = _
      rw [hmore, hone, hsplit]
      omega

/-- Once the guard has reported, everybody who asks is told the same. -/
theorem run_says {inputs : List (Pid × ExecutionMessage)} (h : Settled result cleanup e)
    (hstops : ∀ input ∈ inputs, StopsOnly c input.2)
    (hguard : ∀ input ∈ inputs, ¬ input.2.FromGuard) :
    ∀ answer ∈ answersTo c (run inputs e).effects, answer = stopAnswer result cleanup := by
  induction inputs generalizing e with
  | nil =>
    intro answer hanswer
    cases hanswer
  | cons input rest ih =>
    have hfirst : Says c result cleanup (e.turn input) := by
      unfold turn
      split
      · exact h.handle (hstops input List.mem_cons_self) (hguard input List.mem_cons_self)
      · exact h.says fun _ h => nomatch h
    have hrest := ih hfirst.settled
      (fun other hmem => hstops other (List.mem_cons_of_mem _ hmem))
      (fun other hmem => hguard other (List.mem_cons_of_mem _ hmem))
    intro answer hanswer
    change answer ∈ answersTo c
      ((e.turn input).effects ++ (run rest (e.turn input).state).effects) at hanswer
    rw [answersTo_append] at hanswer
    rcases List.mem_append.mp hanswer with hanswer | hanswer
    · exact hfirst.answers answer hanswer
    · exact hrest answer hanswer

theorem run_append (first second : List (Pid × ExecutionMessage)) (e : Execution) :
    (run (first ++ second) e).effects =
      (run first e).effects ++ (run second (run first e).state).effects := by
  induction first generalizing e with
  | nil => rfl
  | cons input rest ih =>
    change (e.turn input).effects ++ (run (rest ++ second) (e.turn input).state).effects =
      ((e.turn input).effects ++ (run rest (e.turn input).state).effects) ++ _
    rw [ih, List.append_assoc]
    rfl

/-- A life of an execution: messages before the report of the guard, the report, and
messages after it. The guard reports once, and nothing comes from it later but its end. -/
structure Life where
  options : ExecutionOptions
  process : Pid
  guard : Pid
  before : List (Pid × ExecutionMessage)
  report : ExecutionMessage
  result : Result
  cleanup : Cleanup
  after : List (Pid × ExecutionMessage)
  reported : report.report? = some (result, cleanup)
  unreported : ∀ input ∈ before, input.2.report? = none
  done : ∀ input ∈ after, ¬ input.2.FromGuard

/-- What the execution does in its life. -/
def Life.effects (life : Life) : List ExecutionEffect :=
  (run (life.before ++ (0, life.report) :: life.after)
    (start life.options life.process life.guard).state).effects

/-- The execution lives until the report comes. -/
def Life.Lasts (life : Life) : Prop :=
  (run life.before (start life.options life.process life.guard).state).state.running = true

/-- The caller does nothing in this life but ask for the stop. -/
def Life.StopsOnly (life : Life) (c : Caller) : Prop :=
  (∀ input ∈ life.before, Execution.StopsOnly c input.2) ∧
    ∀ input ∈ life.after, Execution.StopsOnly c input.2

/-- Whenever the stop is asked for, the answer is what the report of the guard says; those who
have asked before the report are answered by it. -/
theorem Life.stop_answered (life : Life) (hstops : life.StopsOnly c) :
    (∀ answer ∈ answersTo c life.effects, answer = stopAnswer life.result life.cleanup) ∧
      (life.Lasts → life.before.countP (fun input => isStop c input.2) ≤
        (answersTo c life.effects).length) := by
  have hstart : (start life.options life.process life.guard).state.OnlyStops c :=
    ⟨List.not_mem_nil, List.not_mem_nil⟩
  have hbefore := run_waiting hstart rfl hstops.1 life.unreported
  unfold Life.effects Life.Lasts
  generalize (start life.options life.process life.guard).state = e at hbefore hstart
  have heffects : answersTo c (run (life.before ++ (0, life.report) :: life.after) e).effects =
      answersTo c (((run life.before e).state.turn (0, life.report)).effects) ++
        answersTo c (run life.after
          ((run life.before e).state.turn (0, life.report)).state).effects := by
    rw [run_append, answersTo_append, hbefore.answers, List.nil_append, ← answersTo_append]
    rfl
  rw [heffects]
  cases hrunning : (run life.before e).state.running with
  | true =>
    have hturn : (run life.before e).state.turn (0, life.report) =
        (run life.before e).state.handle 0 life.report := by
      unfold turn
      rw [if_pos hrunning]
    obtain ⟨hsettled, hanswers⟩ :=
      settled_report 0 hbefore.waits hbefore.pending life.reported
    rw [hturn, hanswers]
    refine ⟨?_, ?_⟩
    · intro answer hanswer
      rcases List.mem_append.mp hanswer with hanswer | hanswer
      · exact List.eq_of_mem_replicate hanswer
      · exact run_says hsettled hstops.2 life.done answer hanswer
    · intro _
      rw [List.length_append, List.length_replicate, hbefore.stops hrunning]
      omega
  | false =>
    have hdead : run ((0, life.report) :: life.after) (run life.before e).state =
        (run life.before e).state.idle := run_dead _ hrunning
    have hnone : answersTo c (((run life.before e).state.turn (0, life.report)).effects) ++
        answersTo c (run life.after
          ((run life.before e).state.turn (0, life.report)).state).effects = [] := by
      rw [← answersTo_append]
      exact congrArg (fun t => answersTo c t.effects) hdead
    rw [hnone]
    refine ⟨?_, ?_⟩
    · intro answer hanswer
      cases hanswer
    · intro h
      cases h

end Runs

end Execution

end Sower.Vm
