import Sower.Vm.Answers
import Sower.Vm.ExecutionStops

/-!
# What a stop means

A virtual machine can be stopped through the ledger and through its execution. Both
answer with what the guard has reported. The execution turns a certified cleanup into
`:ok` for everybody; the ledger does so only for those who come after the completion,
and tells those who wait the result itself.
-/

namespace Sower.Vm

open Durable

variable {l l' : Ledger} {id : ℕ} {entry : Entry} {c : Caller}
  {result : Result} {cleanup : Cleanup} {w w' : World Ledger Effect}

section Reports

/-- `finish` of the guard: the result that is reported with a cleanup. -/
def guardReport (result : Result) (cleanup : Cleanup) (directory : Option String) : Result :=
  if cleanup = .ok then result else .cleanupUnconfirmed result cleanup directory

/-- Guards report success only with a certified cleanup. -/
theorem cleanup_of_guardReport {directory : Option String}
    (h : guardReport result cleanup directory = .ok) : cleanup = .ok := by
  unfold guardReport at h
  by_contra hfailed
  rw [if_neg hfailed] at h
  cases h

/-- The answer is `:ok`. -/
def Answer.isOk : Answer → Bool
  | .ok => true
  | .result result => result = some .ok
  | _ => false

/-- The answer is `:ok`. -/
def ExecutionAnswer.isOk : ExecutionAnswer → Bool
  | .ok => true
  | .result result => result = some .ok
  | _ => false

/-- `Manager.stop`: what the ledger answers. A ledger that ends before it does counts as
draining. -/
def managerStop (answers : List Answer) : Answer := answers.head?.getD (.refused .draining)

theorem isOk_stopAnswer : (Execution.stopAnswer result cleanup).isOk = true ↔
    cleanup = .ok ∨ result = .ok := by
  unfold Execution.stopAnswer
  by_cases hok : cleanup = .ok
  · rw [if_pos hok]
    exact ⟨fun _ => Or.inl hok, fun _ => rfl⟩
  · rw [if_neg hok]
    simp [ExecutionAnswer.isOk, hok]

end Reports

section Sessions

/-- A session of a ledger that is up is a run. -/
theorem run_session {allowed : LedgerOptions × Sight → Prop} {w₀ : World Ledger Effect}
    (inputs : List (Sight × Message))
    (h : Reachable ledger allowed (fun _ _ => True) w₀ w) (hup : w.memory = some l) :
    Reachable ledger allowed (fun _ _ => True) w₀ (w.after ledger (handleAll inputs l)) := by
  induction inputs generalizing w l with
  | nil =>
    have hsame : w.after ledger (handleAll [] l) = w := by
      obtain ⟨saved, memory, past, session⟩ := w
      cases hup
      change (⟨saved, some l, past, session ++ []⟩ : World Ledger Effect) = _
      rw [List.append_nil]
    rw [hsame]
    exact h
  | cons input rest ih =>
    have hfirst := h.step (.handle (i := input) hup trivial)
    have hrest := ih hfirst rfl
    have hsame : w.after ledger (handleAll (input :: rest) l) =
        (w.after ledger (handle input.1 input.2 l)).after ledger
          (handleAll rest (handle input.1 input.2 l).state) := World.after_andThen ledger w _ _
    rw [hsame]
    exact hrest

/-- The turns of a session that begins with a stop. -/
abbrev stopSession (caller : Caller) (id : ℕ) (inputs : List (Sight × Message))
    (l : Ledger) : LedgerTurn :=
  (stop caller id l).andThen (handleAll inputs)

/-- Where the answer comes at once, no other comes. -/
theorem answersTo_session_of_respond {inputs : List (Sight × Message)} (hl : l.Sound)
    (hfree : l.Free c) (hothers : ∀ input ∈ inputs, ¬ input.2.From c) {answer : Answer}
    (hstop : stop c id l = respond c answer l) :
    answersTo c (stopSession c id inputs l).effects = [answer] := by
  have hrest := (tells_handleAll inputs hl hothers).free hfree
  have hstate : (respond c answer l).state = l := rfl
  unfold stopSession
  rw [hstop, Turn.andThen_effects, answersTo_append, answersTo_respond, hstate, hrest.2]
  rfl

/-- A virtual machine that has completed: the answer comes at once. -/
theorem session_of_completed {inputs : List (Sight × Message)} (hl : l.Sound)
    (hfree : l.Free c) (hothers : ∀ input ∈ inputs, ¬ input.2.From c)
    (hlookup : l.entries.lookup id = some entry) (hdone : entry.active = false) :
    answersTo c (stopSession c id inputs l).effects =
      [if entry.status.cleanup = some .ok then .ok else .result entry.status.result] := by
  apply answersTo_session_of_respond hl hfree hothers
  unfold stop
  rw [hlookup]
  dsimp only
  rw [if_neg (by simp [hdone])]

theorem session_of_unknown {inputs : List (Sight × Message)} (hl : l.Sound)
    (hfree : l.Free c) (hothers : ∀ input ∈ inputs, ¬ input.2.From c)
    (hlookup : l.entries.lookup id = none) :
    answersTo c (stopSession c id inputs l).effects = [.refused .notFound] := by
  apply answersTo_session_of_respond hl hfree hothers
  unfold stop
  rw [hlookup]

/-- A virtual machine that is active: the answer comes with the completion. -/
theorem session_of_active {inputs : List (Sight × Message)} (hl : l.Sound)
    (hfree : l.Free c) (hothers : ∀ input ∈ inputs, ¬ input.2.From c)
    (hlookup : l.entries.lookup id = some entry) (hactive : entry.active = true) :
    (stopSession c id inputs l).state.Active id ∧
        answersTo c (stopSession c id inputs l).effects = [] ∨
      ∃ result cleanup,
        answersTo c (stopSession c id inputs l).effects = [.result (some result)] ∧
        (id, result, cleanup) ∈ (stopSession c id inputs l).state.history.outcomes := by
  have hstop : stop c id l = (Turn.emit (cancelEntry entry .ok) l).andThen (wait c id entry) := by
    unfold stop
    rw [hlookup]
    dsimp only
    rw [if_pos hactive]
  have hproper : Proper l (stop c id l) := proper_stop l hl
  have hsound := hproper.state.1
  have hnone : answersTo c (stop c id l).effects = [] := by
    rw [hstop, Turn.andThen_effects, answersTo_append, Turn.emit_effects, answersTo_cancelEntry]
    rfl
  have hwaits : (stop c id l).state.Waits c (.entry id) := by
    rw [hstop]
    exact waits_put hfree hlookup
  have hall := (tells_handleAll inputs hsound hothers).waits _ hwaits
  have hlater := (follows_handleAll inputs hsound).1
  rcases hall with ⟨hstill, hsilent⟩ | ⟨-, answer, hanswer, htold⟩
  · left
    refine ⟨active_of_waiting (c := c) hlater ?_, ?_⟩
    · have hone := hstill (.entry id)
      rw [if_pos rfl] at hone
      exact hone.symm ▸ Nat.one_pos
    · rw [Turn.andThen_effects, answersTo_append, hnone, hsilent]
      rfl
  · right
    obtain ⟨result, cleanup, rfl, hmem⟩ := htold
    refine ⟨result, cleanup, ?_, hmem⟩
    rw [Turn.andThen_effects, answersTo_append, hnone, hanswer]
    rfl

end Sessions

section Meaning

/-- When the answer to a stop is what it should be: the ledger knows the virtual machine, and
lives until it answers. One who comes after the completion meets no success without a
certified cleanup, one who waits for it a success if and only if the cleanup is certified. -/
structure Ledger.StopFits (l : Ledger) (id : ℕ) (completes : Prop) (result : Result)
    (cleanup : Cleanup) : Prop where
  known : id ∈ l.entries
  answered : l.Active id → ¬ completes → cleanup ≠ .ok
  late : ¬ l.Active id → result = .ok → cleanup = .ok
  waiting : l.Active id → completes → (result = .ok ↔ cleanup = .ok)

/-- What a later ledger has recorded of a virtual machine is what was recorded first. -/
theorem recorded_same (hsound : l'.Sound) (hevolves : l.Evolves l') {result' : Result}
    {cleanup' : Cleanup} (h : (id, result, cleanup) ∈ l'.history.outcomes)
    (h' : (id, result', cleanup') ∈ l.history.outcomes) :
    result = result' ∧ cleanup = cleanup' :=
  outcome_unique hsound h (hevolves.outcomes.subset h')

theorem not_active_of_recorded (hl : l.Sound) (h : (id, result, cleanup) ∈ l.history.outcomes) :
    ¬ l.Active id := by
  rintro ⟨entry, hlookup, hactive⟩
  exact ((hl.entries id entry hlookup).pending hactive).2 _ h rfl

theorem sound_session {inputs : List (Sight × Message)} (hl : l.Sound) :
    (stopSession c id inputs l).state.Sound ∧
      l.Evolves (stopSession c id inputs l).state := by
  have hproper : Proper l (stop c id l) := proper_stop l hl
  have hrest := follows_handleAll inputs hproper.state.1
  exact ⟨hrest.1, hproper.state.2.1.evolves.trans hrest.2⟩

theorem managerStop_isOk_iff {inputs : List (Sight × Message)} (hl : l.Sound) (hfree : l.Free c)
    (hothers : ∀ input ∈ inputs, ¬ input.2.From c) (hid : id < l.history.ids) (hl' : l'.Sound)
    (hevolves : (stopSession c id inputs l).state.Evolves l')
    (houtcome : (id, result, cleanup) ∈ l'.history.outcomes) :
    ((managerStop (answersTo c (stopSession c id inputs l).effects)).isOk = true ↔
        cleanup = .ok) ↔
      l.StopFits id (¬ (stopSession c id inputs l).state.Active id) result cleanup := by
  have hsession := @sound_session l id c inputs hl
  have hwhole := hsession.2.trans hevolves
  cases hlookup : l.entries.lookup id with
  | none =>
    have hunknown : id ∉ l.entries := AList.lookup_eq_none.mp hlookup
    have hgone : l'.entries.lookup id = none := by
      apply AList.lookup_eq_none.mpr
      intro hmem
      exact hunknown (hwhole.entries id hmem hid)
    have hok := hl'.gone id result cleanup houtcome hgone
    rw [session_of_unknown hl hfree hothers hlookup]
    constructor
    · intro hiff
      cases hiff.mpr hok
    · intro hfits
      exact absurd hfits.known hunknown
  | some entry =>
    have hknown : id ∈ l.entries := AList.lookup_isSome.mp (hlookup ▸ rfl)
    cases hphase : entry.active with
    | false =>
      have hinactive : ¬ l.Active id := by
        rintro ⟨found, hfound, hactive⟩
        rw [hlookup] at hfound
        cases hfound
        rw [hphase] at hactive
        cases hactive
      obtain ⟨-, result', cleanup', hresult, hcleanup, hmem⟩ :=
        (hl.entries id entry hlookup).completed hphase
      obtain ⟨rfl, rfl⟩ := recorded_same hl' hwhole houtcome hmem
      rw [session_of_completed hl hfree hothers hlookup hphase, hresult, hcleanup]
      constructor
      · intro hiff
        refine ⟨hknown, fun h => absurd h hinactive, ?_, fun h => absurd h hinactive⟩
        intro _ hok
        by_contra hfailed
        rw [if_neg (fun h => hfailed (Option.some.inj h)), hok] at hiff
        exact hfailed (hiff.mp rfl)
      · intro hfits
        by_cases hok : cleanup = .ok
        · rw [if_pos (congrArg some hok)]
          exact ⟨fun _ => hok, fun _ => rfl⟩
        · rw [if_neg (fun h => hok (Option.some.inj h))]
          constructor
          · intro hanswer
            have hsuccess : result = .ok := by
              simpa [managerStop, Answer.isOk] using hanswer
            exact hfits.late hinactive hsuccess
          · intro h
            exact absurd h hok
    | true =>
      have hactive : l.Active id := ⟨entry, hlookup, hphase⟩
      rcases session_of_active hl hfree hothers hlookup hphase with
        ⟨hstill, hnone⟩ | ⟨result', cleanup', hanswer, hmem⟩
      · rw [hnone]
        constructor
        · intro hiff
          refine ⟨hknown, ?_, fun h => absurd hactive h, fun _ h => absurd hstill h⟩
          intro _ _ hok
          cases hiff.mpr hok
        · intro hfits
          have hfailed := hfits.answered hactive (not_not.mpr hstill)
          exact ⟨(fun h => nomatch h), fun h => absurd h hfailed⟩
      · obtain ⟨rfl, rfl⟩ := recorded_same hl' hevolves houtcome hmem
        have hdone := not_active_of_recorded hsession.1 hmem
        have hisOk : (managerStop [.result (some result)]).isOk = true ↔ result = .ok := by
          simp [managerStop, Answer.isOk]
        rw [hanswer, hisOk]
        constructor
        · intro hiff
          exact ⟨hknown, fun _ h => absurd hdone h, fun h => absurd hactive h, fun _ _ => hiff⟩
        · intro hfits
          exact hfits.waiting hactive hdone

/-- A stop of the ledger means the same as a certified cleanup, and the same as a stop of the
execution, exactly where it fits: for every run up to the stop, every order of the messages
behind it, every later run in which the outcome is recorded, and every life of the execution. -/
theorem stop_means_cleanup_iff (hrun : Runs .initial w) (hup : w.memory = some l)
    (hid : id < l.history.ids) (hfree : l.Free c) {inputs : List (Sight × Message)}
    (hothers : ∀ input ∈ inputs, ¬ input.2.From c)
    (hlater : Runs (w.after ledger (stopSession c id inputs l)) w')
    (hl' : w'.saved = some l') (houtcome : (id, result, cleanup) ∈ l'.history.outcomes)
    (life : Execution.Life) :
    (∀ caller, life.StopsOnly caller → ∀ answer ∈ Execution.answersTo caller life.effects,
        answer = Execution.stopAnswer life.result life.cleanup) ∧
      (((managerStop (answersTo c (stopSession c id inputs l).effects)).isOk = true ↔
          cleanup = .ok) ∧
        ((Execution.stopAnswer life.result life.cleanup).isOk = true ↔
          (managerStop (answersTo c (stopSession c id inputs l).effects)).isOk = true) ↔
        l.StopFits id (¬ (stopSession c id inputs l).state.Active id) result cleanup ∧
          (life.cleanup = .ok ∨ life.result = .ok ↔ cleanup = .ok)) := by
  have hl : l.Sound := sound_run hrun l (Or.inr hup)
  have hsession : stopSession c id inputs l =
      handleAll (({}, .call c (.stop id)) :: inputs) l := rfl
  have hreach : Runs .initial (w.after ledger (stopSession c id inputs l)) := by
    rw [hsession]
    exact run_session _ hrun hup
  have hsaved : (w.after ledger (stopSession c id inputs l)).saved =
      some (stopSession c id inputs l).state := synchronous_run hreach _ rfl
  obtain ⟨hsound, hevolves⟩ := evolves_run hreach hlater hsaved l' (Or.inl hl')
  have hmeans := managerStop_isOk_iff hl hfree hothers hid hsound hevolves houtcome
  refine ⟨fun caller hstops => (life.stop_answered hstops).1, ?_⟩
  rw [isOk_stopAnswer, hmeans]
  constructor
  · rintro ⟨hfits, hagrees⟩
    exact ⟨hfits, hagrees.trans (hmeans.mpr hfits)⟩
  · rintro ⟨hfits, hagrees⟩
    exact ⟨hfits, hagrees.trans (hmeans.mpr hfits).symm⟩

end Meaning

section Samples

theorem free_of_absent (hentries : ∀ e ∈ l.entries.entries, c ∉ e.2.waiters)
    (hshutdown : c ∉ l.shutdownWaiters) : l.Free c := by
  intro place
  cases place with
  | shutdown => exact List.count_eq_zero.mpr hshutdown
  | entry id =>
    cases hlookup : l.entries.lookup id with
    | none => simp [Ledger.waiting, hlookup]
    | some entry =>
      rw [waiting_of_lookup hlookup]
      exact List.count_eq_zero.mpr (hentries ⟨id, entry⟩ (AList.mem_entries.mpr hlookup))

/-- A garden that keeps results. -/
def keepsResults : LedgerOptions := { twoMachines with resultLimit := 2 }

/-- A virtual machine for one command, with its guard at work. -/
def commandStarted : World Ledger Effect :=
  ((((World.initial.booted ledger (keepsResults, {})).handled ledger
    ({}, .call 1 (.attachSupervisor 2))).handled ledger ({}, .call 2 (.attachManager 3))).handled
    ledger ({}, .call 3 (.start { command := true, owner := 9 } (.ok 10)))).handled
    ledger ({}, .call 4 (.guardStarted 0 11))

theorem run_commandStarted : Runs .initial commandStarted :=
  ((((Reachable.refl.booted rfl trivial).handled trivial).handled trivial).handled trivial).handled
    trivial

/-- The guard reports the exit of the command, and that all is cleaned up. -/
def exitReported (caller : Caller) : Sight × Message :=
  ({}, .call caller (.finished 0 11 (.value (.atom "exit_status")) .ok))

/-- The execution of this virtual machine: a caller asks for the stop, and the guard reports. -/
def commandLife : Execution.Life where
  options := { executionId := 0, owner := 9, command := some {}, managed := true }
  process := 10
  guard := 11
  before := [(12, .vmStatus [.phase .ready]), (13, .stop 20)]
  report := .vmFinished (.value (.atom "exit_status")) .ok
  result := .value (.atom "exit_status")
  cleanup := .ok
  after := []
  reported := rfl
  unreported := by
    intro input hmem
    simp only [List.mem_cons, List.not_mem_nil, or_false] at hmem
    rcases hmem with rfl | rfl
    · rfl
    · rfl
  done := by
    intro input hmem
    cases hmem

/-- A command exits by itself while its virtual machine is asked to stop, and the cleanup is
certified. The ledger tells the one who waits the result of the command. It tells one who
comes later `:ok`, and so does the execution in any case. -/
theorem waiting_stop_told_result : ∃ l, commandStarted.memory = some l ∧
    (0, .value (.atom "exit_status"), .ok) ∈
      (stopSession 5 0 [exitReported 6] l).state.history.outcomes ∧
    managerStop (answersTo 5 (stopSession 5 0 [exitReported 6] l).effects) =
      .result (some (.value (.atom "exit_status"))) ∧
    (managerStop (answersTo 5 (stopSession 5 0 [exitReported 6] l).effects)).isOk = false ∧
    managerStop (answersTo 7 (stopSession 7 0 []
      (stopSession 5 0 [exitReported 6] l).state).effects) = .ok ∧
    Execution.answersTo 20 commandLife.effects = [.ok] := by
  obtain ⟨l, hl⟩ := Option.isSome_iff_exists.mp
    (by decide +kernel : commandStarted.memory.isSome = true)
  have hall : ∀ l ∈ commandStarted.memory,
      (0, .value (.atom "exit_status"), .ok) ∈
        (stopSession 5 0 [exitReported 6] l).state.history.outcomes ∧
      managerStop (answersTo 5 (stopSession 5 0 [exitReported 6] l).effects) =
        .result (some (.value (.atom "exit_status"))) ∧
      (managerStop (answersTo 5 (stopSession 5 0 [exitReported 6] l).effects)).isOk = false ∧
      managerStop (answersTo 7 (stopSession 7 0 []
        (stopSession 5 0 [exitReported 6] l).state).effects) = .ok := by
    decide +kernel
  obtain ⟨hmem, hanswer, hfailed, hlate⟩ := hall l hl
  exact ⟨l, hl, hmem, hanswer, hfailed, hlate, by decide +kernel⟩

/-- The same virtual machine, stopped by its caller: the guard reports success, and all agree. -/
theorem stop_means_cleanup_iff_stopped : ∃ l, commandStarted.memory = some l ∧
    ((managerStop (answersTo 5 (stopSession 5 0
      [({}, .call 6 (.finished 0 11 .ok .ok))] l).effects)).isOk = true ↔ Cleanup.ok = .ok) := by
  obtain ⟨l, hl⟩ := Option.isSome_iff_exists.mp
    (by decide +kernel : commandStarted.memory.isSome = true)
  have hall : ∀ l ∈ commandStarted.memory, 0 < l.history.ids ∧ 0 ∈ l.entries ∧
      (∀ e ∈ l.entries.entries, 5 ∉ e.2.waiters) ∧ 5 ∉ l.shutdownWaiters ∧
      (0, .ok, .ok) ∈ (stopSession 5 0
        [({}, .call 6 (.finished 0 11 .ok .ok))] l).state.history.outcomes ∧
      answersTo 5 (stopSession 5 0 [({}, .call 6 (.finished 0 11 .ok .ok))] l).effects =
        [.result (some .ok)] := by
    decide +kernel
  obtain ⟨hid, hknown, hentries, hshutdown, hmem, hanswer⟩ := hall l hl
  have hothers : ∀ input ∈ [(({} : Sight), Message.call 6 (.finished 0 11 .ok .ok))],
      ¬ input.2.From 5 := by
    intro input hinput
    rw [List.mem_singleton.mp hinput]
    intro hfrom
    change (6 : ℕ) = 5 at hfrom
    omega
  have hsaved := synchronous_run (run_session (({}, .call 5 (.stop 0)) ::
    [({}, .call 6 (.finished 0 11 .ok .ok))]) run_commandStarted hl) _ rfl
  have hmeans := (stop_means_cleanup_iff run_commandStarted hl hid
    (free_of_absent hentries hshutdown) hothers Reachable.refl hsaved hmem commandLife).2
  have hdone := not_active_of_recorded
    (sound_session (sound_run run_commandStarted l (Or.inr hl))).1 hmem
  refine ⟨l, hl, (hmeans.mpr ⟨?_, ?_⟩).1⟩
  · exact ⟨hknown, fun _ h => absurd hdone h, fun _ _ => rfl,
      fun _ _ => ⟨fun _ => rfl, fun _ => rfl⟩⟩
  · exact ⟨fun _ => rfl, fun _ => Or.inl rfl⟩

end Samples

end Sower.Vm
