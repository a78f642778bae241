import Sower.Vm.LedgerRuns

/-!
# Those who wait for the ledger

A caller waits with an entry, for the virtual machine, or with the ledger, for its
shutdown. Completions, deadlines and the shutdown release those who wait, each of
them with one answer. No part of a turn loses a caller or answers one twice.
-/

namespace Sower.Vm

open Durable

variable {l l' l₁ : Ledger} {id : ℕ} {entry entry' : Entry} {sight : Sight} {c caller : Caller}

section Places

/-- Where a caller waits. -/
inductive Place where
  | entry (id : ℕ)
  | shutdown
  deriving DecidableEq

/-- How often a caller waits in a place. -/
def Ledger.waiting (l : Ledger) (c : Caller) : Place → ℕ
  | .entry id => (l.entries.lookup id).elim 0 fun entry => entry.waiters.count c
  | .shutdown => l.shutdownWaiters.count c

/-- The caller waits nowhere. -/
def Ledger.Free (l : Ledger) (c : Caller) : Prop := ∀ place, l.waiting c place = 0

/-- The caller waits once in this place, and nowhere else. -/
def Ledger.Waits (l : Ledger) (c : Caller) (place : Place) : Prop :=
  ∀ other, l.waiting c other = if other = place then 1 else 0

/-- The answer that an effect gives to a caller. -/
def Effect.answerTo (c : Caller) : Effect → Option Answer
  | .reply caller answer => if caller = c then some answer else none
  | _ => none

/-- The virtual machine whose start an effect tells to be accepted. -/
def Effect.accepted : Effect → Option ℕ
  | .reply _ (.started id) => some id
  | _ => none

/-- The answers to a caller. -/
def answersTo (c : Caller) (effects : List Effect) : List Answer :=
  effects.filterMap (Effect.answerTo c)

theorem answersTo_append (es es' : List Effect) :
    answersTo c (es ++ es') = answersTo c es ++ answersTo c es' :=
  List.filterMap_append

theorem answersTo_silent {effects : List Effect} (h : ∀ e ∈ effects, e.answerTo c = none) :
    answersTo c effects = [] :=
  List.filterMap_eq_nil_iff.mpr h

/-- One answer to each of those who wait. -/
theorem answersTo_replies (callers : List Caller) (answer : Answer) :
    answersTo c (callers.map fun caller => .reply caller answer) =
      List.replicate (callers.count c) answer := by
  induction callers with
  | nil => rfl
  | cons caller rest ih =>
    have hcons : answersTo c ((caller :: rest).map fun caller => Effect.reply caller answer) =
        (if caller = c then [answer] else []) ++ answersTo c (rest.map fun caller =>
          Effect.reply caller answer) := by
      simp only [answersTo, List.map_cons, List.filterMap_cons, Effect.answerTo]
      split <;> rename_i h <;> split at h <;> simp_all
    rw [hcons, ih, List.count_cons]
    split
    · rename_i heq
      simp [heq, List.replicate_succ]
    · rename_i hne
      simp [hne]

theorem waiting_congr (hentries : l'.entries = l.entries)
    (hwaiters : l'.shutdownWaiters = l.shutdownWaiters) (place : Place) :
    l'.waiting c place = l.waiting c place := by
  cases place with
  | entry id => simp only [Ledger.waiting, hentries]
  | shutdown => simp only [Ledger.waiting, hwaiters]

/-- An entry with as many who wait takes the place of the one that was there. -/
theorem waiting_put (hlookup : l.entries.lookup id = some entry)
    (hcount : entry'.waiters.count c = entry.waiters.count c) (place : Place) :
    (l.put id entry').waiting c place = l.waiting c place := by
  cases place with
  | entry other =>
    by_cases hother : other = id
    · subst hother
      simp [Ledger.waiting, Ledger.put, hlookup, hcount]
    · simp [Ledger.waiting, Ledger.put, AList.lookup_insert_ne hother]
  | shutdown => rfl

theorem waiting_of_lookup (hlookup : l.entries.lookup id = some entry) :
    l.waiting c (.entry id) = entry.waiters.count c := by
  simp only [Ledger.waiting, hlookup, Option.elim_some]

/-- Who waits with an entry waits for a virtual machine that is active. -/
theorem active_of_waiting (hl : l.Sound) (h : 0 < l.waiting c (.entry id)) : l.Active id := by
  cases hlookup : l.entries.lookup id with
  | none =>
    rw [Ledger.waiting, hlookup] at h
    cases h
  | some entry =>
    rw [waiting_of_lookup hlookup] at h
    refine ⟨entry, hlookup, ?_⟩
    by_contra hdone
    have hempty := ((hl.entries id entry hlookup).completed (Bool.not_eq_true _ ▸ hdone)).1
    rw [hempty] at h
    cases h

theorem Ledger.Free.of_waiting (h : l.Free c) (hsame : ∀ place, l'.waiting c place =
    l.waiting c place) : l'.Free c := fun place => (hsame place).trans (h place)

theorem Ledger.Waits.of_waiting {place : Place} (h : l.Waits c place)
    (hsame : ∀ place, l'.waiting c place = l.waiting c place) : l'.Waits c place :=
  fun other => (hsame other).trans (h other)

end Places

section Telling

/-- What an answer to one who waited in a place says, of the ledger then and afterwards. -/
def Place.Told (l l' : Ledger) (answer : Answer) : Place → Prop
  | .entry id => ∃ result cleanup, answer = .result (some result) ∧
      (id, result, cleanup) ∈ l'.history.outcomes
  | .shutdown => answer = .ok → ∀ id ∈ l.entries, ∃ result, (id, result, .ok) ∈ l'.history.outcomes

/-- A part of a turn answers a caller once when it does not wait any more, and not before. -/
structure Tells (c : Caller) (l : Ledger) (t : LedgerTurn) : Prop where
  free : l.Free c → t.state.Free c ∧ answersTo c t.effects = []
  waits : ∀ place, l.Waits c place → t.state.Waits c place ∧ answersTo c t.effects = [] ∨
    t.state.Free c ∧ ∃ answer, answersTo c t.effects = [answer] ∧ place.Told l t.state answer

/-- What has been told stays true. -/
theorem Place.Told.mono {place : Place} {answer : Answer} {l₂ : Ledger}
    (h : place.Told l₁ l' answer) (hbefore : l.Evolves l₁) (hmid : l₁.Evolves l')
    (hafter : l'.Evolves l₂) : place.Told l l₂ answer := by
  cases place with
  | entry id =>
    obtain ⟨result, cleanup, hanswer, hmem⟩ := h
    exact ⟨result, cleanup, hanswer, hafter.outcomes.subset hmem⟩
  | shutdown =>
    intro hok id hid
    by_cases hthere : id ∈ l₁.entries
    · obtain ⟨result, hmem⟩ := h hok id hthere
      exact ⟨result, hafter.outcomes.subset hmem⟩
    · obtain ⟨result, hmem⟩ := hbefore.kept id hid hthere
      exact ⟨result, hafter.outcomes.subset (hmid.outcomes.subset hmem)⟩

theorem Tells.andThen {t : LedgerTurn} {f : Ledger → LedgerTurn} (ht : Tells c l t)
    (hf : Tells c t.state (f t.state)) (hfirst : l.Evolves t.state)
    (hsecond : t.state.Evolves (f t.state).state) : Tells c l (t.andThen f) where
  free hfree := by
    obtain ⟨hfree, hnone⟩ := ht.free hfree
    obtain ⟨hfree', hnone'⟩ := hf.free hfree
    exact ⟨hfree', by rw [Turn.andThen_effects, answersTo_append, hnone, hnone', List.nil_append]⟩
  waits place hwaits := by
    rw [Turn.andThen_effects, answersTo_append]
    rcases ht.waits place hwaits with ⟨hstill, hnone⟩ | ⟨hfree, answer, hanswer, htold⟩
    · rw [hnone, List.nil_append]
      rcases hf.waits place hstill with hstill' | ⟨hfree, answer, hanswer, htold⟩
      · exact Or.inl hstill'
      · exact Or.inr ⟨hfree, answer, hanswer, htold.mono hfirst hsecond .refl⟩
    · obtain ⟨hfree', hnone'⟩ := hf.free hfree
      refine Or.inr ⟨hfree', answer, ?_, htold.mono .refl hfirst hsecond⟩
      rw [hanswer, hnone', List.append_nil]

/-- A part that moves nobody and answers nobody. -/
theorem tells_mute {t : LedgerTurn} (hsame : ∀ place, t.state.waiting c place = l.waiting c place)
    (hnone : answersTo c t.effects = []) : Tells c l t where
  free hfree := ⟨hfree.of_waiting hsame, hnone⟩
  waits _ hwaits := Or.inl ⟨hwaits.of_waiting hsame, hnone⟩

/-- A part that starts from a ledger in which as many wait. -/
theorem Tells.from {t : LedgerTurn} (hsame : ∀ place, l₁.waiting c place = l.waiting c place)
    (h : Tells c l₁ t) (hbefore : l.Evolves l₁) (hafter : l₁.Evolves t.state) : Tells c l t where
  free hfree := h.free (hfree.of_waiting hsame)
  waits place hwaits := by
    rcases h.waits place (hwaits.of_waiting hsame) with hstill | ⟨hfree, answer, hanswer, htold⟩
    · exact Or.inl hstill
    · exact Or.inr ⟨hfree, answer, hanswer, htold.mono hbefore hafter .refl⟩

/-- A part of a turn that keeps the accounts, tells a caller and accepts no start. -/
structure Fair (c : Caller) (l : Ledger) (t : LedgerTurn) : Prop where
  proper : Proper l t
  tells : Tells c l t
  mild : ∀ e ∈ t.effects, e.accepted = none

/-- A part that does so from any sound ledger. -/
def FairPart (c : Caller) (f : Ledger → LedgerTurn) : Prop :=
  ∀ l : Ledger, l.Sound → Fair c l (f l)

theorem Fair.andThen {t : LedgerTurn} {f : Ledger → LedgerTurn} (ht : Fair c l t)
    (hf : FairPart c f) : Fair c l (t.andThen f) := by
  have hstate := ht.proper.state
  have hrest := hf t.state hstate.1
  refine ⟨ht.proper.andThen fun l' hl' => (hf l' hl').proper,
    ht.tells.andThen hrest.tells hstate.2.1.evolves hrest.proper.state.2.1.evolves, fun e he => ?_⟩
  rcases List.mem_append.mp he with he | he
  · exact ht.mild e he
  · exact hrest.mild e he

theorem Fair.from {t : LedgerTurn} (hsame : ∀ place, l₁.waiting c place = l.waiting c place)
    (hmoves : l.Moves l₁) (hbounds : l.Bounds l₁) (h : Fair c l₁ t) : Fair c l t :=
  ⟨h.proper.from hmoves hbounds,
    h.tells.from hsame hmoves.evolves h.proper.state.2.1.evolves, h.mild⟩

end Telling

section Parts

theorem fair_still (hl : l.Sound) : Fair c l (still l) :=
  ⟨proper_still hl, tells_mute (fun _ => rfl) rfl, fun _ he => by cases he⟩

theorem fair_persist : FairPart c persist := by
  refine fun l hl => ⟨proper_persist l hl, tells_mute (fun _ => rfl) rfl, fun e he => ?_⟩
  rw [List.mem_singleton.mp he]
  rfl

/-- The effect is no answer to a caller, accepts nothing and stores nothing. -/
structure Effect.Mute (c : Caller) (e : Effect) : Prop where
  stored : e.stored = none
  answerTo : e.answerTo c = none
  accepted : e.accepted = none

/-- Mute effects, after which as many wait. -/
theorem tells_silent {effects : List Effect} (hsame : ∀ place, l'.waiting c place =
    l.waiting c place) (hmute : ∀ e ∈ effects, e.Mute c) : Tells c l (.emit effects l') :=
  tells_mute hsame (answersTo_silent fun e he => (hmute e he).answerTo)

theorem fair_emit {effects : List Effect} (hmute : ∀ e ∈ effects, e.Mute c) :
    FairPart c (Turn.emit effects) :=
  fun l hl => ⟨proper_emit (fun e he => (hmute e he).stored) l hl,
    tells_silent (fun _ => rfl) hmute, fun e he => (hmute e he).accepted⟩

/-- An answer to somebody else. -/
theorem mute_reply {answer : Answer} (hne : caller ≠ c) (hanswer : ∀ id, answer ≠ .started id) :
    (Effect.reply caller answer).Mute c where
  stored := rfl
  answerTo := if_neg hne
  accepted := by
    cases answer with
    | started id => exact absurd rfl (hanswer id)
    | _ => rfl

theorem fair_respond (hne : caller ≠ c) {answer : Answer} (hanswer : ∀ id, answer ≠ .started id) :
    FairPart c (respond caller answer) := by
  refine fun l hl => (fair_persist l hl).andThen (fair_emit fun e he => ?_)
  rw [List.mem_singleton.mp he]
  exact mute_reply hne hanswer

theorem mute_cancelEntry {result : Result} {e : Effect} (he : e ∈ cancelEntry entry result) :
    e.Mute c := by
  unfold cancelEntry at he
  split at he
  · rw [List.mem_singleton.mp he]
    exact ⟨rfl, rfl, rfl⟩
  · rw [List.mem_singleton.mp he]
    exact ⟨rfl, rfl, rfl⟩
  · cases he

theorem fair_drain : FairPart c drain := by
  refine fun l hl => fair_emit (fun e he => ?_) l hl
  obtain ⟨x, -, hx⟩ := List.mem_flatMap.mp he
  split at hx
  · exact mute_cancelEntry hx
  · cases hx

theorem fair_monitor (pid : Option Pid) (kind : Kind) : FairPart c (monitor pid kind) := by
  intro l hl
  cases pid with
  | none => exact fair_still hl
  | some pid =>
    have hmute : ∀ e ∈ (monitor (some pid) kind l).effects, e.Mute c := by
      intro e he
      rcases List.mem_append.mp he with he | he
      · obtain ⟨m, -, rfl⟩ := List.mem_map.mp he
        exact ⟨rfl, rfl, rfl⟩
      · rw [List.mem_singleton.mp he]
        exact ⟨rfl, rfl, rfl⟩
    exact ⟨proper_monitor (some pid) kind l hl, tells_silent (waiting_congr rfl rfl) hmute,
      fun e he => (hmute e he).accepted⟩

theorem fair_armTimer : FairPart c armTimer := by
  refine fun l hl => ⟨proper_armTimer l hl, ?_, fun e he => ?_⟩
  · unfold armTimer
    split
    · exact (fair_still hl).tells
    · exact tells_mute (waiting_congr rfl rfl) rfl
  · unfold armTimer at he
    split at he
    · cases he
    · rw [List.mem_singleton.mp he]
      rfl

/-- When a shutdown is answered with success, all entries are certified. -/
theorem certified_of_shutdownResult (hl : l.Sound) (h : shutdownResult l = .ok) :
    ∀ id ∈ l.entries, ∃ result, (id, result, .ok) ∈ l.history.outcomes := by
  intro id hid
  obtain ⟨entry, hlookup⟩ := Option.isSome_iff_exists.mp (AList.lookup_isSome.mpr hid)
  have hsound := hl.entries id entry hlookup
  have hempty : l.incomplete = [] := by
    by_contra hne
    rw [shutdownResult, if_neg hne] at h
    cases h
  have hreleased : entry.reserved = false := by
    by_contra hreserved
    have hmem := List.filterMap_eq_nil_iff.mp hempty ⟨id, entry⟩ (AList.mem_entries.mpr hlookup)
    rw [if_pos (Bool.not_eq_false _ ▸ hreserved)] at hmem
    cases hmem
  have hok : entry.status.cleanup = some .ok := by
    rw [hsound.reserved] at hreleased
    exact not_not.mp (of_decide_eq_false hreleased)
  have hdone : entry.active = false := by
    by_contra hactive
    rw [(hsound.pending (Bool.not_eq_false _ ▸ hactive)).1] at hok
    cases hok
  obtain ⟨-, result, cleanup, -, hcleanup, hmem⟩ := hsound.completed hdone
  rw [hok] at hcleanup
  cases hcleanup
  exact ⟨result, hmem⟩

/-- All who wait for the shutdown are answered, with what is known of the cleanups. -/
theorem tells_released {t : LedgerTurn} {rest : List Effect} (hl : l.Sound)
    (hentries : t.state.entries = l.entries) (hwaiters : t.state.shutdownWaiters = [])
    (houtcomes : t.state.history.outcomes = l.history.outcomes)
    (heffects : t.effects = (l.shutdownWaiters.map fun caller =>
      Effect.reply caller (shutdownResult l)) ++ rest)
    (hrest : ∀ e ∈ rest, e.answerTo c = none) : Tells c l t := by
  have hanswers : answersTo c t.effects =
      List.replicate (l.shutdownWaiters.count c) (shutdownResult l) := by
    rw [heffects, answersTo_append, answersTo_replies, answersTo_silent hrest, List.append_nil]
  have hsame : ∀ id, t.state.waiting c (.entry id) = l.waiting c (.entry id) := fun id => by
    simp only [Ledger.waiting, hentries]
  have hnobody : t.state.waiting c .shutdown = 0 := by
    simp only [Ledger.waiting, hwaiters, List.count_nil]
  refine ⟨fun hfree => ⟨fun place => ?_, ?_⟩, fun place hwaits => ?_⟩
  · cases place with
    | entry id => exact (hsame id).trans (hfree _)
    | shutdown => exact hnobody
  · have hzero : l.shutdownWaiters.count c = 0 := hfree .shutdown
    rw [hanswers, hzero, List.replicate_zero]
  · cases place with
    | entry id =>
      have hzero : l.shutdownWaiters.count c = 0 := (hwaits .shutdown).trans (if_neg (by simp))
      refine Or.inl ⟨fun other => ?_, by rw [hanswers, hzero, List.replicate_zero]⟩
      cases other with
      | entry other => exact (hsame other).trans (hwaits _)
      | shutdown => exact hnobody
    | shutdown =>
      have hone : l.shutdownWaiters.count c = 1 := (hwaits .shutdown).trans (if_pos rfl)
      refine Or.inr ⟨fun other => ?_, shutdownResult l, ?_, fun hok id hid => ?_⟩
      · cases other with
        | entry other => exact (hsame other).trans ((hwaits _).trans (if_neg (by simp)))
        | shutdown => exact hnobody
      · rw [hanswers, hone, List.replicate_one]
      · rw [houtcomes]
        exact certified_of_shutdownResult hl hok id hid

theorem accepted_shutdownResult (l : Ledger) :
    (Effect.reply caller (shutdownResult l)).accepted = none := by
  unfold shutdownResult
  split <;> rfl

theorem fair_settle : FairPart c (settle sight) := by
  refine fun l hl => ⟨proper_settle l hl, ?_, fun e he => ?_⟩
  · unfold settle
    split
    · exact (fair_still hl).tells
    · split
      · refine tells_released hl rfl rfl rfl rfl fun e he => ?_
        obtain ⟨ref, -, rfl⟩ := List.mem_map.mp he
        rfl
      · split
        · exact tells_mute (waiting_congr rfl rfl) rfl
        · exact (fair_still hl).tells
  · unfold settle at he
    split at he
    · cases he
    · split at he
      · rcases List.mem_append.mp he with he | he
        · obtain ⟨caller, -, rfl⟩ := List.mem_map.mp he
          exact accepted_shutdownResult l
        · obtain ⟨ref, -, rfl⟩ := List.mem_map.mp he
          rfl
      · split at he <;> cases he

theorem fair_shutdownDeadline : FairPart c shutdownDeadline := by
  refine fun l hl => ⟨proper_shutdownDeadline l hl, tells_released hl rfl rfl rfl rfl ?_,
    fun e he => ?_⟩
  · intro e he
    rw [List.mem_singleton.mp he]
    rfl
  · rcases List.mem_append.mp he with he | he
    · obtain ⟨caller, -, rfl⟩ := List.mem_map.mp he
      exact accepted_shutdownResult l
    · rw [List.mem_singleton.mp he]
      rfl

/-- Only completed virtual machines are forgotten, and nobody waits for them. -/
theorem tells_evictFrom (order : List ℕ) (hl : l.Sound) (horder : l.cleanOrder = order) :
    Tells c l (evictFrom order l) := by
  induction order generalizing l with
  | nil => exact (fair_still hl).tells
  | cons id rest ih =>
    unfold evictFrom
    split
    · have hsame : ∀ place, (l.withoutOldest id rest).waiting c place = l.waiting c place := by
        intro place
        cases place with
        | shutdown => rfl
        | entry other =>
          by_cases hother : other = id
          · subst hother
            obtain ⟨result, hmem⟩ := certified_oldest hl horder
            have hidle : l.waiting c (.entry other) = 0 := by
              by_contra hwaiting
              obtain ⟨entry, hlookup, hactive⟩ :=
                active_of_waiting hl (Nat.pos_of_ne_zero hwaiting)
              exact ((hl.entries other entry hlookup).pending hactive).2 _ hmem rfl
            rw [hidle]
            simp [Ledger.waiting]
          · simp [Ledger.waiting, AList.lookup_erase_ne hother]
      have hmoves := moves_withoutOldest hl horder
      have hsound := sound_withoutOldest hl horder
      refine Tells.from hsame ?_ hmoves.evolves
        (keeps_evictFrom rest hsound rfl).1.state.2.1.evolves
      exact ⟨(ih hsound rfl).free, (ih hsound rfl).waits⟩
    · exact (fair_still hl).tells

theorem accepted_evictFrom (order : List ℕ) (l : Ledger) :
    ∀ e ∈ (evictFrom order l).effects, e.accepted = none := by
  induction order generalizing l with
  | nil => exact fun e he => by cases he
  | cons id rest ih =>
    intro e he
    unfold evictFrom at he
    split at he
    · simp only [Turn.andThen_effects, List.mem_append] at he
      rcases he with he | he | he
      · rw [List.mem_singleton.mp he]
        rfl
      · rw [List.mem_singleton.mp he]
        rfl
      · exact ih _ e he
    · cases he

theorem fair_evict : FairPart c evict :=
  fun l hl => ⟨proper_evict l hl, tells_evictFrom l.cleanOrder hl rfl, accepted_evictFrom _ l⟩

end Parts

section Completion

variable {result : Result} {cleanup : Cleanup} {guard : Option Pid}

/-- Nobody waits for a virtual machine any more once its outcome is recorded. -/
theorem waiting_withOutcome (l : Ledger) (entry : Entry) (place : Place) :
    (l.withOutcome id entry result cleanup).waiting c place =
      if place = .entry id then 0 else l.waiting c place := by
  cases place with
  | shutdown => rfl
  | entry other =>
    by_cases hother : other = id
    · subst hother
      simp [Ledger.waiting, Ledger.withOutcome, Entry.completed]
    · simp [Ledger.waiting, Ledger.withOutcome, AList.lookup_insert_ne hother, hother]

/-- What follows once an outcome is recorded: those who waited are told the result. -/
abbrev released (sight : Sight) (waiters : List Caller) (result : Result) (l : Ledger) :
    LedgerTurn :=
  (evict l).andThen fun l => (persist l).andThen fun l =>
    (Turn.emit (waiters.map fun caller => .reply caller (.result (some result))) l).andThen
      (settle sight)

theorem answersTo_released (waiters : List Caller) :
    answersTo c (released sight waiters result l).effects =
      answersTo c (evict l).effects ++
        (answersTo c (waiters.map fun caller => Effect.reply caller (.result (some result))) ++
          answersTo c (settle sight (evict l).state).effects) := by
  have heffects : (released sight waiters result l).effects = (evict l).effects ++
      ([.persist (evict l).state] ++ ((waiters.map fun caller =>
        Effect.reply caller (.result (some result))) ++ (settle sight (evict l).state).effects)) :=
    rfl
  have hpersist : answersTo c [.persist (evict l).state] = [] := rfl
  rw [heffects, answersTo_append, answersTo_append, answersTo_append, hpersist, List.nil_append]

/-- A completion, without a caller of the virtual machine. -/
theorem tells_completed_other (hl : l.Sound) (hlookup : l.entries.lookup id = some entry)
    (hactive : entry.active = true) (hnobody : l.waiting c (.entry id) = 0) :
    Tells c l (released sight entry.waiters result (l.withOutcome id entry result cleanup)) := by
  have hl' := @sound_withOutcome l id entry result cleanup hl hlookup hactive
  have hsame : ∀ place, (l.withOutcome id entry result cleanup).waiting c place =
      l.waiting c place := by
    intro place
    rw [waiting_withOutcome]
    split
    · rename_i heq
      rw [heq, hnobody]
    · rfl
  have hmute : ∀ e ∈ entry.waiters.map (fun caller => Effect.reply caller (.result (some result))),
      e.Mute c := by
    intro e he
    obtain ⟨caller, hcaller, rfl⟩ := List.mem_map.mp he
    refine mute_reply ?_ (fun id h => by cases h)
    rintro rfl
    rw [waiting_of_lookup hlookup] at hnobody
    exact List.count_eq_zero.mp hnobody hcaller
  have hrest : Fair c (l.withOutcome id entry result cleanup)
      (released sight entry.waiters result (l.withOutcome id entry result cleanup)) := by
    exact (fair_evict _ hl').andThen fun l₁ hl₁ => (fair_persist l₁ hl₁).andThen fun l₂ hl₂ =>
      (fair_emit hmute l₂ hl₂).andThen fair_settle
  exact hrest.tells.from hsame (moves_withOutcome hl hlookup hactive).evolves
    hrest.proper.state.2.1.evolves

/-- A completion, with a caller of the virtual machine: it is told the result. -/
theorem tells_completed (hl : l.Sound) (hlookup : l.entries.lookup id = some entry)
    (hactive : entry.active = true) (hwaits : l.Waits c (.entry id)) :
    Tells c l (released sight entry.waiters result (l.withOutcome id entry result cleanup)) := by
  have hl' := @sound_withOutcome l id entry result cleanup hl hlookup hactive
  have hfree : (l.withOutcome id entry result cleanup).Free c := by
    intro place
    rw [waiting_withOutcome]
    split
    · rfl
    · rename_i hne
      exact (hwaits place).trans (if_neg hne)
  have hevict := fair_evict (c := c) _ hl'
  have hsettle := @fair_settle sight c _ hevict.proper.state.1
  obtain ⟨hfree₁, hnone₁⟩ := hevict.tells.free hfree
  obtain ⟨hfree₂, hnone₂⟩ := hsettle.tells.free hfree₁
  have hone : entry.waiters.count c = 1 :=
    (waiting_of_lookup hlookup).symm.trans ((hwaits _).trans (if_pos rfl))
  have hanswers : answersTo c (released sight entry.waiters result
      (l.withOutcome id entry result cleanup)).effects = [.result (some result)] := by
    have hreplies := @answersTo_replies c entry.waiters (.result (some result))
    rw [hone, List.replicate_one] at hreplies
    rw [answersTo_released, hnone₁, hreplies, hnone₂]
    rfl
  have hmem : (id, result, cleanup) ∈ (released sight entry.waiters result
      (l.withOutcome id entry result cleanup)).state.history.outcomes := by
    have hnew : (id, result, cleanup) ∈ (l.withOutcome id entry result cleanup).history.outcomes :=
      List.mem_append_right _ List.mem_cons_self
    exact hsettle.proper.state.2.1.outcomes.subset
      (hevict.proper.state.2.1.outcomes.subset hnew)
  refine ⟨fun hidle => ?_, fun place hplace => ?_⟩
  · have hnobody := (hwaits (.entry id)).symm.trans (hidle (.entry id))
    rw [if_pos rfl] at hnobody
    cases hnobody
  · have heq : place = .entry id := by
      by_contra hne
      have hnobody := (hwaits place).symm.trans (hplace place)
      rw [if_neg hne, if_pos rfl] at hnobody
      cases hnobody
    subst heq
    exact Or.inr ⟨hfree₂, _, hanswers, result, cleanup, rfl, hmem⟩

theorem accepted_released (waiters : List Caller) (hl : l.Sound) :
    ∀ e ∈ (released sight waiters result l).effects, e.accepted = none := by
  intro e he
  simp only [Turn.andThen_effects, List.mem_append] at he
  rcases he with he | he | he | he
  · exact accepted_evictFrom _ l e he
  · rw [List.mem_singleton.mp he]
    rfl
  · obtain ⟨caller, -, rfl⟩ := List.mem_map.mp he
    rfl
  · exact (@fair_settle sight 0 _ (proper_evict l hl).state.1).mild e he

theorem fair_complete : FairPart c (complete sight id guard result cleanup) := by
  refine fun l hl => ⟨proper_complete l hl, ?_, fun e he => ?_⟩
  rotate_left
  · unfold complete at he
    split at he
    · cases he
    · rename_i entry hlookup
      split at he
      · rename_i hguard
        have hactive : entry.active = true := (Bool.and_eq_true _ _ ▸ hguard).2
        exact accepted_released _ (sound_withOutcome hl hlookup hactive) e he
      · cases he
  unfold complete
  split
  · exact (fair_still hl).tells
  · rename_i entry hlookup
    split
    · rename_i hguard
      have hactive : entry.active = true := (Bool.and_eq_true _ _ ▸ hguard).2
      by_cases hwaits : l.Waits c (.entry id)
      · exact tells_completed hl hlookup hactive hwaits
      · by_cases hnobody : l.waiting c (.entry id) = 0
        · exact tells_completed_other hl hlookup hactive hnobody
        · refine ⟨fun hidle => absurd (hidle _) hnobody, fun place hplace => ?_⟩
          have heq : place = .entry id := by
            by_contra hne
            exact hnobody ((hplace (.entry id)).trans (if_neg fun h => hne h.symm))
          subst heq
          exact absurd hplace hwaits
    · exact (fair_still hl).tells

/-- A part that starts with such a replacement of an entry. -/
theorem fair_put {f : Ledger → LedgerTurn} (hl : l.Sound)
    (hlookup : l.entries.lookup id = some entry) (hlike : entry.Like entry')
    (hcount : entry'.waiters.count c = entry.waiters.count c) (hf : FairPart c f) :
    Fair c l (f (l.put id entry')) :=
  (hf _ (sound_put hl hlookup hlike)).from (waiting_put hlookup hcount)
    (moves_put hlookup hlike) (bounds_of_order rfl)

theorem fair_certificate : FairPart c (certificate sight id) := by
  intro l hl
  unfold certificate
  split
  · rename_i certified entry _ hlookup
    exact fair_put hl hlookup (like_status rfl rfl rfl) rfl fair_complete
  · exact fair_still hl

end Completion

end Sower.Vm
