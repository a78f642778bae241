import Sower.Vm.LedgerTurns

/-!
# Runs of the ledger

Messages come in any order and with any content, other processes write their rows
at any time, and the ledger may die after any effect of a turn and boot again
from its table. In all of these runs reservations stay within the budgets, and a
ledger that has lost a process or was booted again admits nothing until all that
was active then has completed.
-/

namespace Sower.Vm

open Durable

variable {l l' l'' : Ledger} {id : ℕ} {entry : Entry} {sight : Sight} {caller : Caller}
  {options : StartOptions}

section Starts

theorem mem_dimensions (d : Dimension) : d ∈ dimensions := by
  cases d <;> decide

/-- What passes the check fits into what is left of the budgets. -/
theorem capacity_none {resources : Resources} (h : capacity l resources = none) (d : Dimension) :
    l.used d + resources.get d ≤ l.budgets.get d := by
  unfold capacity at h
  dsimp only at h
  split at h
  · cases h
  · cases h
  · rename_i hnone
    have hd := List.find?_eq_none.mp hnone d (mem_dimensions d)
    simpa using hd

theorem refusal_none (h : refusal options l = none) :
    l.mode = .open ∧ ∀ d, l.used d + options.resources.get d ≤ l.budgets.get d := by
  unfold refusal at h
  split at h
  · cases h
  · rename_i hmode
    split at h
    · cases h
    · exact ⟨not_not.mp hmode, capacity_none h⟩

/-- The ledger with a new entry. -/
abbrev Ledger.admitted (l : Ledger) (options : StartOptions) : Ledger :=
  { l with
    entries := l.entries.insert l.history.ids (options.entry l.history.ids)
    history := { l.history with ids := l.history.ids + 1 } }

theorem lookup_ids (hl : l.Sound) : l.entries.lookup l.history.ids = none :=
  AList.lookup_eq_none.mpr fun hmem => absurd (hl.fresh _ hmem) (lt_irrefl _)

theorem active_entry (options : StartOptions) (id : ℕ) : (options.entry id).active = true := by
  unfold Entry.active StartOptions.entry
  cases options.command <;> rfl

/-- A new entry is sound, and so is the ledger with it. -/
theorem sound_admitted (hl : l.Sound) (options : StartOptions) : (l.admitted options).Sound where
  entries id found hfound := by
    rcases lookup_insert_cases hfound with ⟨rfl, rfl⟩ | ⟨-, hfound⟩
    · refine ⟨rfl, fun _ => ⟨rfl, fun outcome hmem => (hl.past outcome hmem).ne⟩, fun hdone => ?_⟩
      rw [active_entry] at hdone
      cases hdone
    · exact hl.entries id found hfound
  fresh id hid := by
    rcases AList.mem_insert _ |>.mp hid with rfl | hid
    · exact Nat.lt_succ_self _
    · exact (hl.fresh id hid).trans (Nat.lt_succ_self _)
  past outcome hmem := (hl.past outcome hmem).trans (Nat.lt_succ_self _)
  once := hl.once
  gone id result cleanup hmem hnone := by
    refine hl.gone id result cleanup hmem ?_
    have hne : id ≠ l.history.ids := (hl.past _ hmem).ne
    rwa [← AList.lookup_insert_ne hne]
  orderNodup := hl.orderNodup
  order id := by
    refine (hl.order id).trans ?_
    change _ ↔ ∃ found, (l.entries.insert _ _).lookup id = some found ∧ _
    by_cases hid : id = l.history.ids
    · subst hid
      rw [AList.lookup_insert, lookup_ids hl]
      simp [StartOptions.entry]
    · rw [AList.lookup_insert_ne hid]

/-- The ledger after the execution of a new entry could not be started. -/
theorem sound_withdrawn (hl : l.Sound) (hlookup : l.entries.lookup id = some entry)
    (hactive : entry.active = true) : ({ l with entries := l.entries.erase id } : Ledger).Sound where
  entries id' found hfound := hl.entries id' found (lookup_erase_cases hfound).2
  fresh id' hid := hl.fresh id' (AList.mem_erase.mp hid).2
  past := hl.past
  once := hl.once
  gone id' result cleanup hmem hnone := by
    refine hl.gone id' result cleanup hmem ?_
    have hne : id' ≠ id := ((hl.entries id entry hlookup).pending hactive).2 _ hmem
    rwa [← AList.lookup_erase_ne hne]
  orderNodup := hl.orderNodup
  order id' := by
    refine (hl.order id').trans ?_
    change _ ↔ ∃ found, (l.entries.erase id).lookup id' = some found ∧ _
    by_cases hid : id' = id
    · subst hid
      rw [AList.lookup_erase, hlookup]
      have hnone := ((hl.entries id' entry hlookup).pending hactive).1
      simp [hnone]
    · rw [AList.lookup_erase_ne hid]

end Starts

section Evolution

/-- What a run may make of the ledger. -/
structure Ledger.Evolves (l l' : Ledger) : Prop where
  outcomes : l.history.outcomes <+: l'.history.outcomes
  ids : l.history.ids ≤ l'.history.ids
  entries : ∀ id ∈ l'.entries, id < l.history.ids → id ∈ l.entries
  kept : ∀ id ∈ l.entries, id ∉ l'.entries → ∃ result, (id, result, .ok) ∈ l'.history.outcomes
  active : ∀ id < l.history.ids, l'.Active id → l.Active id
  opens : l'.mode = .open →
    l.mode = .open ∨ ∀ id < l.history.ids, l.Active id → ¬ l'.Active id

theorem Ledger.Moves.evolves (h : l.Moves l') : l.Evolves l' where
  outcomes := h.outcomes
  ids := h.ids.ge
  entries id hid _ := h.entries id hid
  kept := h.kept
  active id _ hid := h.active id hid
  opens hopen := (h.opens hopen).imp_right fun hnone id _ _ => hnone id

theorem Ledger.Evolves.refl : l.Evolves l := Ledger.Moves.refl.evolves

theorem Ledger.Evolves.trans (h : l.Evolves l') (h' : l'.Evolves l'') : l.Evolves l'' where
  outcomes := h.outcomes.trans h'.outcomes
  ids := h.ids.trans h'.ids
  entries id hid hlt := h.entries id (h'.entries id hid (hlt.trans_le h.ids)) hlt
  kept id hid hnot := by
    by_cases hmid : id ∈ l'.entries
    · exact h'.kept id hmid hnot
    · obtain ⟨result, hresult⟩ := h.kept id hid hmid
      exact ⟨result, h'.outcomes.subset hresult⟩
  active id hlt hid := h.active id hlt (h'.active id (hlt.trans_le h.ids) hid)
  opens hopen := by
    have hback : ∀ id < l.history.ids, l''.Active id → l'.Active id :=
      fun id hlt hid => h'.active id (hlt.trans_le h.ids) hid
    rcases h'.opens hopen with hopen' | hnone
    · rcases h.opens hopen' with hopen | hnone
      · exact Or.inl hopen
      · exact Or.inr fun id hlt hid hid'' => hnone id hlt hid (hback id hlt hid'')
    · exact Or.inr fun id hlt _ hid'' =>
        hnone id (hlt.trans_le h.ids) (hback id hlt hid'') hid''

theorem evolves_admitted : l.Evolves (l.admitted options) where
  outcomes := List.prefix_rfl
  ids := Nat.le_succ _
  entries id hid hlt := (AList.mem_insert _ |>.mp hid).resolve_left hlt.ne
  kept id hid hnot := absurd (AList.mem_insert _ |>.mpr (Or.inr hid)) hnot
  active id hlt := by
    rintro ⟨found, hfound, hactive⟩
    obtain ⟨rfl, -⟩ | ⟨-, hfound⟩ := lookup_insert_cases hfound
    · exact absurd hlt (lt_irrefl _)
    · exact ⟨found, hfound, hactive⟩
  opens hopen := Or.inl hopen

/-- What a turn keeps, a start included. -/
structure Ledger.Follows (l l' : Ledger) : Prop where
  sound : l'.Sound
  evolves : l.Evolves l'
  budgets : l'.budgets = l.budgets
  limit : l'.resultLimit = l.resultLimit
  bounds : l.Bounds l'
  /-- Reservations stay within the budgets. -/
  within : (∀ d, l.used d ≤ l.budgets.get d) → ∀ d, l'.used d ≤ l.budgets.get d

theorem Proper.follows {t : LedgerTurn} (h : Proper l t) :
    t.Keeps Effect.stored fun l' => l.Follows l' :=
  h.mono fun _ hl' => ⟨hl'.1, hl'.2.1.evolves, hl'.2.1.budgets, hl'.2.1.limit, hl'.2.2,
    fun hwithin d => (hl'.2.1.used d).trans (hwithin d)⟩

theorem used_admitted (hl : l.Sound) (d : Dimension) :
    (l.admitted options).used d = options.resources.get d + l.used d := by
  exact AList.total_insert_of_none (lookup_ids hl)

theorem follows_admitted (hl : l.Sound) (hnone : refusal options l = none) :
    l.Follows (l.admitted options) where
  sound := sound_admitted hl options
  evolves := evolves_admitted
  budgets := rfl
  limit := rfl
  bounds := bounds_of_order rfl
  within _ d := by
    rw [used_admitted hl, Nat.add_comm]
    exact (refusal_none hnone).2 d

/-- What moves on from the new entry follows from the ledger before. -/
theorem Ledger.Follows.moves (h : l.Follows l') (hsound : l''.Sound) (hmoves : l'.Moves l'')
    (hbounds : l'.Bounds l'') : l.Follows l'' where
  sound := hsound
  evolves := h.evolves.trans hmoves.evolves
  budgets := hmoves.budgets.trans h.budgets
  limit := hmoves.limit.trans h.limit
  bounds := by
    have hfirst := h.bounds
    have hlimit := h.limit
    unfold Ledger.Bounds at *
    omega
  within hwithin d := (hmoves.used d).trans (h.within hwithin d)

/-- The ledger without the new entry follows from the ledger before. -/
theorem follows_withdrawn (hl : l.Sound) (hnone : refusal options l = none) :
    l.Follows { l.admitted options with
      entries := (l.admitted options).entries.erase l.history.ids } where
  sound := sound_withdrawn (sound_admitted hl options) (AList.lookup_insert _)
    (active_entry options _)
  evolves := by
    refine ⟨List.prefix_rfl, Nat.le_succ _, fun id hid hlt => ?_, fun id hid hnot => ?_,
      fun id hlt => ?_, fun hopen => Or.inl hopen⟩
    · exact evolves_admitted.entries id (AList.mem_erase.mp hid).2 hlt
    · have hne : id ≠ l.history.ids := (hl.fresh id hid).ne
      exact absurd (AList.mem_erase.mpr ⟨hne, AList.mem_insert _ |>.mpr (Or.inr hid)⟩) hnot
    · rintro ⟨found, hfound, hactive⟩
      exact evolves_admitted.active id hlt ⟨found, (lookup_erase_cases hfound).2, hactive⟩
  budgets := rfl
  limit := rfl
  bounds := bounds_of_order rfl
  within _ d := AList.total_erase_le.trans ((follows_admitted hl hnone).within (fun d => by
    have hroom := (refusal_none hnone).2 d
    omega) d)

theorem keeps_persisted {P : Ledger → Prop} (h : P l) : (persist l).Keeps Effect.stored P := by
  refine ⟨h, fun e he s hs => ?_⟩
  rw [List.mem_singleton.mp he] at hs
  cases hs
  exact h

theorem keeps_responded {P : Ledger → Prop} {answer : Answer} (h : P l) :
    (respond caller answer l).Keeps Effect.stored P := by
  refine (keeps_persisted h).andThen fun l' hl' => keeps_silent hl' fun e he => ?_
  rw [List.mem_singleton.mp he]
  rfl

/-- A start that is not refused. -/
theorem follows_started (hl : l.Sound) (hnone : refusal options l = none)
    (child : Except Term Pid) :
    ((admitStart options l).andThen (started caller options l.history.ids child)).Keeps Effect.stored
      fun l' => l.Follows l' := by
  have hadmitted := follows_admitted hl hnone
  have hstart : (admitStart options l).Keeps Effect.stored fun l' => l' = l.admitted options := by
    have hpersist : (persist (l.admitted options)).Keeps Effect.stored fun l' =>
        l' = l.admitted options := keeps_persisted rfl
    refine hpersist.andThen fun l' hl' => keeps_silent hl' fun e he => ?_
    rw [List.mem_singleton.mp he]
    rfl
  refine hstart.followed (fun l' hl' => ?_) (fun l' hl' => hl' ▸ hadmitted) fun l' h => h
  subst hl'
  cases child with
  | error reason => exact keeps_responded (follows_withdrawn hl hnone)
  | ok execution =>
    have hproper : Proper (l.admitted options)
        (started caller options l.history.ids (.ok execution) (l.admitted options)) := by
      refine Proper.andThen ?_ (proper_respond _ _)
      exact proper_put hadmitted.sound (AList.lookup_insert _) (like_status rfl rfl rfl)
        (proper_monitor _ _)
    exact hproper.mono fun l' h => hadmitted.moves h.1 h.2.1 h.2.2

/-- Every turn follows from the ledger before, with all that it stores on the way. -/
theorem follows_handle (hl : l.Sound) (message : Message) :
    (handle sight message l).Keeps Effect.stored fun l' => l.Follows l' := by
  by_cases hadmits : message.Admits l
  · cases message with
    | call caller request =>
      cases request with
      | start options child =>
        have hnone : refusal options l = none := hadmits
        change (start caller options child l).Keeps _ _
        unfold start
        rw [hnone]
        exact follows_started hl hnone child
      | _ => exact absurd hadmits id
    | _ => exact absurd hadmits id
  · exact (proper_handle hl message hadmits).follows

end Evolution

section Storing

theorem saves_persist (l : Ledger) : (persist l).Saves Effect.stored := fun _ => rfl

theorem saves_respond (answer : Answer) (l : Ledger) :
    (respond caller answer l).Saves Effect.stored := fun _ => rfl

/-- The table has what `init` makes of it. -/
theorem saves_init {ledgerOptions : LedgerOptions} {saved : Option Ledger} {t : LedgerTurn}
    (h : init ledgerOptions sight saved = some t) : t.Saves Effect.stored := by
  unfold init at h
  split at h
  · cases h
    exact .andThen <| .andThen <| .andThen <| .andThen <| .andThen <| .andThen <| .andThen <|
      saves_persist _
  · cases h

theorem saves_handleCall (request : Request) (l : Ledger) :
    ((handleCall sight caller request l).state = l ∧
      ∀ e ∈ (handleCall sight caller request l).effects, e.stored = none) ∨
      (handleCall sight caller request l).Saves Effect.stored := by
  cases request with
  | attachManager pid => exact Or.inr <| .andThen <| .andThen <| .andThen <| saves_respond _ _
  | attachSupervisor pid => exact Or.inr <| .andThen <| .andThen <| .andThen <| saves_respond _ _
  | start options child =>
    refine Or.inr ?_
    change (start caller options child l).Saves _
    unfold start
    split
    · exact saves_respond _ _
    · cases child with
      | ok execution => exact .andThen <| .andThen <| saves_respond _ _
      | error reason => exact .andThen <| saves_respond _ _
  | list =>
    refine Or.inl ⟨rfl, fun e he => ?_⟩
    rw [List.mem_singleton.mp he]
    rfl
  | status id =>
    refine Or.inr ?_
    change (status caller id l).Saves _
    unfold status
    split <;> exact saves_respond _ _
  | stop id =>
    refine Or.inr ?_
    change (stop caller id l).Saves _
    unfold stop
    split
    · split
      · exact .andThen <| saves_persist _
      · exact saves_respond _ _
    · exact saves_respond _ _
  | cancel id =>
    refine Or.inr ?_
    change (cancel caller id l).Saves _
    unfold cancel
    split
    · exact .andThen <| saves_respond _ _
    · exact saves_respond _ _
  | await id =>
    refine Or.inr ?_
    change (await caller id l).Saves _
    unfold await
    split
    · split
      · exact saves_persist _
      · exact saves_respond _ _
    · exact saves_respond _ _
  | guardStarted id guard =>
    refine Or.inr ?_
    change (guardStarted caller id guard l).Saves _
    unfold guardStarted
    split
    · exact .andThen <| saves_respond _ _
    · exact saves_respond _ _
  | finished id guard result cleanup => exact Or.inr <| .andThen <| saves_respond _ _
  | shutdown => exact Or.inr <| .andThen <| .andThen <| .andThen <| saves_persist _

/-- After every turn the table has the state of the ledger. -/
theorem saves_handle (message : Message) (l : Ledger) :
    ((handle sight message l).state = l ∧ ∀ e ∈ (handle sight message l).effects,
      e.stored = none) ∨ (handle sight message l).Saves Effect.stored := by
  cases message with
  | call caller request => exact saves_handleCall request l
  | statusChanged id guard changes =>
    refine Or.inr ?_
    change (statusChanged id guard changes l).Saves _
    unfold statusChanged
    split
    · split <;> exact saves_persist _
    · exact saves_persist _
  | down ref reason => exact Or.inr <| .andThen <| .andThen <| saves_persist _
  | shutdownDeadline => exact Or.inr <| .andThen <| saves_persist _

end Storing

section Runs

variable {w w' w₁ w₂ : World Ledger Effect}

/-- Runs of the ledger: any options and messages. -/
abbrev Runs (w w' : World Ledger Effect) : Prop :=
  Reachable ledger (fun _ => True) (fun _ _ => True) w w'

/-- Runs in which the budgets stay the same. -/
abbrev BudgetedRuns (budgets : Resources) (w w' : World Ledger Effect) : Prop :=
  Reachable ledger (fun input => input.1.budgets = budgets) (fun _ _ => True) w w'

variable {allowed : LedgerOptions × Sight → Prop} {possible : World Ledger Effect →
  Sight × Message → Prop}

theorem synchronous_run (h : Reachable ledger allowed possible .initial w) : w.Synchronous :=
  h.synchronous (fun s hs => by cases hs) (fun hboot => saves_init hboot)
    fun input l => saves_handle input.2 l

/-- Booting keeps what holds of a restored ledger and all that moves on from it. -/
theorem keeps_boot {P : Ledger → Prop} {input : LedgerOptions × Sight} {saved : Option Ledger}
    {t : LedgerTurn} (h : ledger.boot input saved = some t)
    (hsaved : ∀ l, saved = some l → l.Sound)
    (hP : ∀ l', l'.Sound → (input.1.restore saved).Moves l' → P l') :
    t.Keeps Effect.stored P :=
  (proper_init h (sound_restore hsaved)).mono fun l' hl' => hP l' hl'.1 hl'.2.1

theorem sound_run (h : Reachable ledger allowed possible .initial w) : w.Has Ledger.Sound :=
  h.has has_initial (fun _ _ hsaved hboot => keeps_boot hboot hsaved fun _ hl' _ => hl')
    fun input _ hl => (follows_handle hl input.2).mono fun _ hl' => hl'.sound

theorem evolves_restore (options : LedgerOptions) : l.Evolves (options.restore (some l)) where
  outcomes := List.prefix_rfl
  ids := le_rfl
  entries _ hid _ := hid
  kept _ hid hnot := absurd hid hnot
  active _ _ hid := hid
  opens hopen := by cases hopen

/-- A run from a ledger in the table leads to ledgers that have evolved from it. -/
theorem evolves_run (h : Reachable ledger allowed possible .initial w)
    (h' : Reachable ledger allowed possible w w') (hl : w.saved = some l) :
    w'.Has fun l' => l'.Sound ∧ l.Evolves l' := by
  have hstart : w.Has fun l' => l'.Sound ∧ l.Evolves l' := by
    have hsame : ∀ l', w.saved = some l' ∨ w.memory = some l' → l' = l := by
      rintro l' (hl' | hl')
      · exact Option.some.inj (hl'.symm.trans hl)
      · exact Option.some.inj ((synchronous_run h l' hl').symm.trans hl)
    intro l' hl'
    rw [hsame l' hl']
    exact ⟨sound_run h l (Or.inl hl), .refl⟩
  refine h'.has hstart (fun {input saved t} _ hsome hsaved hboot => ?_) fun input l' hl' => ?_
  · refine keeps_boot hboot (fun s hs => (hsaved s hs).1) fun l' hsound hmoves => ⟨hsound, ?_⟩
    obtain ⟨s, rfl⟩ := Option.isSome_iff_exists.mp (hsome (hl ▸ rfl))
    exact (hsaved s rfl).2.trans ((evolves_restore input.1).trans hmoves.evolves)
  · exact (follows_handle hl'.1 input.2).mono fun _ h => ⟨h.sound, hl'.2.trans h.evolves⟩

end Runs

section Accounting

variable {budgets : Resources} {w w' : World Ledger Effect}

/-- The reservations are within the budgets. -/
structure Ledger.Within (budgets : Resources) (l : Ledger) : Prop where
  sound : l.Sound
  used : ∀ d, l.used d ≤ budgets.get d
  budgets : l.budgets = budgets

theorem within_moves (h : l.Within budgets) (hsound : l'.Sound) (hmoves : l.Moves l') :
    l'.Within budgets :=
  ⟨hsound, fun d => (hmoves.used d).trans (h.used d), hmoves.budgets.trans h.budgets⟩

theorem within_restore {ledgerOptions : LedgerOptions} {saved : Option Ledger}
    (hbudgets : ledgerOptions.budgets = budgets) (hsaved : ∀ l, saved = some l → l.Within budgets) :
    (ledgerOptions.restore saved).Within budgets := by
  refine ⟨sound_restore fun l hl => (hsaved l hl).sound, fun d => ?_, ?_⟩
  · cases saved with
    | none => exact Nat.zero_le _
    | some l => exact (hsaved l rfl).used d
  · cases saved <;> exact hbudgets

theorem within_run (h : BudgetedRuns budgets .initial w) : w.Has (Ledger.Within budgets) := by
  refine h.has has_initial (fun {input saved t} hbudgets _ hsaved hboot => ?_) fun input l hl => ?_
  · exact keeps_boot hboot (fun l hl => (hsaved l hl).sound)
      fun l' hsound hmoves => within_moves (within_restore hbudgets hsaved) hsound hmoves
  · refine (follows_handle hl.sound input.2).mono fun l' h =>
      ⟨h.sound, fun d => ?_, h.budgets.trans hl.budgets⟩
    rw [← hl.budgets]
    exact h.within (fun d => hl.budgets.symm ▸ hl.used d) d

/-- The order is within its limit. -/
def Ledger.Short (l : Ledger) : Prop := l.cleanOrder.length ≤ l.resultLimit

theorem short_of_bounds (hl : l.Short) (hlimit : l'.resultLimit = l.resultLimit)
    (hbounds : l.Bounds l') : l'.Short := by
  unfold Ledger.Short Ledger.Bounds at *
  omega

theorem short_andThen {t : LedgerTurn} {f : Ledger → LedgerTurn} (ht : Proper l t)
    (hf : ∀ l : Ledger, l.Sound → (f l).state.Short) : (t.andThen f).state.Short :=
  hf _ ht.state.1

/-- Eviction makes the order short, and it stays so. -/
theorem short_evict {f : Ledger → LedgerTurn} (hl : l.Sound) (hf : ProperPart f) :
    ((evict l).andThen f).state.Short := by
  have hevict := (proper_evict l hl).state
  have hshort : (evict l).state.Short := (evict_length hl).trans hevict.2.1.limit.ge
  have hrest := (hf _ hevict.1).state
  exact short_of_bounds hshort hrest.2.1.limit hrest.2.2

/-- After `init` the order is within its limit. -/
theorem short_init {ledgerOptions : LedgerOptions} {saved : Option Ledger} {t : LedgerTurn}
    (h : init ledgerOptions sight saved = some t) (hl : (ledgerOptions.restore saved).Sound) :
    t.state.Short := by
  unfold init at h
  split at h
  · cases h
    refine short_andThen (proper_monitor _ _ _ hl) fun l₁ hl₁ =>
      short_andThen (proper_monitor _ _ l₁ hl₁) fun l₂ hl₂ =>
      short_andThen (proper_monitor _ _ l₂ hl₂) fun l₃ hl₃ => short_evict hl₃ fun l₄ hl₄ => ?_
    exact (proper_recoverEntries _ l₄ hl₄).andThen fun l₅ hl₅ => (proper_drain l₅ hl₅).andThen
      fun l₆ hl₆ => (proper_settle l₆ hl₆).andThen proper_persist
  · cases h

/-- The order of a ledger that is up is within its limit. -/
theorem short_run (h : BudgetedRuns budgets .initial w) : ∀ l, w.memory = some l → l.Short := by
  refine h.serves (fun hv => sound_run hv) (fun l hl => by cases hl)
    (fun _ hsaved hboot => short_init hboot (sound_restore hsaved)) fun input l hl hshort => ?_
  have hfollows := (@follows_handle l input.1 hl input.2).state
  exact short_of_bounds hshort hfollows.limit hfollows.bounds

/-- In every run the reservations stay within the budgets; what is not certified keeps its
reservation and its entry; and the order has just the virtual machines that finished
cleanly and are still there. -/
theorem accounts_hold (h : BudgetedRuns budgets .initial w) (h' : BudgetedRuns budgets w w') :
    (∀ l, w'.saved = some l ∨ w'.memory = some l → (∀ d, l.used d ≤ budgets.get d) ∧
      (∀ id entry, l.entries.lookup id = some entry → entry.status.cleanup ≠ some .ok →
        entry.reserved = true) ∧
      l.cleanOrder.Nodup ∧ ∀ id, id ∈ l.cleanOrder ↔
        ∃ entry, l.entries.lookup id = some entry ∧ entry.status.cleanup = some .ok) ∧
    (∀ l, w'.memory = some l → l.cleanOrder.length ≤ l.resultLimit) ∧
    ∀ l l', w.saved = some l → w'.saved = some l' ∨ w'.memory = some l' →
      ∀ id ∈ l.entries, id ∉ l'.entries → ∃ result, (id, result, .ok) ∈ l'.history.outcomes := by
  have hreach : BudgetedRuns budgets .initial w' := h.trans h'
  refine ⟨fun l hl => ?_, short_run hreach, fun l l' hl hl' id hid hnot => ?_⟩
  · have hwithin := within_run hreach l hl
    refine ⟨hwithin.used, fun id entry hlookup hcleanup => ?_, hwithin.sound.orderNodup,
      hwithin.sound.order⟩
    rw [(hwithin.sound.entries id entry hlookup).reserved]
    exact decide_eq_true hcleanup
  · exact (evolves_run h h' hl l' hl').2.kept id hid hnot

/-- A garden with two virtual machines at most, of which the results are not kept. -/
def twoMachines : LedgerOptions where
  budgets := ⟨2, 2, 2147483648, 17179869184⟩
  resultLimit := 0
  parent := 1

/-- The manager and the supervisor attach to a new ledger. -/
def attached : World Ledger Effect :=
  ((World.initial.booted ledger (twoMachines, {})).handled ledger
    ({}, .call 1 (.attachSupervisor 2))).handled ledger ({}, .call 2 (.attachManager 3))

/-- A virtual machine is started, and its guard reports to the ledger. -/
def oneStarted : World Ledger Effect :=
  (attached.handled ledger ({}, .call 3 (.start { command := true, owner := 9 } (.ok 10)))).handled
    ledger ({}, .call 4 (.guardStarted 0 11))

theorem run_oneStarted : Runs .initial oneStarted :=
  ((((Reachable.refl.booted rfl trivial).handled trivial).handled trivial).handled trivial).handled
    trivial

theorem budgeted_oneStarted : BudgetedRuns twoMachines.budgets .initial oneStarted := by
  have hbooted : BudgetedRuns twoMachines.budgets .initial
      (World.initial.booted ledger (twoMachines, {})) := Reachable.refl.booted rfl rfl
  exact (((hbooted.handled trivial).handled trivial).handled trivial).handled trivial

/-- The virtual machine completes. -/
def oneFinished : World Ledger Effect :=
  oneStarted.handled ledger ({}, .call 5 (.finished 0 11 .ok .ok))

/-- A virtual machine that completes is forgotten at once here, and its outcome is certified. -/
theorem accounts_hold_oneStarted : ∃ l l', oneStarted.saved = some l ∧
    oneFinished.memory = some l' ∧ 0 ∈ l.entries ∧ 0 ∉ l'.entries ∧
      (∀ d, l'.used d ≤ twoMachines.budgets.get d) ∧
      ∃ result, (0, result, .ok) ∈ l'.history.outcomes := by
  obtain ⟨l, hl⟩ := Option.isSome_iff_exists.mp
    (by decide +kernel : oneStarted.saved.isSome = true)
  obtain ⟨l', hl'⟩ := Option.isSome_iff_exists.mp
    (by decide +kernel : oneFinished.memory.isSome = true)
  have hthere : ∀ l ∈ oneStarted.saved, 0 ∈ l.entries := by decide +kernel
  have hgone : ∀ l ∈ oneFinished.memory, 0 ∉ l.entries := by decide +kernel
  obtain ⟨hhold, -, hkept⟩ := accounts_hold budgeted_oneStarted
    (Reachable.refl.handled (i := ({}, .call 5 (.finished 0 11 .ok .ok))) trivial)
  exact ⟨l, l', hl, hl', hthere l hl, hgone l' hl', (hhold l' (Or.inr hl')).1,
    hkept l l' hl (Or.inr hl') 0 (hthere l hl) (hgone l' hl')⟩

end Accounting

section Draining

variable {w w₁ w₂ : World Ledger Effect}

/-- The message tells that the manager, the supervisor or the parent is lost or replaced. -/
def Message.Loses (l : Ledger) : Message → Prop
  | .down ref _ => l.monitors.lookup ref ∈ [some .manager, some .supervisor, some .parent]
  | .call _ (.attachManager pid) => l.manager ≠ none ∧ l.manager ≠ some pid
  | .call _ (.attachSupervisor pid) => l.supervisor ≠ none ∧ l.supervisor ≠ some pid
  | _ => False

/-- Nothing is admitted while one of these virtual machines is active. -/
structure Ledger.Barred (ids : ℕ → Prop) (l : Ledger) : Prop where
  sound : l.Sound
  given : ∀ id, ids id → id < l.history.ids
  closed : l.mode = .open → ∀ id, ids id → ¬ l.Active id

theorem barred_evolves {ids : ℕ → Prop} (h : l.Barred ids) (hsound : l'.Sound)
    (hevolves : l.Evolves l') : l'.Barred ids := by
  refine ⟨hsound, fun id hid => (h.given id hid).trans_le hevolves.ids, fun hopen id hid hactive => ?_⟩
  have hbefore := hevolves.active id (h.given id hid) hactive
  rcases hevolves.opens hopen with hopen' | hnone
  · exact h.closed hopen' id hid hbefore
  · exact hnone id (h.given id hid) hbefore hactive

theorem barred_run {ids : ℕ → Prop} (h : Runs w₁ w₂) (hw : w₁.Has (Ledger.Barred ids))
    (hsome : w₁.saved.isSome) : w₂.Has (Ledger.Barred ids) := by
  refine h.has hw (fun {input saved t} _ hsaved hbarred hboot => ?_) fun input l hl => ?_
  · obtain ⟨l, rfl⟩ := Option.isSome_iff_exists.mp (hsaved hsome)
    have hl := hbarred l rfl
    exact keeps_boot hboot (fun s hs => (hbarred s hs).sound) fun l' hsound hmoves =>
      barred_evolves hl hsound ((evolves_restore input.1).trans hmoves.evolves)
  · exact (follows_handle hl.sound input.2).mono fun l' h =>
      barred_evolves hl h.sound h.evolves

/-- A turn bars admission when it starts from a ledger that is not open. -/
theorem barred_proper {t : LedgerTurn} (hl : l.Sound) (hsame : l.SameAccounts l')
    (hclosed : l'.mode ≠ .open) (ht : Proper l' t) : t.Keeps Effect.stored (Ledger.Barred l.Active) := by
  have hbarred : l'.Barred l.Active := by
    refine ⟨hl.congr hsame, fun id hid => ?_, fun hopen => absurd hopen hclosed⟩
    obtain ⟨entry, hlookup, -⟩ := hid
    rw [hsame.ids]
    exact hl.fresh id (AList.lookup_isSome.mp (hlookup ▸ rfl))
  exact ht.mono fun l'' h => barred_evolves hbarred h.1 h.2.1.evolves

theorem recoveryMode_closed (l : Ledger) : recoveryMode l ≠ .open := by
  unfold recoveryMode
  split <;> simp

/-- A loss bars admission, and the table has the state after it. -/
theorem barred_loss (hl : l.Sound) {message : Message} (hloses : message.Loses l) :
    (handle sight message l).Keeps Effect.stored (Ledger.Barred l.Active) ∧
      (handle sight message l).Saves Effect.stored := by
  cases message with
  | call caller request =>
    cases request with
    | attachManager pid =>
      have hsame : l.SameAccounts { l with mode := recoveryMode l } := ⟨rfl, rfl, rfl, rfl⟩
      refine ⟨barred_proper hl hsame (recoveryMode_closed l) ?_,
        .andThen <| .andThen <| .andThen <| saves_respond _ _⟩
      change Proper { l with mode := recoveryMode l } (attachManager sight caller pid l)
      have hreplaced : l.manager ≠ none ∧ l.manager ≠ some pid := hloses
      simp only [attachManager, ne_eq, hreplaced, not_false_eq_true, and_self, if_true]
      exact (proper_drain _ (hl.congr hsame)).andThen fun l₁ hl₁ =>
        proper_attached hl₁ ⟨rfl, rfl, rfl, rfl⟩ rfl rfl rfl
    | attachSupervisor pid =>
      have hsame : l.SameAccounts { l with mode := recoveryMode l } := ⟨rfl, rfl, rfl, rfl⟩
      refine ⟨barred_proper hl hsame (recoveryMode_closed l) ?_,
        .andThen <| .andThen <| .andThen <| saves_respond _ _⟩
      change Proper { l with mode := recoveryMode l } (attachSupervisor sight caller pid l)
      have hreplaced : l.supervisor ≠ none ∧ l.supervisor ≠ some pid := hloses
      simp only [attachSupervisor, ne_eq, hreplaced, not_false_eq_true, and_self, if_true]
      exact (proper_drain _ (hl.congr hsame)).andThen fun l₁ hl₁ =>
        proper_attached hl₁ ⟨rfl, rfl, rfl, rfl⟩ rfl rfl rfl
    | _ => exact absurd hloses id
  | down ref reason =>
    refine ⟨?_, .andThen <| .andThen <| saves_persist _⟩
    have hkind : ∀ {l₁ : Ledger}, l.SameAccounts l₁ → l₁.mode ≠ .open →
        ((drain l₁).andThen fun l => (settle sight l).andThen persist).Keeps Effect.stored
          (Ledger.Barred l.Active) := by
      intro l₁ hsame hclosed
      exact barred_proper hl hsame hclosed ((proper_drain _ (hl.congr hsame)).andThen
        fun l₂ hl₂ => (proper_settle l₂ hl₂).andThen proper_persist)
    change (down sight ref reason l).Keeps _ _
    unfold down
    have hlost : l.monitors.lookup ref = some .manager ∨ l.monitors.lookup ref = some .supervisor ∨
        l.monitors.lookup ref = some .parent := by simpa [Message.Loses] using hloses
    rcases hlost with hlost | hlost | hlost
    · rw [hlost]
      exact hkind ⟨rfl, rfl, rfl, rfl⟩ (recoveryMode_closed l)
    · rw [hlost]
      exact hkind ⟨rfl, rfl, rfl, rfl⟩ (recoveryMode_closed l)
    · rw [hlost]
      exact hkind ⟨rfl, rfl, rfl, rfl⟩ (recoveryMode_closed l)
  | _ => exact absurd hloses id

/-- The world after a turn that keeps a property and stores its state. -/
theorem has_saved {P : Ledger → Prop} {t : LedgerTurn} (ht : t.Keeps Effect.stored P)
    (hsaves : t.Saves Effect.stored) : (w.after ledger t).Has P := by
  rintro l (hl | hl)
  · have hstate : some t.state = some l := (hsaves w.saved).symm.trans hl
    exact Option.some.inj hstate ▸ ht.state
  · exact Option.some.inj hl ▸ ht.state

theorem run_handle {message : Message} (hup : w.memory = some l) :
    Runs w (w.after ledger (handle sight message l)) := by
  have hstep : Step ledger (fun _ => True) (fun _ _ => True) w
      (w.after ledger (ledger.handle (sight, message) l)) := .handle hup trivial
  exact Reachable.refl.step hstep

/-- What was active and is not any more has completed. -/
theorem completed_since (hl : l'.Sound) (hevolves : l.Evolves l') (hactive : l.Active id)
    (hdone : ¬ l'.Active id) : ∃ result cleanup, (id, result, cleanup) ∈ l'.history.outcomes := by
  obtain ⟨entry, hlookup, -⟩ := hactive
  by_cases hthere : id ∈ l'.entries
  · obtain ⟨entry', hlookup'⟩ := Option.isSome_iff_exists.mp (AList.lookup_isSome.mpr hthere)
    have hinactive : entry'.active = false := by
      by_contra hstill
      exact hdone ⟨entry', hlookup', Bool.not_eq_false _ ▸ hstill⟩
    obtain ⟨-, result, cleanup, -, -, hmem⟩ := (hl.entries id entry' hlookup').completed hinactive
    exact ⟨result, cleanup, hmem⟩
  · obtain ⟨result, hmem⟩ := hevolves.kept id (AList.lookup_isSome.mp (hlookup ▸ rfl)) hthere
    exact ⟨result, .ok, hmem⟩

/-- A shutdown lasts as long as the server. -/
theorem shutdown_lasts (hreach : Runs .initial w₁)
    (h : Reachable ledger (fun _ => False) (fun _ _ => True) w₁ w₂)
    (hmode : ∀ l, w₁.memory = some l → l.mode = .shutdown) :
    ∀ l, w₂.memory = some l → l.mode = .shutdown := by
  have hsound : ∀ {v}, Reachable ledger (fun _ => False) (fun _ _ => True) w₁ v →
      v.Has Ledger.Sound := fun hv =>
    hv.has (sound_run hreach) (fun hnever => hnever.elim)
      fun input l hl => (follows_handle hl input.2).mono fun _ h => h.sound
  refine h.serves hsound hmode (fun hnever => hnever.elim) fun input l hl hshutdown => ?_
  have hrefused : ¬ input.2.Admits l := by
    obtain ⟨sight, message⟩ := input
    intro hadmits
    cases message with
    | call caller request =>
      cases request with
      | start options child =>
        have hopen := (refusal_none hadmits).1
        rw [hshutdown] at hopen
        cases hopen
      | _ => exact hadmits
    | _ => exact hadmits
  exact (proper_handle hl input.2 hrefused).state.2.1.shutdown hshutdown

/-- After a loss or a restart, a start that is not refused finds everything completed that
was active then; and after a shutdown every start of the same server is refused. -/
theorem drain_before_readmission (h : Runs .initial w) :
    (∀ (sight : Sight) (message : Message) (l l' : Ledger) (w' : World Ledger Effect)
      (options : StartOptions), w.memory = some l → message.Loses l →
      Runs (w.after ledger (handle sight message l)) w' → w'.memory = some l' →
      refusal options l' = none → ∀ id, l.Active id → ¬ l'.Active id ∧
        ∃ result cleanup, (id, result, cleanup) ∈ l'.history.outcomes) ∧
    (∀ (input : LedgerOptions × Sight) (t : LedgerTurn) (l l' : Ledger) (w' : World Ledger Effect)
      (options : StartOptions), w.memory = none → w.saved = some l →
      ledger.boot input w.saved = some t → Runs (w.reopened.after ledger t) w' →
      w'.memory = some l' → refusal options l' = none → ∀ id, l.Active id → ¬ l'.Active id ∧
        ∃ result cleanup, (id, result, cleanup) ∈ l'.history.outcomes) ∧
    ∀ (sight : Sight) (caller : Caller) (l l' : Ledger) (w' : World Ledger Effect)
      (options : StartOptions), w.memory = some l →
      Reachable ledger (fun _ => False) (fun _ _ => True)
        (w.after ledger (handle sight (.call caller .shutdown) l)) w' →
      w'.memory = some l' → refusal options l' ≠ none := by
  refine ⟨fun sight message l l' w' options hup hloses hrun hl' hnone id hid => ?_,
    fun input t l l' w' options hdown hsaved hboot hrun hl' hnone id hid => ?_,
    fun sight caller l l' w' options hup hrun hl' hnone => ?_⟩
  · have hl : l.Sound := sound_run h l (Or.inr hup)
    obtain ⟨hbarred, hsaves⟩ := @barred_loss l sight hl message hloses
    have hstep : Runs w (w.after ledger (handle sight message l)) := run_handle hup
    have hstored : (w.after ledger (handle sight message l)).saved = some _ := hsaves w.saved
    have hthen := barred_run hrun (has_saved hbarred hsaves)
      (Option.isSome_iff_exists.mpr ⟨_, hstored⟩) l' (Or.inr hl')
    have hdone := hthen.closed (refusal_none hnone).1 id hid
    have hbefore := synchronous_run h l hup
    exact ⟨hdone, completed_since hthen.sound
      (evolves_run h (hstep.trans hrun) hbefore l' (Or.inr hl')).2 hid hdone⟩
  · have hl : l.Sound := sound_run h l (Or.inl hsaved)
    have hbarred : t.Keeps Effect.stored (Ledger.Barred l.Active) := by
      have hrestored : (input.1.restore (some l)).Barred l.Active := by
        refine ⟨sound_restore fun s hs => (Option.some.inj hs) ▸ hl, fun id hid => ?_,
          fun hopen => by cases hopen⟩
        obtain ⟨entry, hlookup, -⟩ := hid
        exact hl.fresh id (AList.lookup_isSome.mp (hlookup ▸ rfl))
      rw [hsaved] at hboot
      exact keeps_boot hboot (fun s hs => (Option.some.inj hs) ▸ hl) fun l₁ hl₁ hmoves =>
        barred_evolves hrestored hl₁ hmoves.evolves
    have hsaves : t.Saves Effect.stored := saves_init hboot
    have hstep : Runs w (w.reopened.after ledger t) := Reachable.refl.step (.boot hdown trivial hboot)
    have hstored : (w.reopened.after ledger t).saved = some t.state := hsaves w.saved
    have hthen := barred_run hrun (has_saved hbarred hsaves)
      (Option.isSome_iff_exists.mpr ⟨_, hstored⟩) l' (Or.inr hl')
    have hdone := hthen.closed (refusal_none hnone).1 id hid
    exact ⟨hdone, completed_since hthen.sound
      (evolves_run h (hstep.trans hrun) hsaved l' (Or.inr hl')).2 hid hdone⟩
  · have hl : l.Sound := sound_run h l (Or.inr hup)
    have hstep : Runs w (w.after ledger (handle sight (.call caller .shutdown) l)) :=
      run_handle hup
    have hmode : (handle sight (.call caller .shutdown) l).state.mode = .shutdown := by
      have hsame : l.SameAccounts
          { l with mode := .shutdown, shutdownWaiters := caller :: l.shutdownWaiters } :=
        ⟨rfl, rfl, rfl, rfl⟩
      have hrest := (proper_drain _ (hl.congr hsame)).andThen fun l₁ hl₁ =>
        (proper_armTimer l₁ hl₁).andThen fun l₂ hl₂ =>
          (@proper_settle sight l₂ hl₂).andThen proper_persist
      exact hrest.state.2.1.shutdown rfl
    have hstill := shutdown_lasts (h.trans hstep) hrun
      (fun l₁ hl₁ => Option.some.inj hl₁ ▸ hmode) l' hl'
    have hopen := (refusal_none hnone).1
    rw [hstill] at hopen
    cases hopen

/-- The manager is lost while a virtual machine runs, another one attaches, and the virtual
machine completes. -/
def readmitting : World Ledger Effect :=
  (((oneStarted.handled ledger ({}, .down 2 (.atom "killed"))).handled ledger
    ({}, .call 5 (.attachManager 4)))).handled ledger ({}, .call 6 (.finished 0 11 .ok .ok))

/-- Starts are admitted again when the virtual machine has completed. -/
theorem drain_before_readmission_oneStarted : ∃ l l', oneStarted.memory = some l ∧
    readmitting.memory = some l' ∧ l.Active 0 ∧
      refusal { command := true, owner := 9 } l' = none ∧ ¬ l'.Active 0 ∧
      ∃ result cleanup, (0, result, cleanup) ∈ l'.history.outcomes := by
  obtain ⟨l, hl⟩ := Option.isSome_iff_exists.mp
    (by decide +kernel : oneStarted.memory.isSome = true)
  obtain ⟨l', hl'⟩ := Option.isSome_iff_exists.mp
    (by decide +kernel : readmitting.memory.isSome = true)
  have hlost : ∀ l ∈ oneStarted.memory, l.monitors.lookup 2 = some .manager := by decide +kernel
  have hactive : ∀ l ∈ oneStarted.memory, (l.entries.lookup 0).any Entry.active = true := by
    decide +kernel
  have hopen : ∀ l ∈ readmitting.memory, refusal { command := true, owner := 9 } l = none := by
    decide +kernel
  obtain ⟨entry, hentry⟩ := (Option.any_eq_true _ _).mp (hactive l hl)
  have hthere : l.Active 0 := ⟨entry, hentry⟩
  have hloses : (Message.down 2 (.atom "killed")).Loses l := by
    change l.monitors.lookup 2 ∈ _
    rw [hlost l hl]
    exact List.mem_cons_self
  have hrun : Runs (oneStarted.after ledger (handle {} (.down 2 (.atom "killed")) l)) readmitting := by
    have hfirst : oneStarted.handled ledger ({}, .down 2 (.atom "killed")) =
        oneStarted.after ledger (handle {} (.down 2 (.atom "killed")) l) := by
      unfold World.handled
      rw [hl]
      rfl
    rw [← hfirst]
    exact (Reachable.refl.handled trivial).handled trivial
  exact ⟨l, l', hl, hl', hthere, hopen l' hl', (drain_before_readmission run_oneStarted).1 {}
    (.down 2 (.atom "killed")) l l' readmitting _ hl hloses hrun hl' (hopen l' hl') 0 hthere⟩

end Draining

end Sower.Vm
