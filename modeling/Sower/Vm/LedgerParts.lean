import Sower.Vm.Ledger

/-!
# What the parts of a ledger turn keep

Completion, eviction and recovery edit the same entries. An entry stays active
until its outcome is recorded, and from then on it keeps that outcome; it leaves
only with a certified cleanup. No part takes up more of the budgets, and the mode
is opened only when nothing is active.
-/

namespace Sower.Vm

open Durable

variable {l l' l'' : Ledger} {id : ℕ} {entry entry' : Entry} {sight : Sight}

section Vocabulary

/-- A virtual machine is active. -/
def Ledger.Active (l : Ledger) (id : ℕ) : Prop :=
  ∃ entry, l.entries.lookup id = some entry ∧ entry.active = true

/-- What holds of an entry: it is reserved until its cleanup is certified, and has its
outcome from its completion on. -/
structure Entry.Sound (outcomes : List (ℕ × Result × Cleanup)) (id : ℕ) (entry : Entry) :
    Prop where
  reserved : entry.reserved = decide (entry.status.cleanup ≠ some .ok)
  pending : entry.active = true →
    entry.status.cleanup = none ∧ ∀ outcome ∈ outcomes, outcome.1 ≠ id
  completed : entry.active = false → entry.waiters = [] ∧ ∃ result cleanup,
    entry.status.result = some result ∧ entry.status.cleanup = some cleanup ∧
      (id, result, cleanup) ∈ outcomes

/-- What holds of the ledger between any two of its effects. -/
structure Ledger.Sound (l : Ledger) : Prop where
  entries : ∀ id entry, l.entries.lookup id = some entry → entry.Sound l.history.outcomes id
  /-- Numbers of entries have been given out. -/
  fresh : ∀ id ∈ l.entries, id < l.history.ids
  /-- Completed virtual machines had numbers that have been given out. -/
  past : ∀ outcome ∈ l.history.outcomes, outcome.1 < l.history.ids
  /-- A virtual machine completes once. -/
  once : (l.history.outcomes.map Prod.fst).Nodup
  /-- Only a certified virtual machine is without an entry. -/
  gone : ∀ id result cleanup, (id, result, cleanup) ∈ l.history.outcomes →
    l.entries.lookup id = none → cleanup = .ok
  orderNodup : l.cleanOrder.Nodup
  /-- The order has the virtual machines that finished cleanly and are still there. -/
  order : ∀ id, id ∈ l.cleanOrder ↔
    ∃ entry, l.entries.lookup id = some entry ∧ entry.status.cleanup = some .ok

/-- What a part of a turn may make of the ledger, other than admitting a virtual machine. -/
structure Ledger.Moves (l l' : Ledger) : Prop where
  outcomes : l.history.outcomes <+: l'.history.outcomes
  ids : l'.history.ids = l.history.ids
  budgets : l'.budgets = l.budgets
  limit : l'.resultLimit = l.resultLimit
  used : ∀ d, l'.used d ≤ l.used d
  entries : ∀ id ∈ l'.entries, id ∈ l.entries
  /-- An entry leaves with a certified cleanup. -/
  kept : ∀ id ∈ l.entries, id ∉ l'.entries → ∃ result, (id, result, .ok) ∈ l'.history.outcomes
  active : ∀ id, l'.Active id → l.Active id
  /-- The mode is opened when nothing is active. -/
  opens : l'.mode = .open → l.mode = .open ∨ ∀ id, ¬ l'.Active id
  shutdown : l.mode = .shutdown → l'.mode = .shutdown

theorem Ledger.Moves.refl : l.Moves l where
  outcomes := List.prefix_rfl
  ids := rfl
  budgets := rfl
  limit := rfl
  used _ := le_rfl
  entries _ h := h
  kept _ h hnot := absurd h hnot
  active _ h := h
  opens h := Or.inl h
  shutdown h := h

theorem Ledger.Moves.trans (h : l.Moves l') (h' : l'.Moves l'') : l.Moves l'' where
  outcomes := h.outcomes.trans h'.outcomes
  ids := h'.ids.trans h.ids
  budgets := h'.budgets.trans h.budgets
  limit := h'.limit.trans h.limit
  used d := (h'.used d).trans (h.used d)
  entries id hid := h.entries id (h'.entries id hid)
  kept id hid hnot := by
    by_cases hmid : id ∈ l'.entries
    · exact h'.kept id hmid hnot
    · obtain ⟨result, hresult⟩ := h.kept id hid hmid
      exact ⟨result, h'.outcomes.subset hresult⟩
  active id hid := h.active id (h'.active id hid)
  opens hopen := by
    rcases h'.opens hopen with hopen' | hnone
    · rcases h.opens hopen' with hopen | hnone
      · exact Or.inl hopen
      · exact Or.inr fun id hid => hnone id (h'.active id hid)
    · exact Or.inr hnone
  shutdown hmode := h'.shutdown (h.shutdown hmode)

/-- The order grows at most up to its limit. -/
def Ledger.Bounds (l l' : Ledger) : Prop :=
  l'.cleanOrder.length ≤ max l.resultLimit l.cleanOrder.length

/-- A part of a turn keeps what holds of the ledger and moves on from it. -/
def Proper (l : Ledger) (t : LedgerTurn) : Prop :=
  t.Keeps Effect.stored fun l' => l'.Sound ∧ l.Moves l' ∧ l.Bounds l'

theorem Ledger.Bounds.trans (hmoves : l.Moves l') (h : l.Bounds l') (h' : l'.Bounds l'') :
    l.Bounds l'' := by
  unfold Ledger.Bounds at *
  rw [hmoves.limit] at h'
  omega

theorem bounds_of_order (h : l'.cleanOrder = l.cleanOrder) : l.Bounds l' := by
  unfold Ledger.Bounds
  rw [h]
  exact le_max_right _ _

/-- A part that starts from any sound ledger. -/
def ProperPart (f : Ledger → LedgerTurn) : Prop := ∀ l : Ledger, l.Sound → Proper l (f l)

theorem Proper.andThen {t : LedgerTurn} {f : Ledger → LedgerTurn} (ht : Proper l t)
    (hf : ProperPart f) : Proper l (t.andThen f) :=
  Turn.Keeps.andThen ht fun l' hl' => (hf l' hl'.1).mono fun _ h =>
    ⟨h.1, hl'.2.1.trans h.2.1, hl'.2.2.trans hl'.2.1 h.2.2⟩

/-- A part after one that has effects only. -/
theorem Proper.andThen_emit {effects : List Effect} {f : Ledger → LedgerTurn}
    (ht : Proper l (.emit effects l)) (hf : Proper l (f l)) :
    Proper l ((Turn.emit effects l).andThen f) := by
  refine ⟨hf.state, fun e he s hs => ?_⟩
  rcases List.mem_append.mp he with he | he
  · exact ht.stored e he s hs
  · exact hf.stored e he s hs

/-- A part that starts from a ledger in its place. -/
theorem Proper.from {t : LedgerTurn} (hmoves : l.Moves l') (hbounds : l.Bounds l')
    (ht : Proper l' t) : Proper l t :=
  ht.mono fun _ h => ⟨h.1, hmoves.trans h.2.1, hbounds.trans hmoves h.2.2⟩

theorem proper_still (hl : l.Sound) : Proper l (still l) :=
  keeps_silent ⟨hl, .refl, bounds_of_order rfl⟩ fun _ he => by cases he

theorem proper_persist : ProperPart persist := by
  refine fun l hl => ⟨⟨hl, .refl, bounds_of_order rfl⟩, fun e he s hs => ?_⟩
  rw [List.mem_singleton.mp he] at hs
  cases hs
  exact ⟨hl, .refl, bounds_of_order rfl⟩

theorem proper_emit {effects : List Effect} (hsilent : ∀ e ∈ effects, e.stored = none) :
    ProperPart (Turn.emit effects) :=
  fun _ hl => keeps_silent ⟨hl, .refl, bounds_of_order rfl⟩ hsilent

theorem proper_respond (caller : Caller) (answer : Answer) : ProperPart (respond caller answer) := by
  refine fun l hl => (proper_persist l hl).andThen (proper_emit fun e he => ?_)
  rw [List.mem_singleton.mp he]
  rfl

end Vocabulary

section Quiet

theorem busy_iff : l.busy = true ↔ ∃ id, l.Active id := by
  simp only [Ledger.busy, List.any_eq_true, Ledger.Active]
  constructor
  · rintro ⟨e, he, hactive⟩
    exact ⟨e.1, e.2, AList.mem_entries.mp he, hactive⟩
  · rintro ⟨id, entry, hlookup, hactive⟩
    exact ⟨⟨id, entry⟩, AList.mem_entries.mpr hlookup, hactive⟩

/-- The parts of the ledger that the accounts are about are the same. -/
structure Ledger.SameAccounts (l l' : Ledger) : Prop where
  entries : l'.entries = l.entries
  order : l'.cleanOrder = l.cleanOrder
  ids : l'.history.ids = l.history.ids
  outcomes : l'.history.outcomes = l.history.outcomes

theorem Ledger.Sound.congr (hl : l.Sound) (h : l.SameAccounts l') : l'.Sound where
  entries id entry hlookup := by
    rw [h.entries] at hlookup
    rw [h.outcomes]
    exact hl.entries id entry hlookup
  fresh id hid := by
    rw [h.entries] at hid
    rw [h.ids]
    exact hl.fresh id hid
  past outcome hmem := by
    rw [h.outcomes] at hmem
    rw [h.ids]
    exact hl.past outcome hmem
  once := by
    rw [h.outcomes]
    exact hl.once
  gone id result cleanup hmem hnone := by
    rw [h.outcomes] at hmem
    rw [h.entries] at hnone
    exact hl.gone id result cleanup hmem hnone
  orderNodup := by
    rw [h.order]
    exact hl.orderNodup
  order id := by
    rw [h.order, h.entries]
    exact hl.order id

/-- A part that only changes what the accounts are not about. -/
theorem Ledger.SameAccounts.moves (h : l.SameAccounts l') (hbudgets : l'.budgets = l.budgets)
    (hlimit : l'.resultLimit = l.resultLimit)
    (hopens : l'.mode = .open → l.mode = .open ∨ ∀ id, ¬ l.Active id)
    (hshutdown : l.mode = .shutdown → l'.mode = .shutdown) : l.Moves l' where
  outcomes := h.outcomes ▸ List.prefix_rfl
  ids := h.ids
  budgets := hbudgets
  limit := hlimit
  used d := by simp only [Ledger.used, h.entries, le_refl]
  entries id hid := h.entries ▸ hid
  kept id hid hnot := absurd (h.entries ▸ hid) hnot
  active id hid := by simpa only [Ledger.Active, h.entries] using hid
  opens hopen := by simpa only [Ledger.Active, h.entries] using hopens hopen
  shutdown := hshutdown

/-- A part without stored states that leaves the accounts and the mode alone. -/
theorem proper_quiet {effects : List Effect} (hl : l.Sound) (h : l.SameAccounts l')
    (hbudgets : l'.budgets = l.budgets) (hlimit : l'.resultLimit = l.resultLimit)
    (hmode : l'.mode = l.mode) (hsilent : ∀ e ∈ effects, e.stored = none) :
    Proper l (.emit effects l') :=
  keeps_silent ⟨hl.congr h, h.moves hbudgets hlimit (fun hopen => Or.inl (hmode ▸ hopen))
    fun hshutdown => hmode.trans hshutdown, bounds_of_order h.order⟩ hsilent

theorem stored_cancelEntry {result : Result} {e : Effect} (he : e ∈ cancelEntry entry result) :
    e.stored = none := by
  unfold cancelEntry at he
  split at he
  · rw [List.mem_singleton.mp he]
    rfl
  · rw [List.mem_singleton.mp he]
    rfl
  · cases he

theorem proper_drain : ProperPart drain := by
  refine fun l hl => proper_emit (fun e he => ?_) l hl
  obtain ⟨x, -, hx⟩ := List.mem_flatMap.mp he
  split at hx
  · exact stored_cancelEntry hx
  · cases hx

theorem proper_settle : ProperPart (settle sight) := by
  intro l hl
  unfold settle
  split
  · exact proper_still hl
  · rename_i hidle
    have hnone : ∀ id, ¬ l.Active id := fun id hid => hidle (busy_iff.mpr ⟨id, hid⟩)
    split
    · refine proper_quiet hl ⟨rfl, rfl, rfl, rfl⟩ rfl rfl rfl fun e he => ?_
      rcases List.mem_append.mp he with he | he
      · obtain ⟨caller, -, rfl⟩ := List.mem_map.mp he
        rfl
      · obtain ⟨ref, -, rfl⟩ := List.mem_map.mp he
        rfl
    · rename_i hmode
      split
      · have hsame : l.SameAccounts { l with mode := .open } := ⟨rfl, rfl, rfl, rfl⟩
        exact keeps_silent ⟨hl.congr hsame, hsame.moves rfl rfl (fun _ => Or.inr hnone)
          fun hshutdown => absurd hshutdown hmode, bounds_of_order rfl⟩ fun e he => by cases he
      · exact proper_still hl

theorem proper_monitor (pid : Option Pid) (kind : Kind) : ProperPart (monitor pid kind) := by
  intro l hl
  cases pid with
  | none => exact proper_still hl
  | some pid =>
    refine proper_quiet hl ⟨rfl, rfl, rfl, rfl⟩ rfl rfl rfl fun e he => ?_
    rcases List.mem_append.mp he with he | he
    · obtain ⟨m, -, rfl⟩ := List.mem_map.mp he
      rfl
    · rw [List.mem_singleton.mp he]
      rfl

theorem proper_armTimer : ProperPart armTimer := by
  intro l hl
  unfold armTimer
  split
  · exact proper_still hl
  · refine proper_quiet hl ⟨rfl, rfl, rfl, rfl⟩ rfl rfl rfl fun e he => ?_
    rw [List.mem_singleton.mp he]
    rfl

end Quiet

section Entries

/-- The accounts do not tell one entry from the other. -/
structure Entry.Like (entry entry' : Entry) : Prop where
  active : entry'.active = entry.active
  result : entry'.status.result = entry.status.result
  cleanup : entry'.status.cleanup = entry.status.cleanup
  reserved : entry'.reserved = entry.reserved
  resources : entry'.resources = entry.resources
  waiters : entry.active = false → entry'.waiters = entry.waiters

theorem Entry.Sound.like {outcomes : List (ℕ × Result × Cleanup)} (h : entry.Sound outcomes id)
    (hlike : entry.Like entry') : entry'.Sound outcomes id where
  reserved := by rw [hlike.reserved, hlike.cleanup, h.reserved]
  pending hactive := by
    rw [hlike.active] at hactive
    rw [hlike.cleanup]
    exact h.pending hactive
  completed hactive := by
    rw [hlike.active] at hactive
    rw [hlike.waiters hactive, hlike.result, hlike.cleanup]
    exact h.completed hactive

theorem lookup_insert_cases {id' : ℕ} {m : Entries} {found : Entry}
    (h : (m.insert id entry).lookup id' = some found) :
    id' = id ∧ found = entry ∨ id' ≠ id ∧ m.lookup id' = some found := by
  by_cases hid : id' = id
  · subst hid
    rw [AList.lookup_insert] at h
    exact Or.inl ⟨rfl, (Option.some.inj h).symm⟩
  · rw [AList.lookup_insert_ne hid] at h
    exact Or.inr ⟨hid, h⟩

/-- An entry is replaced by one that the accounts do not tell from it. -/
theorem sound_put (hl : l.Sound) (hlookup : l.entries.lookup id = some entry)
    (hlike : entry.Like entry') : (l.put id entry').Sound where
  entries id' found hfound := by
    rcases lookup_insert_cases hfound with ⟨rfl, rfl⟩ | ⟨-, hfound⟩
    · exact (hl.entries id' entry hlookup).like hlike
    · exact hl.entries id' found hfound
  fresh id' hid := by
    rcases AList.mem_insert _ |>.mp hid with rfl | hid
    · exact hl.fresh id' (AList.lookup_isSome.mp (hlookup ▸ rfl))
    · exact hl.fresh id' hid
  past := hl.past
  once := hl.once
  gone id' result cleanup hmem hnone := by
    refine hl.gone id' result cleanup hmem ?_
    by_cases hid : id' = id
    · subst hid
      have hsome : (l.entries.insert id' entry').lookup id' = none := hnone
      rw [AList.lookup_insert] at hsome
      cases hsome
    · have hsame : (l.entries.insert id entry').lookup id' = none := hnone
      rwa [AList.lookup_insert_ne hid] at hsame
  orderNodup := hl.orderNodup
  order id' := by
    refine (hl.order id').trans ?_
    change _ ↔ ∃ found, (l.entries.insert id entry').lookup id' = some found ∧ _
    by_cases hid : id' = id
    · subst hid
      rw [hlookup, AList.lookup_insert]
      simp only [Option.some.injEq, exists_eq_left', hlike.cleanup]
    · rw [AList.lookup_insert_ne hid]

theorem moves_put (hlookup : l.entries.lookup id = some entry) (hlike : entry.Like entry') :
    l.Moves (l.put id entry') where
  outcomes := List.prefix_rfl
  ids := rfl
  budgets := rfl
  limit := rfl
  used d := by
    refine (AList.total_insert_of_lookup hlookup ?_).le
    rw [hlike.reserved, hlike.resources]
  entries id' hid := by
    rcases AList.mem_insert _ |>.mp hid with rfl | hid
    · exact AList.lookup_isSome.mp (hlookup ▸ rfl)
    · exact hid
  kept id' hid hnot := absurd (AList.mem_insert _ |>.mpr (Or.inr hid)) hnot
  active id' := by
    rintro ⟨found, hfound, hactive⟩
    rcases lookup_insert_cases hfound with ⟨rfl, rfl⟩ | ⟨-, hfound⟩
    · exact ⟨entry, hlookup, hlike.active ▸ hactive⟩
    · exact ⟨found, hfound, hactive⟩
  opens hopen := Or.inl hopen
  shutdown hmode := hmode

/-- A part that starts with such a replacement. -/
theorem proper_put {f : Ledger → LedgerTurn} (hl : l.Sound)
    (hlookup : l.entries.lookup id = some entry) (hlike : entry.Like entry')
    (hf : ProperPart f) : Proper l (f (l.put id entry')) :=
  (hf _ (sound_put hl hlookup hlike)).from (moves_put hlookup hlike) (bounds_of_order rfl)

/-- A status in which only the guard, its processes and its reports differ. -/
theorem like_status {status : Status} (hphase : ({ entry with status := status } : Entry).active =
    entry.active) (hresult : status.result = entry.status.result)
    (hcleanup : status.cleanup = entry.status.cleanup) :
    entry.Like { entry with status := status } :=
  ⟨hphase, hresult, hcleanup, rfl, rfl, fun _ => rfl⟩

theorem apply_same (status : Status) (change : StatusChange) :
    (status.apply change).result = status.result ∧
      (status.apply change).cleanup = status.cleanup := by
  cases change <;> exact ⟨rfl, rfl⟩

/-- What a guard reports does not complete its virtual machine. -/
theorem active_apply (change : StatusChange) (hactive : entry.active = true) :
    ({ entry with status := entry.status.apply change } : Entry).active = true := by
  cases change with
  | phase progress => cases progress <;> rfl
  | _ => exact hactive

theorem like_foldl_apply (changes : List StatusChange) (hactive : entry.active = true) :
    entry.Like { entry with status := changes.foldl Status.apply entry.status } := by
  have hall : ∀ status : Status, ({ entry with status := status } : Entry).active = true →
      ({ entry with status := changes.foldl Status.apply status } : Entry).active = true ∧
        (changes.foldl Status.apply status).result = status.result ∧
        (changes.foldl Status.apply status).cleanup = status.cleanup := by
    induction changes with
    | nil => exact fun status hstatus => ⟨hstatus, rfl, rfl⟩
    | cons change rest ih =>
      intro status hstatus
      obtain ⟨hrest, hresult, hcleanup⟩ :=
        ih (status.apply change) (@active_apply { entry with status := status } change hstatus)
      exact ⟨hrest, hresult.trans (apply_same status change).1,
        hcleanup.trans (apply_same status change).2⟩
  obtain ⟨hstill, hresult, hcleanup⟩ := hall entry.status hactive
  exact like_status (hstill.trans hactive.symm) hresult hcleanup

theorem like_recoverStatus (sight : Sight) (id : ℕ) (entry : Entry) :
    entry.Like (recoverStatus sight id entry) := by
  unfold recoverStatus
  split
  · rename_i hactive
    exact like_foldl_apply _ hactive
  · exact ⟨rfl, rfl, rfl, rfl, rfl, fun _ => rfl⟩

theorem Entry.Like.trans {entry'' : Entry} (h : entry.Like entry') (h' : entry'.Like entry'') :
    entry.Like entry'' :=
  ⟨h'.active.trans h.active, h'.result.trans h.result, h'.cleanup.trans h.cleanup,
    h'.reserved.trans h.reserved, h'.resources.trans h.resources,
    fun hactive => (h'.waiters (h.active.trans hactive)).trans (h.waiters hactive)⟩

end Entries

section Completion

variable {result : Result} {cleanup : Cleanup} {guard : Option Pid}

/-- A virtual machine has one outcome. -/
theorem outcome_unique (hl : l.Sound) {result' : Result} {cleanup' : Cleanup}
    (h : (id, result, cleanup) ∈ l.history.outcomes)
    (h' : (id, result', cleanup') ∈ l.history.outcomes) : result = result' ∧ cleanup = cleanup' := by
  have hsame := List.inj_on_of_nodup_map hl.once h h' rfl
  cases hsame
  exact ⟨rfl, rfl⟩

/-- The ledger without the oldest of the virtual machines that finished cleanly. -/
abbrev Ledger.withoutOldest (l : Ledger) (id : ℕ) (rest : List ℕ) : Ledger :=
  { l with entries := l.entries.erase id, cleanOrder := rest }

theorem lookup_erase_cases {id' : ℕ} {m : Entries} {found : Entry}
    (h : (m.erase id).lookup id' = some found) : id' ≠ id ∧ m.lookup id' = some found := by
  by_cases hid : id' = id
  · subst hid
    rw [AList.lookup_erase] at h
    cases h
  · rw [AList.lookup_erase_ne hid] at h
    exact ⟨hid, h⟩

/-- The oldest of the virtual machines that finished cleanly has a certified outcome. -/
theorem certified_oldest (hl : l.Sound) {rest : List ℕ} (horder : l.cleanOrder = id :: rest) :
    ∃ result, (id, result, .ok) ∈ l.history.outcomes := by
  obtain ⟨entry, hlookup, hok⟩ := (hl.order id).mp (horder ▸ List.mem_cons_self)
  have hentry := hl.entries id entry hlookup
  have hdone : entry.active = false := by
    by_contra hactive
    rw [(hentry.pending (Bool.not_eq_false _ ▸ hactive)).1] at hok
    cases hok
  obtain ⟨-, result, cleanup, -, hcleanup, hmem⟩ := hentry.completed hdone
  rw [hok] at hcleanup
  cases hcleanup
  exact ⟨result, hmem⟩

theorem sound_withoutOldest (hl : l.Sound) {rest : List ℕ} (horder : l.cleanOrder = id :: rest) :
    (l.withoutOldest id rest).Sound where
  entries id' entry hlookup := hl.entries id' entry (lookup_erase_cases hlookup).2
  fresh id' hid := hl.fresh id' (AList.mem_erase.mp hid).2
  past := hl.past
  once := hl.once
  gone id' result cleanup hmem hnone := by
    by_cases hid : id' = id
    · subst hid
      obtain ⟨result', hok⟩ := certified_oldest hl horder
      exact (outcome_unique hl hmem hok).2
    · have hsame : (l.entries.erase id).lookup id' = none := hnone
      rw [AList.lookup_erase_ne hid] at hsame
      exact hl.gone id' result cleanup hmem hsame
  orderNodup := (List.nodup_cons.mp (horder ▸ hl.orderNodup)).2
  order id' := by
    have hnot : id ∉ rest := (List.nodup_cons.mp (horder ▸ hl.orderNodup)).1
    have hiff := hl.order id'
    rw [horder, List.mem_cons] at hiff
    constructor
    · intro hmem
      have hid : id' ≠ id := fun heq => hnot (heq ▸ hmem)
      obtain ⟨entry, hlookup, hok⟩ := hiff.mp (Or.inr hmem)
      exact ⟨entry, (AList.lookup_erase_ne hid).trans hlookup, hok⟩
    · rintro ⟨entry, hlookup, hok⟩
      obtain ⟨hid, hfound⟩ := lookup_erase_cases hlookup
      exact (hiff.mpr ⟨entry, hfound, hok⟩).resolve_left hid

theorem moves_withoutOldest (hl : l.Sound) {rest : List ℕ} (horder : l.cleanOrder = id :: rest) :
    l.Moves (l.withoutOldest id rest) where
  outcomes := List.prefix_rfl
  ids := rfl
  budgets := rfl
  limit := rfl
  used _ := AList.total_erase_le
  entries id' hid := (AList.mem_erase.mp hid).2
  kept id' hid hnot := by
    have heq : id' = id := by
      by_contra hne
      exact hnot (AList.mem_erase.mpr ⟨hne, hid⟩)
    obtain ⟨result, hresult⟩ := certified_oldest hl horder
    exact ⟨result, heq ▸ hresult⟩
  active id' := by
    rintro ⟨entry, hlookup, hactive⟩
    exact ⟨entry, (lookup_erase_cases hlookup).2, hactive⟩
  opens hopen := Or.inl hopen
  shutdown hmode := hmode

/-- Eviction keeps the accounts. When nothing is evicted the order is within its limit. -/
theorem keeps_evictFrom (order : List ℕ) (hl : l.Sound) (horder : l.cleanOrder = order) :
    (evictFrom order l).Keeps Effect.stored (fun l' => l'.Sound ∧ l.Moves l' ∧
      l'.cleanOrder.length ≤ max l.resultLimit (order.length - 1)) ∧
      (evictFrom order l).state.cleanOrder.length ≤ l.resultLimit := by
  induction order generalizing l with
  | nil =>
    have hempty : l.cleanOrder.length = 0 := horder ▸ rfl
    refine ⟨keeps_silent ⟨hl, .refl, ?_⟩ (fun e he => by cases he), ?_⟩
    · rw [hempty]
      exact Nat.zero_le _
    · change l.cleanOrder.length ≤ _
      rw [hempty]
      exact Nat.zero_le _
  | cons id rest ih =>
    unfold evictFrom
    split
    · rename_i hlimit
      have hl' := sound_withoutOldest hl horder
      have hmoves := moves_withoutOldest hl horder
      obtain ⟨hrest, hshort⟩ := ih hl' rfl
      have hfirst : ((l.withoutOldest id rest).cleanOrder).length ≤
          max l.resultLimit ((id :: rest).length - 1) := le_max_right _ _
      refine ⟨⟨⟨hrest.state.1, hmoves.trans hrest.state.2.1, ?_⟩, fun e he s hs => ?_⟩, hshort⟩
      · exact hshort.trans (le_max_left _ _)
      · simp only [Turn.andThen_effects, List.mem_append] at he
        rcases he with he | he | he
        · rw [List.mem_singleton.mp he] at hs
          cases hs
          exact ⟨hl', hmoves, hfirst⟩
        · rw [List.mem_singleton.mp he] at hs
          cases hs
        · obtain ⟨hsound, hmoves', hlength⟩ := hrest.stored e he s hs
          refine ⟨hsound, hmoves.trans hmoves', hlength.trans ?_⟩
          simp only [List.length_cons, Nat.add_sub_cancel]
          omega
    · rename_i hlimit
      have hshort : l.cleanOrder.length ≤ l.resultLimit := by
        rw [horder, List.length_cons]
        exact Nat.not_lt.mp hlimit
      exact ⟨keeps_silent ⟨hl, .refl, hshort.trans (le_max_left _ _)⟩ (fun e he => by cases he),
        hshort⟩

theorem proper_evict : ProperPart evict := by
  refine fun l hl => (keeps_evictFrom l.cleanOrder hl rfl).1.mono fun l' h => ⟨h.1, h.2.1, ?_⟩
  have hlength := h.2.2
  unfold Ledger.Bounds
  omega

theorem evict_length (hl : l.Sound) : (evict l).state.cleanOrder.length ≤ l.resultLimit :=
  (keeps_evictFrom l.cleanOrder hl rfl).2

theorem completed_inactive (entry : Entry) (result : Result) (cleanup : Cleanup) :
    (entry.completed result cleanup).active = false := by
  unfold Entry.active Entry.completed completedPhase
  split
  · rfl
  · cases entry.status.persistent <;> rfl

/-- The outcome of an active virtual machine is recorded. -/
theorem sound_withOutcome (hl : l.Sound) (hlookup : l.entries.lookup id = some entry)
    (hactive : entry.active = true) : (l.withOutcome id entry result cleanup).Sound := by
  obtain ⟨hnone, hpending⟩ := (hl.entries id entry hlookup).pending hactive
  have hnew : (id, result, cleanup) ∈ l.history.outcomes ++ [(id, result, cleanup)] :=
    List.mem_append_right _ List.mem_cons_self
  have hnot : id ∉ l.cleanOrder := by
    rw [hl.order]
    rintro ⟨found, hfound, hok⟩
    rw [hlookup] at hfound
    cases hfound
    rw [hnone] at hok
    cases hok
  refine ⟨fun id' found hfound => ?_, fun id' hid => ?_, fun outcome hmem => ?_, ?_,
    fun id' result' cleanup' hmem habsent => ?_, ?_, fun id' => ?_⟩
  · rcases lookup_insert_cases hfound with ⟨rfl, rfl⟩ | ⟨hid, hfound⟩
    · refine ⟨?_, fun h => ?_, fun _ => ⟨rfl, result, cleanup, rfl, rfl, hnew⟩⟩
      · change decide (cleanup ≠ .ok) = decide (some cleanup ≠ some Cleanup.ok)
        simp only [ne_eq, Option.some.injEq]
      · rw [completed_inactive] at h
        cases h
    · have hsound := hl.entries id' found hfound
      refine ⟨hsound.reserved, fun h => ⟨(hsound.pending h).1, fun outcome hmem => ?_⟩, fun h => ?_⟩
      · rcases List.mem_append.mp hmem with hmem | hmem
        · exact (hsound.pending h).2 outcome hmem
        · rw [List.mem_singleton.mp hmem]
          exact hid.symm
      · obtain ⟨hwaiters, r, c, hr, hc, hmem⟩ := hsound.completed h
        exact ⟨hwaiters, r, c, hr, hc, List.mem_append_left _ hmem⟩
  · rcases AList.mem_insert _ |>.mp hid with rfl | hid
    · exact hl.fresh id' (AList.lookup_isSome.mp (hlookup ▸ rfl))
    · exact hl.fresh id' hid
  · rcases List.mem_append.mp hmem with hmem | hmem
    · exact hl.past outcome hmem
    · rw [List.mem_singleton.mp hmem]
      exact hl.fresh id (AList.lookup_isSome.mp (hlookup ▸ rfl))
  · change ((l.history.outcomes ++ [(id, result, cleanup)]).map Prod.fst).Nodup
    rw [List.map_append]
    refine List.Nodup.append hl.once (List.nodup_singleton _) fun id' hid hsame => ?_
    obtain ⟨outcome, hmem, rfl⟩ := List.mem_map.mp hid
    exact hpending outcome hmem (List.mem_singleton.mp hsame)
  · by_cases hid : id' = id
    · subst hid
      have hsome : (l.entries.insert id' (entry.completed result cleanup)).lookup id' = none :=
        habsent
      rw [AList.lookup_insert] at hsome
      cases hsome
    · have hsame : (l.entries.insert id (entry.completed result cleanup)).lookup id' = none :=
        habsent
      rw [AList.lookup_insert_ne hid] at hsame
      rcases List.mem_append.mp hmem with hmem | hmem
      · exact hl.gone id' result' cleanup' hmem hsame
      · exact absurd (congrArg Prod.fst (List.mem_singleton.mp hmem)) hid
  · change (if cleanup = .ok then l.cleanOrder ++ [id] else l.cleanOrder).Nodup
    split
    · refine List.Nodup.append hl.orderNodup (List.nodup_singleton _) fun id' hid hsame => ?_
      exact hnot (List.mem_singleton.mp hsame ▸ hid)
    · exact hl.orderNodup
  · have hlist : id' ∈ (if cleanup = .ok then l.cleanOrder ++ [id] else l.cleanOrder) ↔
        id' ∈ l.cleanOrder ∨ cleanup = .ok ∧ id' = id := by
      split
      · rename_i hok
        rw [List.mem_append, List.mem_singleton]
        tauto
      · rename_i hfailed
        tauto
    refine hlist.trans ?_
    change _ ↔ ∃ found, (l.entries.insert id (entry.completed result cleanup)).lookup id' =
      some found ∧ _
    by_cases hid : id' = id
    · subst hid
      rw [AList.lookup_insert]
      simp only [Option.some.injEq, exists_eq_left', hnot, false_or, and_true]
      exact (Option.some.injEq cleanup .ok).symm ▸ Iff.rfl
    · rw [AList.lookup_insert_ne hid, hl.order id']
      simp only [hid, and_false, or_false]

theorem moves_withOutcome (hl : l.Sound) (hlookup : l.entries.lookup id = some entry)
    (hactive : entry.active = true) : l.Moves (l.withOutcome id entry result cleanup) where
  outcomes := List.prefix_append _ _
  ids := rfl
  budgets := rfl
  limit := rfl
  used d := by
    have hsound := hl.entries id entry hlookup
    have hreserved : entry.reserved = true := by
      rw [hsound.reserved, (hsound.pending hactive).1]
      rfl
    change (l.entries.insert id (entry.completed result cleanup)).total _ ≤ l.entries.total _
    rw [AList.total_insert, AList.total_of_lookup hlookup, hreserved, if_pos rfl]
    refine Nat.add_le_add_right ?_ _
    split
    · exact le_rfl
    · exact Nat.zero_le _
  entries id' hid := by
    rcases AList.mem_insert _ |>.mp hid with rfl | hid
    · exact AList.lookup_isSome.mp (hlookup ▸ rfl)
    · exact hid
  kept id' hid hnot := absurd (AList.mem_insert _ |>.mpr (Or.inr hid)) hnot
  active id' := by
    rintro ⟨found, hfound, hstill⟩
    rcases lookup_insert_cases hfound with ⟨rfl, rfl⟩ | ⟨-, hfound⟩
    · rw [completed_inactive] at hstill
      cases hstill
    · exact ⟨found, hfound, hstill⟩
  opens hopen := Or.inl hopen
  shutdown hmode := hmode

/-- Completion, whether it is the first one or not. -/
theorem proper_complete : ProperPart (complete sight id guard result cleanup) := by
  intro l hl
  unfold complete
  split
  · exact proper_still hl
  · rename_i entry hlookup
    split
    · rename_i hguard
      have hactive : entry.active = true := (Bool.and_eq_true _ _ ▸ hguard).2
      have hl' := @sound_withOutcome l id entry result cleanup hl hlookup hactive
      have hmoves := @moves_withOutcome l id entry result cleanup hl hlookup hactive
      have hlength : (l.withOutcome id entry result cleanup).cleanOrder.length - 1 ≤
          l.cleanOrder.length := by
        change (if cleanup = .ok then l.cleanOrder ++ [id] else l.cleanOrder).length - 1 ≤ _
        split
        · simp
        · exact Nat.sub_le _ _
      have hevict : Proper l (evict (l.withOutcome id entry result cleanup)) :=
        (keeps_evictFrom _ hl' rfl).1.mono fun l' h => by
          refine ⟨h.1, hmoves.trans h.2.1, ?_⟩
          have hshort := h.2.2
          have hlimit := hmoves.limit
          unfold Ledger.Bounds
          omega
      refine hevict.andThen fun l₁ hl₁ => (proper_persist l₁ hl₁).andThen fun l₂ hl₂ => ?_
      refine (proper_emit (fun e he => ?_) l₂ hl₂).andThen proper_settle
      obtain ⟨caller, -, rfl⟩ := List.mem_map.mp he
      rfl
    · exact proper_still hl

theorem proper_certificate : ProperPart (certificate sight id) := by
  intro l hl
  unfold certificate
  split
  · rename_i c entry _ hlookup
    exact proper_put hl hlookup (like_status rfl rfl rfl) proper_complete
  · exact proper_still hl

end Completion

end Sower.Vm
