import Mathlib.Order.Lattice
import Mathlib.Data.List.Pairwise

/-!
# Tables in the order of their keys

A table holds one value for a key and knows which of its keys is the first one. Whoever
inserts behind all keys appends, and whoever takes the first key takes the head: a table
whose keys are given out in order is a queue.
-/

universe u v

/-- Entries in the order of their keys, each of which has one. -/
structure OrderedSet (κ : Type u) (α : Type v) [LinearOrder κ] where
  entries : List (κ × α)
  sorted : entries.Pairwise fun a b => a.1 < b.1

namespace OrderedSet

variable {κ : Type u} {α : Type v} [LinearOrder κ]

/-- The table without entries. -/
def empty : OrderedSet κ α := ⟨[], List.Pairwise.nil⟩

/-- The first key. -/
def first? (t : OrderedSet κ α) : Option κ := t.entries.head?.map Prod.fst

def size (t : OrderedSet κ α) : ℕ := t.entries.length

/-- The value of a key. -/
def find? (t : OrderedSet κ α) (key : κ) : Option α :=
  (t.entries.find? (·.1 = key)).map Prod.snd

/-- Without the entry of a key. -/
def erase (t : OrderedSet κ α) (key : κ) : OrderedSet κ α where
  entries := t.entries.filter (·.1 ≠ key)
  sorted := t.sorted.filter _

/-- Entries with one more, which replaces the one of its key. -/
def place (key : κ) (value : α) : List (κ × α) → List (κ × α)
  | [] => [(key, value)]
  | entry :: rest =>
    if key < entry.1 then (key, value) :: entry :: rest
    else if entry.1 < key then entry :: place key value rest
    else (key, value) :: rest

variable {key : κ} {value : α} {entry : κ × α} {entries : List (κ × α)}

theorem mem_place (h : entry ∈ place key value entries) : entry = (key, value) ∨ entry ∈ entries := by
  induction entries with
  | nil => exact Or.inl (List.mem_singleton.mp h)
  | cons first rest ih =>
    unfold place at h
    split at h
    · exact List.mem_cons.mp h
    · split at h
      · rcases List.mem_cons.mp h with heq | hmem
        · exact Or.inr (heq ▸ List.mem_cons_self)
        · exact (ih hmem).imp_right (List.mem_cons_of_mem _)
      · exact (List.mem_cons.mp h).imp_right (List.mem_cons_of_mem _)

theorem sorted_place (h : entries.Pairwise fun a b => a.1 < b.1) :
    (place key value entries).Pairwise fun a b => a.1 < b.1 := by
  induction entries with
  | nil => exact List.pairwise_singleton _ _
  | cons first rest ih =>
    obtain ⟨hfirst, hrest⟩ := List.pairwise_cons.mp h
    unfold place
    split
    · rename_i hless
      refine List.pairwise_cons.mpr ⟨?_, h⟩
      intro other hmem
      rcases List.mem_cons.mp hmem with heq | hmem
      · rw [heq]
        exact hless
      · exact hless.trans (hfirst other hmem)
    · split
      · rename_i hless
        refine List.pairwise_cons.mpr ⟨?_, ih hrest⟩
        intro other hmem
        rcases mem_place hmem with heq | hmem
        · rw [heq]
          exact hless
        · exact hfirst other hmem
      · rename_i hnot hnot'
        have hsame : key = first.1 := le_antisymm (not_lt.mp hnot') (not_lt.mp hnot)
        refine List.pairwise_cons.mpr ⟨?_, hrest⟩
        intro other hmem
        rw [hsame]
        exact hfirst other hmem

/-- With an entry, which replaces the one of its key. -/
def insert (t : OrderedSet κ α) (record : κ × α) : OrderedSet κ α :=
  ⟨place record.1 record.2 t.entries, sorted_place t.sorted⟩

/-- With several entries. -/
def insertAll (t : OrderedSet κ α) (records : List (κ × α)) : OrderedSet κ α :=
  records.foldl insert t

variable {t : OrderedSet κ α} {record : κ × α} {records : List (κ × α)}

theorem find?_eq_some : t.find? key = some value ↔ (key, value) ∈ t.entries := by
  obtain ⟨entries, hsorted⟩ := t
  unfold find?
  dsimp only
  constructor
  · intro h
    obtain ⟨entry, hfind, hvalue⟩ := Option.map_eq_some_iff.mp h
    have hkey : entry.1 = key := by simpa using List.find?_some hfind
    have hentry : entry = (key, value) := Prod.ext hkey hvalue
    exact hentry ▸ List.mem_of_find?_eq_some hfind
  · intro hmem
    induction entries with
    | nil => cases hmem
    | cons first rest ih =>
      obtain ⟨hfirst, hrest⟩ := List.pairwise_cons.mp hsorted
      rcases List.mem_cons.mp hmem with heq | hmem
      · rw [← heq, List.find?_cons_of_pos (by simp)]
        rfl
      · have hne : first.1 ≠ key := (hfirst _ hmem).ne
        rw [List.find?_cons_of_neg (by simpa using hne)]
        exact ih hrest hmem

theorem mem_erase : entry ∈ (t.erase key).entries ↔ entry ∈ t.entries ∧ entry.1 ≠ key := by
  simp [erase]

theorem mem_place_of_new (hnew : ∀ entry ∈ entries, entry.1 ≠ key)
    (h : entry = (key, value) ∨ entry ∈ entries) : entry ∈ place key value entries := by
  induction entries with
  | nil => simpa [place] using h
  | cons first rest ih =>
    have hrest := ih fun other hmem => hnew other (List.mem_cons_of_mem _ hmem)
    have hfirst := hnew first List.mem_cons_self
    unfold place
    split
    · exact List.mem_cons.mpr h
    · split
      · rcases h with heq | hmem
        · exact List.mem_cons_of_mem _ (hrest (Or.inl heq))
        · rcases List.mem_cons.mp hmem with heq | hmem
          · rw [heq]
            exact List.mem_cons_self
          · exact List.mem_cons_of_mem _ (hrest (Or.inr hmem))
      · rename_i hnot hnot'
        exact absurd (le_antisymm (not_lt.mp hnot) (not_lt.mp hnot')) hfirst

/-- The entry of a key that is new. -/
theorem mem_insert_of_new (hnew : ∀ entry ∈ t.entries, entry.1 ≠ record.1) :
    entry ∈ (t.insert record).entries ↔ entry = record ∨ entry ∈ t.entries :=
  ⟨mem_place, mem_place_of_new hnew⟩

theorem mem_insertAll_of_new (hnew : ∀ entry ∈ t.entries, ∀ record ∈ records, entry.1 ≠ record.1)
    (hnodup : (records.map Prod.fst).Nodup) :
    entry ∈ (t.insertAll records).entries ↔ entry ∈ records ∨ entry ∈ t.entries := by
  induction records generalizing t with
  | nil => simp [insertAll]
  | cons record records ih =>
    obtain ⟨hfresh, hrest⟩ := List.nodup_cons.mp hnodup
    have hrecord := fun entry hmem => hnew entry hmem record List.mem_cons_self
    have hlater : ∀ entry ∈ (t.insert record).entries, ∀ other ∈ records, entry.1 ≠ other.1 := by
      intro entry hentry other hother
      rcases (mem_insert_of_new hrecord).mp hentry with heq | hmem
      · rw [heq]
        intro hsame
        exact hfresh (hsame ▸ List.mem_map_of_mem hother)
      · exact hnew entry hmem other (List.mem_cons_of_mem _ hother)
    change entry ∈ ((t.insert record).insertAll records).entries ↔ _
    rw [ih hlater hrest, mem_insert_of_new hrecord, List.mem_cons, or_left_comm, or_assoc]

theorem place_of_greater (h : ∀ entry ∈ entries, entry.1 < key) :
    place key value entries = entries ++ [(key, value)] := by
  induction entries with
  | nil => rfl
  | cons first rest ih =>
    have hfirst := h first List.mem_cons_self
    rw [place, if_neg hfirst.not_gt, if_pos hfirst,
      ih fun other hmem => h other (List.mem_cons_of_mem _ hmem)]
    rfl

/-- An entry behind all others is the last one. -/
theorem insert_of_greater (h : ∀ entry ∈ t.entries, entry.1 < record.1) :
    (t.insert record).entries = t.entries ++ [record] :=
  place_of_greater h

/-- Entries in order behind all others are the last ones. -/
theorem insertAll_of_greater (hsorted : records.Pairwise fun a b => a.1 < b.1)
    (h : ∀ entry ∈ t.entries, ∀ record ∈ records, entry.1 < record.1) :
    (t.insertAll records).entries = t.entries ++ records := by
  induction records generalizing t with
  | nil => simp [insertAll]
  | cons record records ih =>
    obtain ⟨hrecord, hrest⟩ := List.pairwise_cons.mp hsorted
    have hinsert := insert_of_greater fun entry hmem => h entry hmem record List.mem_cons_self
    have hlater : ∀ entry ∈ (t.insert record).entries, ∀ other ∈ records, entry.1 < other.1 := by
      intro entry hentry other hother
      rw [hinsert] at hentry
      rcases List.mem_append.mp hentry with hmem | hmem
      · exact h entry hmem other (List.mem_cons_of_mem _ hother)
      · rw [List.mem_singleton.mp hmem]
        exact hrecord other hother
    change ((t.insert record).insertAll records).entries = _
    rw [ih hrest hlater, hinsert, List.append_assoc]
    rfl

theorem first?_eq_none : t.first? = none ↔ t.entries = [] := by
  simp [first?]

/-- No key is before the first one. -/
theorem le_of_first? (h : t.first? = some key) :
    (∃ value, (key, value) ∈ t.entries) ∧ ∀ entry ∈ t.entries, key ≤ entry.1 := by
  have hsorted := t.sorted
  unfold first? at h
  cases hentries : t.entries with
  | nil =>
    rw [hentries] at h
    cases h
  | cons first rest =>
    rw [hentries] at h hsorted
    cases h
    obtain ⟨hfirst, -⟩ := List.pairwise_cons.mp hsorted
    refine ⟨⟨first.2, List.mem_cons_self⟩, ?_⟩
    intro entry hmem
    rcases List.mem_cons.mp hmem with heq | hmem
    · rw [heq]
    · exact (hfirst entry hmem).le

/-- Taking the first key takes the head. -/
theorem take_head (h : t.entries = record :: records) :
    t.first? = some record.1 ∧ t.find? record.1 = some record.2 ∧
      (t.erase record.1).entries = records := by
  have hsorted := t.sorted
  rw [h] at hsorted
  obtain ⟨hfirst, -⟩ := List.pairwise_cons.mp hsorted
  refine ⟨by simp [first?, h], find?_eq_some.mpr (h ▸ List.mem_cons_self), ?_⟩
  have hrest : records.filter (·.1 ≠ record.1) = records := by
    rw [List.filter_eq_self]
    intro entry hmem
    simpa using (hfirst entry hmem).ne'
  change t.entries.filter (·.1 ≠ record.1) = records
  rw [h, List.filter_cons_of_neg (by simp)]
  exact hrest

end OrderedSet
