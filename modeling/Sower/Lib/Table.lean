import Mathlib.Data.List.Nodup
import Mathlib.Data.List.MinMax
import Mathlib.Order.Basic

/-!
# Tables with an autoincrement primary key

Rows stand in insertion order under strictly increasing keys, all below the
next key to be given out. The two facts are fields of the structure, so a
table with a repeated key cannot be built and a lookup by key has one answer.
-/

namespace Keyed

variable {ρ : Type} {key : ρ → ℕ}

/-- Rows of one relation together with its key sequence. -/
structure Table (ρ : Type) (key : ρ → ℕ) where
  /-- The key the next inserted row receives. -/
  next : ℕ
  /-- All rows, oldest first. -/
  rows : List ρ
  /-- Keys strictly increase in insertion order. -/
  ordered : rows.Pairwise fun a b => key a < key b
  /-- Every key was given out by the sequence. -/
  fresh : ∀ r ∈ rows, key r < next

namespace Table

variable (t : Table ρ key)

/-- The table without rows. -/
def empty : Table ρ key := ⟨1, [], List.Pairwise.nil, by simp⟩

/-- The row with the given key. -/
def find? (id : ℕ) : Option ρ := t.rows.find? (key · == id)

/-- Append a row under the next key. -/
def insert (mk : ℕ → ρ) (hmk : ∀ n, key (mk n) = n) : Table ρ key where
  next := t.next + 1
  rows := t.rows ++ [mk t.next]
  ordered := by
    refine List.pairwise_append.mpr ⟨t.ordered, List.pairwise_singleton _ _, ?_⟩
    intro a ha b hb
    rw [List.mem_singleton.mp hb, hmk]
    exact t.fresh a ha
  fresh := by
    intro r hr
    rcases List.mem_append.mp hr with hold | hnew
    · exact (t.fresh r hold).trans (Nat.lt_succ_self _)
    · rw [List.mem_singleton.mp hnew, hmk]
      exact Nat.lt_succ_self _

/-- Rewrite every row that satisfies the condition, keeping all keys. -/
def update (p : ρ → Bool) (f : ρ → ρ) (hf : ∀ r, key (f r) = key r) : Table ρ key where
  next := t.next
  rows := t.rows.map fun r => if p r then f r else r
  ordered := by
    refine List.pairwise_map.mpr (t.ordered.imp ?_)
    intro a b hab
    split <;> split <;> simpa only [hf] using hab
  fresh := by
    intro r hr
    obtain ⟨r₀, hr₀, rfl⟩ := List.mem_map.mp hr
    split
    · rw [hf]
      exact t.fresh r₀ hr₀
    · exact t.fresh r₀ hr₀

/-- Remove every row that satisfies the condition. -/
def delete (p : ρ → Bool) : Table ρ key where
  next := t.next
  rows := t.rows.filter fun r => !p r
  ordered := t.ordered.filter _
  fresh := by
    intro r hr
    exact t.fresh r (List.mem_filter.mp hr).1

/-- Give out the next key without inserting a row. -/
def reserve : Table ρ key where
  next := t.next + 1
  rows := t.rows
  ordered := t.ordered
  fresh r hr := (t.fresh r hr).trans (Nat.lt_succ_self _)

/-- The row can be added under its key: the key was given out and is not taken. -/
def Admits (r : ρ) : Prop := key r < t.next ∧ ∀ s ∈ t.rows, key s ≠ key r

instance (r : ρ) : Decidable (t.Admits r) :=
  inferInstanceAs (Decidable (key r < t.next ∧ ∀ s ∈ t.rows, key s ≠ key r))

/-- Add a row under a key that was given out before, among the rows with smaller
and with greater keys. -/
def place (r : ρ) : Table ρ key :=
  if h : t.Admits r then
    { next := t.next
      rows := t.rows.filter (key · < key r) ++ r :: t.rows.filter (key r < key ·)
      ordered := by
        refine List.pairwise_append.mpr ⟨t.ordered.filter _, ?_, ?_⟩
        · refine List.pairwise_cons.mpr ⟨?_, t.ordered.filter _⟩
          intro s hs
          simpa using (List.mem_filter.mp hs).2
        · intro a ha b hb
          have hlow : key a < key r := by simpa using (List.mem_filter.mp ha).2
          rcases List.mem_cons.mp hb with rfl | hb
          · exact hlow
          · have hhigh : key r < key b := by simpa using (List.mem_filter.mp hb).2
            exact hlow.trans hhigh
      fresh := by
        intro s hs
        rcases List.mem_append.mp hs with hs | hs
        · exact t.fresh s (List.mem_filter.mp hs).1
        · rcases List.mem_cons.mp hs with rfl | hs
          · exact h.1
          · exact t.fresh s (List.mem_filter.mp hs).1 }
  else t

variable {t}

/-- Two tables with the same rows and the same next key are the same. -/
@[ext] theorem ext {t t' : Table ρ key} (hnext : t.next = t'.next) (hrows : t.rows = t'.rows) :
    t = t' := by
  cases t
  cases t'
  cases hnext
  cases hrows
  rfl

/-- No key occurs twice. -/
theorem nodup_keys : (t.rows.map key).Nodup :=
  List.pairwise_map.mpr (t.ordered.imp fun h => h.ne)

/-- Two rows of a table with the same key are the same row. -/
theorem eq_of_key {a b : ρ} (ha : a ∈ t.rows) (hb : b ∈ t.rows) (h : key a = key b) : a = b :=
  List.inj_on_of_nodup_map nodup_keys ha hb h

/-- A lookup answers with exactly the row of that key. -/
theorem find?_eq_some_iff {id : ℕ} {r : ρ} : t.find? id = some r ↔ r ∈ t.rows ∧ key r = id := by
  constructor
  · intro h
    exact ⟨List.mem_of_find?_eq_some h, by simpa using List.find?_some h⟩
  · rintro ⟨hr, rfl⟩
    rcases hfind : t.find? (key r) with _ | r'
    · have hnone := List.find?_eq_none.mp hfind r hr
      simp at hnone
    · have hmem := List.mem_of_find?_eq_some hfind
      have hkey : key r' = key r := by simpa using List.find?_some hfind
      rw [eq_of_key hmem hr hkey]

/-- A lookup fails exactly for the keys that no row carries. -/
theorem find?_eq_none_iff {id : ℕ} : t.find? id = none ↔ ∀ r ∈ t.rows, key r ≠ id := by
  simp [find?, List.find?_eq_none]

theorem find?_of_mem {r : ρ} (h : r ∈ t.rows) : t.find? (key r) = some r :=
  find?_eq_some_iff.mpr ⟨h, rfl⟩

section Insert

variable {mk : ℕ → ρ} (hmk : ∀ n, key (mk n) = n)

@[simp] theorem mem_insert {r : ρ} : r ∈ (t.insert mk hmk).rows ↔ r ∈ t.rows ∨ r = mk t.next := by
  simp [insert]

/-- The new row is found under its key. -/
theorem find?_insert_next : (t.insert mk hmk).find? t.next = some (mk t.next) :=
  find?_eq_some_iff.mpr ⟨(mem_insert hmk).mpr (Or.inr rfl), hmk _⟩

/-- An insertion keeps every lookup that already succeeded. -/
theorem find?_insert_of_some {id : ℕ} {r : ρ} (h : t.find? id = some r) :
    (t.insert mk hmk).find? id = some r := by
  obtain ⟨hr, hid⟩ := find?_eq_some_iff.mp h
  exact find?_eq_some_iff.mpr ⟨(mem_insert hmk).mpr (Or.inl hr), hid⟩

/-- A lookup after an insertion finds an old row or the new one. -/
theorem find?_insert_cases {id : ℕ} {r : ρ} (h : (t.insert mk hmk).find? id = some r) :
    t.find? id = some r ∨ r = mk t.next := by
  obtain ⟨hr, hid⟩ := find?_eq_some_iff.mp h
  rcases (mem_insert hmk).mp hr with hold | hnew
  · exact Or.inl (find?_eq_some_iff.mpr ⟨hold, hid⟩)
  · exact Or.inr hnew

end Insert

section Place

variable {r : ρ}

@[simp] theorem reserve_rows : t.reserve.rows = t.rows := rfl

@[simp] theorem find?_reserve (id : ℕ) : t.reserve.find? id = t.find? id := rfl

theorem mem_place (h : t.Admits r) {s : ρ} : s ∈ (t.place r).rows ↔ s ∈ t.rows ∨ s = r := by
  rw [place, dif_pos h]
  simp only [List.mem_append, List.mem_filter, List.mem_cons, decide_eq_true_eq]
  constructor
  · rintro (⟨hs, _⟩ | rfl | ⟨hs, _⟩)
    · exact Or.inl hs
    · exact Or.inr rfl
    · exact Or.inl hs
  · rintro (hs | rfl)
    · rcases lt_or_gt_of_ne (h.2 s hs) with hlow | hhigh
      · exact Or.inl ⟨hs, hlow⟩
      · exact Or.inr (Or.inr ⟨hs, hhigh⟩)
    · exact Or.inr (Or.inl rfl)

@[simp] theorem place_next : (t.place r).next = t.next := by
  unfold place
  split <;> rfl

theorem place_of_not_admits (h : ¬ t.Admits r) : t.place r = t := by
  rw [place, dif_neg h]

/-- Every row of the table stays, and at most the added one is new. -/
theorem mem_place_cases {s : ρ} (h : s ∈ (t.place r).rows) : s ∈ t.rows ∨ s = r ∧ t.Admits r := by
  by_cases hadmits : t.Admits r
  · exact ((mem_place hadmits).mp h).imp_right fun hs => ⟨hs, hadmits⟩
  · rw [place_of_not_admits hadmits] at h
    exact Or.inl h

theorem mem_place_of_mem {s : ρ} (h : s ∈ t.rows) : s ∈ (t.place r).rows := by
  by_cases hadmits : t.Admits r
  · exact (mem_place hadmits).mpr (Or.inl h)
  · rwa [place_of_not_admits hadmits]

/-- An addition keeps every lookup that already succeeded. -/
theorem find?_place_of_some {id : ℕ} {s : ρ} (h : t.find? id = some s) :
    (t.place r).find? id = some s := by
  obtain ⟨hs, hid⟩ := find?_eq_some_iff.mp h
  exact find?_eq_some_iff.mpr ⟨mem_place_of_mem hs, hid⟩

/-- After an addition the key of the row is taken. -/
theorem exists_find?_place (h : key r < t.next) : ∃ s, (t.place r).find? (key r) = some s := by
  by_cases hadmits : t.Admits r
  · exact ⟨r, find?_eq_some_iff.mpr ⟨(mem_place hadmits).mpr (Or.inr rfl), rfl⟩⟩
  · rw [place_of_not_admits hadmits]
    rcases hfind : t.find? (key r) with _ | s
    · exact absurd ⟨h, find?_eq_none_iff.mp hfind⟩ hadmits
    · exact ⟨s, rfl⟩

/-- An addition behind all rows of one kind appends to them. -/
theorem filter_place (h : t.Admits r) {p : ρ → Bool} (hp : p r = true)
    (hbehind : ∀ s ∈ t.rows, p s = true → key s < key r) :
    (t.place r).rows.filter p = t.rows.filter p ++ [r] := by
  have hhigh : (t.rows.filter (key r < key ·)).filter p = [] := by
    rw [List.filter_eq_nil_iff]
    intro s hs hps
    obtain ⟨hmem, hlt⟩ := List.mem_filter.mp hs
    have hlow := hbehind s hmem hps
    simp only [decide_eq_true_eq] at hlt
    omega
  have hlow : (t.rows.filter (key · < key r)).filter p = t.rows.filter p := by
    rw [List.filter_filter]
    refine List.filter_congr fun s hs => ?_
    rcases hps : p s with _ | _
    · rfl
    · simpa using hbehind s hs hps
  rw [place, dif_pos h, List.filter_append, List.filter_cons_of_pos hp, hhigh, hlow]

/-- An addition to rows of another kind. -/
theorem filter_place_of_neg {p : ρ → Bool} (hp : p r = false) :
    (t.place r).rows.filter p = t.rows.filter p := by
  by_cases hadmits : t.Admits r
  · have hsplit : ∀ rows : List ρ, rows.Pairwise (fun a b => key a < key b) →
        (∀ s ∈ rows, key s ≠ key r) →
        rows.filter (key · < key r) ++ rows.filter (key r < key ·) = rows := by
      intro rows hrows hne
      induction rows with
      | nil => rfl
      | cons s rest ih =>
        obtain ⟨hfirst, hrest⟩ := List.pairwise_cons.mp hrows
        obtain ⟨hs, hothers⟩ := List.forall_mem_cons.mp hne
        have hrec := ih hrest hothers
        rcases lt_or_gt_of_ne hs with hlow | hhigh
        · rw [List.filter_cons_of_pos (by simpa using hlow),
            List.filter_cons_of_neg (by simpa using hlow.le), List.cons_append, hrec]
        · have hnone : rest.filter (key · < key r) = [] := by
            rw [List.filter_eq_nil_iff]
            intro s' hs'
            have hlt := hfirst s' hs'
            simp only [decide_eq_true_eq]
            omega
          have hall : rest.filter (key r < key ·) = rest := by
            rwa [hnone, List.nil_append] at hrec
          rw [List.filter_cons_of_neg (by simpa using hhigh.le), hnone, List.nil_append,
            List.filter_cons_of_pos (by simpa using hhigh), hall]
    rw [place, dif_pos hadmits]
    dsimp only
    rw [List.filter_append, List.filter_cons_of_neg (by simp [hp]), ← List.filter_append,
      hsplit t.rows t.ordered hadmits.2]
  · rw [place_of_not_admits hadmits]

/-- Giving out the next key and adding its row is an insertion. -/
theorem place_reserve (mk : ℕ → ρ) (hmk : ∀ n, key (mk n) = n) :
    t.reserve.place (mk t.next) = t.insert mk hmk := by
  have hadmits : t.reserve.Admits (mk t.next) := by
    refine ⟨?_, fun s hs => ?_⟩
    · rw [hmk]
      exact Nat.lt_succ_self _
    · rw [hmk]
      exact (t.fresh s hs).ne
  have hlow : t.rows.filter (key · < key (mk t.next)) = t.rows := by
    refine List.filter_eq_self.mpr fun s hs => ?_
    simpa [hmk] using t.fresh s hs
  have hhigh : t.rows.filter (key (mk t.next) < key ·) = [] := by
    refine List.filter_eq_nil_iff.mpr fun s hs => ?_
    simpa [hmk] using (t.fresh s hs).le
  rw [place, dif_pos hadmits]
  refine ext rfl ?_
  change t.rows.filter (key · < key (mk t.next)) ++ mk t.next ::
    t.rows.filter (key (mk t.next) < key ·) = t.rows ++ [mk t.next]
  rw [hlow, hhigh]

end Place

section Update

variable {p : ρ → Bool} {f : ρ → ρ}

theorem mem_update (hf : ∀ r, key (f r) = key r) {r : ρ} :
    r ∈ (t.update p f hf).rows ↔ ∃ r₀ ∈ t.rows, (if p r₀ then f r₀ else r₀) = r := by
  simp [update]

/-- A lookup after an update is the updated row of the lookup before it. -/
@[simp] theorem find?_update (hf : ∀ r, key (f r) = key r) (id : ℕ) :
    (t.update p f hf).find? id = (t.find? id).map fun r => if p r then f r else r := by
  rcases h : t.find? id with _ | r
  · rw [Option.map_none, find?_eq_none_iff]
    intro r hr
    obtain ⟨r₀, hr₀, rfl⟩ := (mem_update hf).mp hr
    have hne := find?_eq_none_iff.mp h r₀ hr₀
    split
    · rwa [hf]
    · exact hne
  · obtain ⟨hr, hid⟩ := find?_eq_some_iff.mp h
    rw [Option.map_some, find?_eq_some_iff]
    refine ⟨(mem_update hf).mpr ⟨r, hr, rfl⟩, ?_⟩
    split
    · rwa [hf]
    · exact hid

end Update

section Frame

variable {p : ρ → Bool} {f : ρ → ρ} {r : ρ}

/-- An update leaves a row of a kind that it neither reads nor writes. -/
theorem mem_update_of_other (kind : ρ → Prop) (hf : ∀ r, key (f r) = key r)
    (hother : ∀ s ∈ t.rows, p s = true → ¬ kind s ∧ ¬ kind (f s)) (hr : kind r) :
    r ∈ (t.update p f hf).rows ↔ r ∈ t.rows := by
  rw [mem_update]
  constructor
  · rintro ⟨s, hs, hwritten⟩
    rcases hp : p s with _ | _
    · rw [if_neg (by simp [hp])] at hwritten
      rwa [← hwritten]
    · rw [if_pos hp] at hwritten
      exact absurd (hwritten ▸ hr) (hother s hs hp).2
  · intro hmem
    refine ⟨r, hmem, if_neg fun hp => ?_⟩
    exact (hother r hmem hp).1 hr

/-- An insertion leaves a row of another kind. -/
theorem mem_insert_of_ne {mk : ℕ → ρ} (hmk : ∀ n, key (mk n) = n) (hr : r ≠ mk t.next) :
    r ∈ (t.insert mk hmk).rows ↔ r ∈ t.rows := by
  rw [mem_insert]
  exact or_iff_left hr

@[simp] theorem mem_delete : r ∈ (t.delete p).rows ↔ r ∈ t.rows ∧ p r = false := by
  simp [delete]

end Frame

end Table

section Rebuild

variable {β : Type}

/-- Entries looked up again by their keys, in any order, are the original ones
exactly when every key leads back to its entry. -/
theorem filterMap_perm_iff {f : ℕ → Option β} {key : β → ℕ}
    (hkey : ∀ {id b}, f id = some b → key b = id) {ids : List ℕ} {entries : List β}
    (hids : ids.Perm (entries.map key)) :
    (ids.filterMap f).Perm entries ↔ ∀ b ∈ entries, f (key b) = some b := by
  constructor
  · intro hperm b hb
    obtain ⟨id, _, hid⟩ := List.mem_filterMap.mp (hperm.mem_iff.mpr hb)
    rw [hkey hid]
    exact hid
  · intro hback
    have hself : (entries.map key).filterMap f = entries := by
      rw [List.filterMap_map]
      calc entries.filterMap (f ∘ key) = entries.filterMap some :=
            List.filterMap_congr fun b hb => hback b hb
        _ = entries := List.filterMap_some
    exact (hids.filterMap f).trans (.of_eq hself)

end Rebuild

end Keyed
