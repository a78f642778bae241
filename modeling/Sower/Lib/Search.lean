import Mathlib.Data.List.Basic
import Mathlib.Order.Bounds.Basic

/-!
# Searches whose test may fail

The three list searches with a test in `Except`: the first hit, any hit and
all hits. An answer says that no test failed before it was reached; over a
strictly descending list the first hit is the greatest one.
-/

namespace Search

variable {ε α β : Type}

/-- A search that finds nothing has tested every element without a failure. -/
theorem findSomeM?_eq_ok_none {f : α → Except ε (Option β)} {xs : List α} :
    xs.findSomeM? f = .ok none ↔ ∀ x ∈ xs, f x = .ok none := by
  induction xs with
  | nil => simp [List.findSomeM?, pure, Except.pure]
  | cons x rest ih =>
    rw [List.findSomeM?, List.forall_mem_cons]
    rcases f x with e | _ | b
    · simp [bind, Except.bind]
    · simpa [bind, Except.bind] using ih
    · simp [bind, Except.bind, pure, Except.pure]

/-- The first hit of a search, with everything before it tested and missed. -/
theorem findSomeM?_eq_ok_some {f : α → Except ε (Option β)} {xs : List α} {b : β}
    (h : xs.findSomeM? f = .ok (some b)) :
    ∃ before x after, xs = before ++ x :: after ∧ f x = .ok (some b) ∧
      ∀ y ∈ before, f y = .ok none := by
  induction xs with
  | nil => simp [List.findSomeM?, pure, Except.pure] at h
  | cons x rest ih =>
    rw [List.findSomeM?] at h
    rcases hx : f x with e | _ | b'
    · simp [hx, bind, Except.bind] at h
    · have hrest : rest.findSomeM? f = .ok (some b) := by simpa [hx, bind, Except.bind] using h
      obtain ⟨before, y, after, rfl, hy, hbefore⟩ := ih hrest
      refine ⟨x :: before, y, after, rfl, hy, ?_⟩
      exact List.forall_mem_cons.mpr ⟨hx, hbefore⟩
    · have hb : b' = b := by simpa [hx, bind, Except.bind, pure, Except.pure] using h
      exact ⟨[], x, rest, rfl, hb ▸ hx, by simp⟩

/-- Over a strictly descending list the first hit is the greatest element
that does not miss; every greater element was tested and missed. -/
theorem findSomeM?_descending [PartialOrder α] {f : α → Except ε (Option β)} {xs : List α}
    (hxs : xs.Pairwise (· > ·)) {b : β} (h : xs.findSomeM? f = .ok (some b)) :
    ∃ x ∈ xs, f x = .ok (some b) ∧ ∀ y ∈ xs, ¬ y ≤ x → f y = .ok none := by
  obtain ⟨before, x, after, rfl, hx, hbefore⟩ := findSomeM?_eq_ok_some h
  refine ⟨x, by simp, hx, ?_⟩
  intro y hy hyx
  have hafter := (List.pairwise_cons.mp (List.pairwise_append.mp hxs).2.1).1
  rcases List.mem_append.mp hy with hy | hy
  · exact hbefore y hy
  · rcases List.mem_cons.mp hy with rfl | hy
    · exact absurd le_rfl hyx
    · exact absurd (hafter y hy).le hyx

/-- No hit: every element was tested and missed. -/
theorem anyM_eq_ok_false {p : α → Except ε Bool} {xs : List α} :
    xs.anyM p = .ok false ↔ ∀ x ∈ xs, p x = .ok false := by
  induction xs with
  | nil => simp [List.anyM, pure, Except.pure]
  | cons x rest ih =>
    rw [List.anyM, List.forall_mem_cons]
    rcases p x with e | _ | _
    · simp [bind, Except.bind]
    · simpa [bind, Except.bind] using ih
    · simp [bind, Except.bind, pure, Except.pure]

/-- A hit: some element tests true, and everything before it was tested and
missed. -/
theorem anyM_eq_ok_true {p : α → Except ε Bool} {xs : List α} :
    xs.anyM p = .ok true ↔ ∃ before x after, xs = before ++ x :: after ∧ p x = .ok true ∧
      ∀ y ∈ before, p y = .ok false := by
  induction xs with
  | nil => simp [List.anyM, pure, Except.pure]
  | cons x rest ih =>
    rw [List.anyM]
    constructor
    · intro h
      rcases hx : p x with e | _ | _
      · simp [hx, bind, Except.bind] at h
      · have hrest : rest.anyM p = .ok true := by simpa [hx, bind, Except.bind] using h
        obtain ⟨before, y, after, rfl, hy, hbefore⟩ := ih.mp hrest
        exact ⟨x :: before, y, after, rfl, hy, List.forall_mem_cons.mpr ⟨hx, hbefore⟩⟩
      · exact ⟨[], x, rest, rfl, hx, by simp⟩
    · rintro ⟨before, y, after, hsplit, hy, hbefore⟩
      rcases before with _ | ⟨first, before⟩
      · obtain ⟨rfl, rfl⟩ := List.cons.inj hsplit
        simp [hy, bind, Except.bind, pure, Except.pure]
      · obtain ⟨rfl, rfl⟩ := List.cons.inj hsplit
        obtain ⟨hx, hrest⟩ := List.forall_mem_cons.mp hbefore
        have hfound := ih.mpr ⟨before, y, after, rfl, hy, hrest⟩
        simpa [hx, bind, Except.bind] using hfound

/-- All elements that test true, in order; a failing test fails the search. -/
def hits (p : α → Except ε Bool) : List α → Except ε (List α)
  | [] => .ok []
  | x :: rest => do
    let hit ← p x
    let others ← hits p rest
    return if hit then x :: others else others

/-- A search for all hits answers only after testing every element. -/
theorem hits_eq_ok {p : α → Except ε Bool} {xs found : List α} (h : hits p xs = .ok found) :
    (∀ x ∈ xs, p x = .ok true ∨ p x = .ok false) ∧ ∀ x, x ∈ found ↔ x ∈ xs ∧ p x = .ok true := by
  induction xs generalizing found with
  | nil =>
    have hnil : [] = found := by simpa [hits] using h
    simp [← hnil]
  | cons x rest ih =>
    rw [hits] at h
    rcases hx : p x with e | hit
    · simp [hx, bind, Except.bind] at h
    · rcases hrest : hits p rest with e | others
      · simp [hx, hrest, bind, Except.bind] at h
      · obtain ⟨htested, hmem⟩ := ih hrest
        have hfound : (if hit then x :: others else others) = found := by
          simpa [hx, hrest, bind, Except.bind, pure, Except.pure] using h
        constructor
        · refine List.forall_mem_cons.mpr ⟨?_, htested⟩
          cases hit with
          | true => exact Or.inl hx
          | false => exact Or.inr hx
        · intro y
          rw [← hfound]
          cases hit with
          | true =>
            simp only [if_true, List.mem_cons, hmem]
            constructor
            · rintro (rfl | ⟨hy, hpy⟩)
              · exact ⟨Or.inl rfl, hx⟩
              · exact ⟨Or.inr hy, hpy⟩
            · rintro ⟨rfl | hy, hpy⟩
              · exact Or.inl rfl
              · exact Or.inr ⟨hy, hpy⟩
          | false =>
            simp only [Bool.false_eq_true, if_false, hmem, List.mem_cons]
            constructor
            · rintro ⟨hy, hpy⟩
              exact ⟨Or.inr hy, hpy⟩
            · rintro ⟨rfl | hy, hpy⟩
              · simp [hx] at hpy
              · exact ⟨hy, hpy⟩

/-- A search for all hits answers when no test fails. -/
theorem exists_hits {p : α → Except ε Bool} {xs : List α}
    (h : ∀ x ∈ xs, p x = .ok true ∨ p x = .ok false) : ∃ found, hits p xs = .ok found := by
  induction xs with
  | nil => exact ⟨[], rfl⟩
  | cons x rest ih =>
    obtain ⟨hx, hrest⟩ := List.forall_mem_cons.mp h
    obtain ⟨others, hothers⟩ := ih hrest
    rcases hx with hx | hx <;> simp [hits, hx, hothers, bind, Except.bind, pure, Except.pure]

section MapM

variable {f : α → Except ε β} {xs : List α} {ys : List β}

/-- A traversal answers exactly with the values of all its elements. -/
theorem mapM_eq_ok : xs.mapM f = .ok ys ↔ xs.map f = ys.map .ok := by
  induction xs generalizing ys with
  | nil => cases ys <;> simp [pure, Except.pure]
  | cons x rest ih =>
    rw [List.mapM_cons, List.map_cons]
    rcases hx : f x with e | y
    · cases ys <;> simp [bind, Except.bind]
    · rcases ys with _ | ⟨y', ys⟩
      · rcases rest.mapM f with e | others <;> simp [bind, Except.bind, pure, Except.pure]
      · rw [List.map_cons, List.cons.injEq, ← ih, Except.ok.injEq]
        rcases rest.mapM f with e | others <;> simp [bind, Except.bind, pure, Except.pure]

/-- The answers of a traversal are the values of its elements. -/
theorem mem_of_mapM_eq_ok (h : xs.mapM f = .ok ys) {y : β} : y ∈ ys ↔ ∃ x ∈ xs, f x = .ok y := by
  have hmem : y ∈ ys ↔ Except.ok y ∈ ys.map (Except.ok (ε := ε)) := by simp
  rw [hmem, ← mapM_eq_ok.mp h, List.mem_map]

/-- A traversal that answers has a value for each element. -/
theorem exists_of_mapM_eq_ok (h : xs.mapM f = .ok ys) {x : α} (hx : x ∈ xs) :
    ∃ y ∈ ys, f x = .ok y := by
  have hmem : f x ∈ ys.map Except.ok := mapM_eq_ok.mp h ▸ List.mem_map_of_mem hx
  obtain ⟨y, hy, hfy⟩ := List.mem_map.mp hmem
  exact ⟨y, hy, hfy.symm⟩

/-- A traversal that fails has failed at one of its elements. -/
theorem exists_of_mapM_eq_error {e : ε} (h : xs.mapM f = .error e) : ∃ x ∈ xs, f x = .error e := by
  induction xs with
  | nil => cases h
  | cons x rest ih =>
    rw [List.mapM_cons] at h
    rcases hx : f x with e' | y
    · have heq : e' = e := by simpa [hx, bind, Except.bind] using h
      exact ⟨x, List.mem_cons_self, hx.trans (congrArg _ heq)⟩
    · have hrest : rest.mapM f = .error e := by
        rcases hrest : rest.mapM f with e' | others
        · have heq : e' = e := by simpa [hx, hrest, bind, Except.bind] using h
          rw [heq]
        · simp [hx, hrest, bind, Except.bind, pure, Except.pure] at h
      obtain ⟨x', hmem, hfail⟩ := ih hrest
      exact ⟨x', List.mem_cons_of_mem x hmem, hfail⟩

end MapM

end Search
