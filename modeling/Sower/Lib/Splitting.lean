import Mathlib.Data.List.Basic

/-!
# Cutting a text into pieces

A text is cut at the first occurrence of a letter, or wherever a scanner that goes
through it letter by letter says so. What the scanner says may depend on the letters
before.
-/

namespace Splitting

universe u v

variable {α : Type u} {σ : Type v}

section Once

variable [DecidableEq α] {a : α} {text before after : List α}

/-- What stands before the first occurrence of the letter, and behind it. -/
def splitOnce (a : α) : List α → Option (List α × List α)
  | [] => none
  | b :: text =>
    if b = a then some ([], text)
    else (splitOnce a text).map fun (before, after) => (b :: before, after)

theorem splitOnce_append (h : a ∉ before) (after : List α) :
    splitOnce a (before ++ a :: after) = some (before, after) := by
  induction before with
  | nil => exact if_pos rfl
  | cons b before ih =>
    have hne : b ≠ a := fun heq => h (heq ▸ List.mem_cons_self)
    have hrest : a ∉ before := fun hmem => h (List.mem_cons_of_mem _ hmem)
    rw [List.cons_append, splitOnce, if_neg hne, ih hrest]
    rfl

/-- Where a text is cut is unique. -/
theorem append_cons_inj {before' after' : List α} (h : a ∉ before) (h' : a ∉ before')
    (heq : before ++ a :: after = before' ++ a :: after') : before = before' ∧ after = after' := by
  have hsplit := splitOnce_append h after
  rw [heq, splitOnce_append h' after'] at hsplit
  cases hsplit
  exact ⟨rfl, rfl⟩

theorem splitOnce_eq_none (h : a ∉ text) : splitOnce a text = none := by
  induction text with
  | nil => rfl
  | cons b text ih =>
    have hne : b ≠ a := fun heq => h (heq ▸ List.mem_cons_self)
    rw [splitOnce, if_neg hne, ih fun hmem => h (List.mem_cons_of_mem _ hmem)]
    rfl

theorem splitOnce_spec (h : splitOnce a text = some (before, after)) :
    text = before ++ a :: after ∧ a ∉ before := by
  induction text generalizing before with
  | nil => cases h
  | cons b text ih =>
    rw [splitOnce] at h
    split at h
    · rename_i heq
      cases h
      exact ⟨congrArg (· :: after) heq, List.not_mem_nil⟩
    · rename_i hne
      obtain ⟨⟨first, rest⟩, hrest, hcut⟩ := Option.map_eq_some_iff.mp h
      cases hcut
      obtain ⟨htext, hfirst⟩ := ih hrest
      refine ⟨congrArg (b :: ·) htext, fun hmem => ?_⟩
      cases List.mem_cons.mp hmem with
      | inl heq => exact hne heq.symm
      | inr hmem => exact hfirst hmem

omit [DecidableEq α] in
/-- Texts differ if what comes first in one comes later in the other, behind what the
first one has there. -/
theorem append_cons_ne {a b : α} {before before' after after' : List α} (hne : a ≠ b)
    (ha : a ∉ before') (hb : b ∉ before) : before ++ a :: after ≠ before' ++ b :: after' := by
  intro heq
  induction before generalizing before' with
  | nil =>
    cases before' with
    | nil => exact hne (List.cons_eq_cons.mp heq).1
    | cons c before' =>
      have hc : a = c := (List.cons_eq_cons.mp heq).1
      exact ha (hc ▸ List.mem_cons_self)
  | cons c before ih =>
    cases before' with
    | nil =>
      have hc : c = b := (List.cons_eq_cons.mp heq).1
      exact hb (hc ▸ List.mem_cons_self)
    | cons d before' =>
      have hrest := (List.cons_eq_cons.mp heq).2
      exact ih (fun hmem => ha (List.mem_cons_of_mem _ hmem))
        (fun hmem => hb (List.mem_cons_of_mem _ hmem)) hrest

omit [DecidableEq α] in
theorem cons_ne_append {a b : α} {before after after' : List α} (hne : a ≠ b) (ha : a ∉ before) :
    a :: after ≠ before ++ b :: after' := by
  have hnil : [] ++ a :: after ≠ before ++ b :: after' := append_cons_ne hne ha List.not_mem_nil
  exact hnil

end Once

section Scanned

variable {step : σ → α → σ × Bool} {s s' : σ} {a : α} {text rest : List α}

/-- The first piece and the others. The scanner cuts at letters, which belong to no piece. -/
def split (step : σ → α → σ × Bool) : σ → List α → List α × List (List α)
  | _, [] => ([], [])
  | s, a :: text =>
    let (s', cut) := step s a
    let (piece, others) := split step s' text
    if cut then ([], piece :: others) else (a :: piece, others)

/-- All pieces; there is always one. -/
def pieces (step : σ → α → σ × Bool) (s : σ) (text : List α) : List (List α) :=
  (split step s text).1 :: (split step s text).2

/-- The last piece. -/
def lastPiece (step : σ → α → σ × Bool) (s : σ) (text : List α) : List α :=
  (pieces step s text).getLast (List.cons_ne_nil _ _)

/-- State behind a text in which the scanner does not cut. -/
def walk (step : σ → α → σ × Bool) : σ → List α → Option σ
  | s, [] => some s
  | s, a :: text =>
    let (s', cut) := step s a
    if cut then none else walk step s' text

theorem split_cons_of_cut (h : step s a = (s', true)) :
    split step s (a :: text) = ([], pieces step s' text) := by
  unfold split
  rw [h]
  rfl

theorem split_cons_of_keep (h : step s a = (s', false)) :
    split step s (a :: text) = (a :: (split step s' text).1, (split step s' text).2) := by
  conv_lhs =>
    unfold split
    rw [h]
  rfl

/-- A text with no further piece is one piece. -/
theorem eq_of_split_single (h : (split step s text).2 = []) : (split step s text).1 = text := by
  induction text generalizing s with
  | nil => rfl
  | cons a text ih =>
    cases hstep : step s a with
    | mk s' cut =>
      cases cut with
      | true =>
        rw [split_cons_of_cut hstep] at h
        cases h
      | false =>
        rw [split_cons_of_keep hstep] at h ⊢
        exact congrArg (a :: ·) (ih h)

/-- A text without a cut belongs to the first piece of what follows. -/
theorem split_append (h : walk step s text = some s') :
    split step s (text ++ rest) = (text ++ (split step s' rest).1, (split step s' rest).2) := by
  induction text generalizing s with
  | nil =>
    cases h
    rfl
  | cons a text ih =>
    unfold walk at h
    cases hstep : step s a with
    | mk next cut =>
      rw [hstep] at h
      cases cut with
      | true => cases h
      | false =>
        rw [List.cons_append, split_cons_of_keep hstep, ih h]
        rfl

theorem walk_append (h : walk step s text = some s') :
    walk step s (text ++ rest) = walk step s' rest := by
  induction text generalizing s with
  | nil =>
    cases h
    rfl
  | cons a text ih =>
    unfold walk at h
    rw [List.cons_append, walk]
    cases hstep : step s a with
    | mk next cut =>
      rw [hstep] at h
      cases cut with
      | true => cases h
      | false => exact ih h

/-- A text without a cut is the last piece. -/
theorem lastPiece_of_walk (h : walk step s text = some s') : lastPiece step s text = text := by
  have hsplit : split step s (text ++ []) = (text ++ [], []) := split_append h
  rw [List.append_nil] at hsplit
  unfold lastPiece pieces
  simp only [hsplit, List.getLast_singleton]

/-- What stands before a cut does not change the last piece. -/
theorem lastPiece_append {next : σ} (h : walk step s text = some s')
    (hcut : step s' a = (next, true)) :
    lastPiece step s (text ++ a :: rest) = lastPiece step next rest := by
  have hsplit : split step s (text ++ a :: rest) = (text, pieces step next rest) := by
    rw [split_append h, split_cons_of_cut hcut, List.append_nil]
  unfold lastPiece
  simp only [pieces, hsplit, List.getLast_cons_cons]

end Scanned

end Splitting
