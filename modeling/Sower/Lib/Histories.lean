import Sower.Lib.Traced

/-!
# Histories of traced computations

A history is everything that has happened so far, in order. What an entry needs to
have happened before it can be asked of all entries at once; a history is then
ordered by these needs.
-/

namespace Traced

variable {ε : Type}

section Ordered

variable {needs needs' : List ε → ε → Prop} {history : List ε} {e : ε}

/-- Every entry of the history comes after what it needs. -/
def Ordered (needs : List ε → ε → Prop) (history : List ε) : Prop :=
  ∀ before e after, history = before ++ e :: after → needs before e

theorem ordered_nil : Ordered needs [] := by
  intro before e after h
  cases before <;> cases h

/-- An entry may be added that finds what it needs. -/
theorem Ordered.concat (h : Ordered needs history) (he : needs history e) :
    Ordered needs (history ++ [e]) := by
  intro before e' after heq
  rcases after.eq_nil_or_concat with rfl | ⟨rest, last, rfl⟩
  · obtain ⟨rfl, hlast⟩ := List.append_inj' heq rfl
    cases hlast
    exact he
  · rw [List.concat_eq_append, ← List.cons_append, ← List.append_assoc] at heq
    obtain ⟨hhistory, _⟩ := List.append_inj' heq rfl
    exact h before e' rest hhistory

/-- Entries may be added each of which finds what it needs behind the earlier ones. -/
theorem Ordered.append {es : List ε} (h : Ordered needs history)
    (hes : ∀ before e after, es = before ++ e :: after → needs (history ++ before) e) :
    Ordered needs (history ++ es) := by
  induction es generalizing history with
  | nil =>
    rw [List.append_nil]
    exact h
  | cons e rest ih =>
    have hsplit (before : List ε) : history ++ [e] ++ before = history ++ e :: before := by simp
    have hfirst := hes [] e rest rfl
    rw [List.append_nil] at hfirst
    rw [← hsplit]
    refine ih (h.concat hfirst) fun before e' after heq => ?_
    rw [hsplit]
    apply hes (e :: before) e' after
    rw [heq, List.cons_append]

/-- Entries may be added that need nothing. -/
theorem Ordered.append_free {es : List ε} (h : Ordered needs history)
    (hes : ∀ e ∈ es, ∀ before, needs before e) : Ordered needs (history ++ es) := by
  refine h.append fun before e after heq => hes e ?_ _
  rw [heq]
  exact List.mem_append_right _ List.mem_cons_self

/-- Needs of one entry that every entry with it shares. -/
theorem Ordered.mono (h : Ordered needs history)
    (hneeds : ∀ before e, needs before e → needs' before e) : Ordered needs' history := by
  intro before e after heq
  exact hneeds before e (h before e after heq)

/-- What came before was ordered already. -/
theorem Ordered.of_append {later : List ε} (h : Ordered needs (history ++ later)) :
    Ordered needs history := by
  intro before e after heq
  apply h before e (after ++ later)
  rw [heq, List.append_assoc, List.cons_append]

end Ordered

end Traced
