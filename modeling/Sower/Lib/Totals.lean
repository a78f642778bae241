import Mathlib.Algebra.BigOperators.Group.List.Basic
import Mathlib.Algebra.GroupWithZero.Nat
import Mathlib.Data.List.AList

/-!
# Sums over a finite map

What an entry adds to a sum over all entries of a finite map is added when it is
inserted and subtracted when it is erased.
-/

namespace AList

variable {α β : Type} [DecidableEq α]

/-- The sum of a quantity over all entries. -/
def total (f : α → β → ℕ) (m : AList fun _ : α => β) : ℕ := (m.entries.map fun e => f e.1 e.2).sum

variable {f g : α → β → ℕ} {m : AList fun _ : α => β} {a : α} {b : β}

theorem erase_of_lookup_eq_none (h : m.lookup a = none) : m.erase a = m := by
  refine AList.ext ?_
  exact List.kerase_of_notMem_keys (AList.lookup_eq_none.mp h)

theorem total_insert : (m.insert a b).total f = f a b + (m.erase a).total f := by
  have herase : (m.erase a).entries = m.entries.kerase a := rfl
  simp only [total, AList.entries_insert, List.map_cons, List.sum_cons, herase]

theorem total_of_lookup (h : m.lookup a = some b) : m.total f = f a b + (m.erase a).total f := by
  have hmem : (⟨a, b⟩ : Sigma fun _ : α => β) ∈ m.entries :=
    List.of_mem_dlookup (Option.mem_def.mpr h)
  have hperm : m.entries.Perm (⟨a, b⟩ :: List.kerase a m.entries) := by
    have hkey : a ∈ m.entries.keys := List.mem_keys_of_mem hmem
    obtain ⟨b', before, rest, hbefore, hsplit, herase⟩ := List.exists_of_kerase hkey
    have hsame : b' = b := by
      have hmem' : (⟨a, b'⟩ : Sigma fun _ : α => β) ∈ m.entries := by
        rw [hsplit]
        exact List.mem_append_right _ List.mem_cons_self
      exact m.nodupKeys.eq_of_mk_mem hmem' hmem
    rw [herase, hsplit, hsame]
    exact List.perm_middle
  exact (hperm.map _).sum_eq

/-- Replacing an entry by one that counts the same does not change the sum. -/
theorem total_insert_of_lookup {b' : β} (h : m.lookup a = some b) (hsame : f a b' = f a b) :
    (m.insert a b').total f = m.total f := by
  rw [total_insert, total_of_lookup h, hsame]

theorem total_insert_of_none (h : m.lookup a = none) :
    (m.insert a b).total f = f a b + m.total f := by
  rw [total_insert, erase_of_lookup_eq_none h]

theorem total_erase_le : (m.erase a).total f ≤ m.total f := by
  cases h : m.lookup a with
  | none => rw [erase_of_lookup_eq_none h]
  | some b => exact total_of_lookup h ▸ Nat.le_add_left _ _

/-- An entry is in the list of entries when it is found under its key. -/
theorem mem_entries {e : Sigma fun _ : α => β} : e ∈ m.entries ↔ m.lookup e.1 = some e.2 :=
  ⟨fun h => List.mem_dlookup m.nodupKeys h, fun h => List.of_mem_dlookup h⟩

end AList
