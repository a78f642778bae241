import Mathlib.Data.List.Basic
import Mathlib.Logic.Function.Basic

/-!
# Replicas fed by a log of updates

A primary commits updates to a log. A replica starts from a copy of the primary
and replays the updates that reach it. A copy may be newer than some of the
updates that are still on their way, so that these are replayed on a state that
has them already. The replica ends up equal to the primary when the primary
absorbs its own log: replaying any end of the log does not change it.
-/

namespace Replica

section Copies

variable {σ υ : Type*} {act : σ → υ → σ} {log pending : List υ} {primary replica : σ} {u : υ}

/-- Replaying any end of the log leaves the state as it is. -/
def Absorbs (act : σ → υ → σ) (log : List υ) (s : σ) : Prop :=
  ∀ late, late <:+ log → late.foldl act s = s

/-- The replica catches up with the primary once it has replayed what is pending. -/
def InSync (act : σ → υ → σ) (primary replica : σ) (pending : List υ) : Prop :=
  pending.foldl act replica = primary

theorem absorbs_nil (act : σ → υ → σ) (s : σ) : Absorbs act [] s := by
  intro late hlate
  rw [List.suffix_nil.mp hlate]
  rfl

/-- A committed update is pending for the replica. -/
theorem InSync.commit (h : InSync act primary replica pending) (u : υ) :
    InSync act (act primary u) replica (pending ++ [u]) := by
  have happend : (pending ++ [u]).foldl act replica = act (pending.foldl act replica) u :=
    List.foldl_append
  rw [InSync, happend, h]

/-- The replica replays the oldest pending update. -/
theorem InSync.deliver (h : InSync act primary replica (u :: pending)) :
    InSync act primary (act replica u) pending := h

/-- The replica is replaced by a copy, with any end of the log still pending. -/
theorem Absorbs.inSync (h : Absorbs act log primary) (hpending : pending <:+ log) :
    InSync act primary primary pending := h pending hpending

end Copies

section Patches

variable {κ α : Type*} [DecidableEq κ]

/-- An update of a map: one entry is added unless it is there, then entries are
removed. -/
structure Patch (κ α : Type*) where
  key : κ
  value : α
  removed : List κ

variable {p : Patch κ α} {m : κ → Option α} {log : List (Patch κ α)} {x : κ}

/-- The map after the patch. -/
def Patch.apply (m : κ → Option α) (p : Patch κ α) : κ → Option α := fun x =>
  if x ∈ p.removed then none
  else if x = p.key then (m x).or (some p.value)
  else m x

/-- The patch says nothing about the key. -/
def Patch.Spares (p : Patch κ α) (x : κ) : Prop := x ≠ p.key ∧ x ∉ p.removed

theorem Patch.Spares.apply (h : p.Spares x) (m : κ → Option α) : p.apply m x = m x := by
  rw [Patch.apply, if_neg h.2, if_neg h.1]

/-- A key that no patch of the log mentions keeps its value. -/
theorem foldl_apply_of_spares (h : ∀ p ∈ log, p.Spares x) (m : κ → Option α) :
    log.foldl (fun m p => p.apply m) m x = m x := by
  induction log generalizing m with
  | nil => rfl
  | cons p rest ih =>
    have hrest : ∀ q ∈ rest, q.Spares x := fun q hq => h q (List.mem_cons_of_mem p hq)
    have hp : p.apply m x = m x := (h p List.mem_cons_self).apply m
    rw [List.foldl_cons, ih hrest, hp]

/-- Replaying patches acts on each key by itself. -/
theorem foldl_apply_congr {m m' : κ → Option α} (h : m x = m' x) :
    log.foldl (fun m p => p.apply m) m x = log.foldl (fun m p => p.apply m) m' x := by
  induction log generalizing m m' with
  | nil => exact h
  | cons p rest ih =>
    have hp : p.apply m x = p.apply m' x := by
      rw [Patch.apply, Patch.apply, h]
    exact ih hp

/-- A map keeps absorbing its log when every patch adds an entry that no earlier patch
mentions. -/
theorem Absorbs.patch (h : Absorbs (fun m p => p.apply m) log m)
    (hfresh : ∀ q ∈ log, q.Spares p.key) (hnone : m p.key = none) :
    Absorbs (fun m p => p.apply m) (log ++ [p]) (p.apply m) := by
  intro late hlate
  rcases List.suffix_concat_iff.mp hlate with rfl | ⟨early, rfl, hearly⟩
  · rfl
  · funext x
    have happend : (early ++ [p]).foldl (fun m p => p.apply m) (p.apply m) x =
        p.apply (early.foldl (fun m p => p.apply m) (p.apply m)) x :=
      congrFun List.foldl_append x
    rw [happend]
    by_cases hremoved : x ∈ p.removed
    · simp only [Patch.apply, if_pos hremoved]
    · by_cases hkey : x = p.key
      · -- Nothing pending touches the new entry.
        have hspares : ∀ q ∈ early, q.Spares x := fun q hq => hkey ▸ hfresh q (hearly.subset hq)
        have hsame := foldl_apply_of_spares hspares (p.apply m)
        have hnew : p.apply m x = some p.value := by
          rw [Patch.apply, if_neg hremoved, if_pos hkey, hkey, hnone]
          rfl
        rw [Patch.apply, if_neg hremoved, if_pos hkey, hsame, hnew]
        rfl
      · -- The new patch does not touch the entry, and the log is absorbed there.
        have hp : p.apply m x = m x := Patch.Spares.apply ⟨hkey, hremoved⟩ m
        have hearlier : early.foldl (fun m p => p.apply m) m x = m x :=
          congrFun (h early hearly) x
        rw [Patch.Spares.apply ⟨hkey, hremoved⟩, foldl_apply_congr hp, hearlier, hp]

end Patches

end Replica
