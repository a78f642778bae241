import Sower.Lib.Fallible

/-!
# Invariants of the store that every step keeps

A process upholds an invariant if each of its steps does, whatever store the
step finds, and if the value it ends with satisfies a postcondition. The
postcondition speaks about the value alone, so it survives what other
processes do in the meantime. Processes that all uphold an invariant keep it
in every interleaving.
-/

namespace Process

universe u

variable {σ ε χ α β : Type u} {inv : σ → Prop}

section Upholds

/-- Every step keeps the invariant, and the value satisfies the postcondition. -/
def Proc.Upholds (inv : σ → Prop) (Q : α → Prop) : Proc σ ε α → Prop
  | .done value => Q value
  | .step act next => ∀ s, inv s → inv (act s).1 ∧ (next s).Upholds inv Q

variable {Q : α → Prop} {R : β → Prop}

theorem Proc.upholds_atomic {f : σ → (σ × List ε) × α}
    (h : ∀ s, inv s → inv (f s).1.1 ∧ Q (f s).2) : (Proc.atomic f).Upholds inv Q := h

theorem Proc.Upholds.mono {Q' : α → Prop} {p : Proc σ ε α} (hp : p.Upholds inv Q)
    (hQ : ∀ a, Q a → Q' a) : p.Upholds inv Q' := by
  induction p with
  | done value => exact hQ value hp
  | step act next ih =>
    intro s hs
    obtain ⟨hact, hnext⟩ := hp s hs
    exact ⟨hact, ih s hnext⟩

/-- The second part may rely on what the first one has found out. -/
theorem Proc.Upholds.bind {p : Proc σ ε α} {k : α → Proc σ ε β} (hp : p.Upholds inv Q)
    (hk : ∀ a, Q a → (k a).Upholds inv R) : (p >>= k).Upholds inv R := by
  induction p with
  | done value => exact hk value hp
  | step act next ih =>
    intro s hs
    obtain ⟨hact, hnext⟩ := hp s hs
    exact ⟨hact, ih s hnext⟩

/-- Steps along a relation that keeps the invariant uphold it. -/
theorem Proc.Steps.upholds {rel : σ → List ε → σ → Prop} {p : Proc σ ε α} (hp : p.Steps rel)
    (h : ∀ s es s', inv s → rel s es s' → inv s') : p.Upholds inv fun _ => True := by
  induction p with
  | done value => trivial
  | step act next ih =>
    intro s hs
    obtain ⟨hact, hnext⟩ := hp s
    exact ⟨h _ _ _ hs hact, ih s hnext⟩

/-- A process that is cut short keeps the invariant when its last action does. -/
theorem Proc.Upholds.cut {p : Proc σ ε α} {last : σ → σ × List ε} (hp : p.Upholds inv Q)
    (hlast : ∀ s, inv s → inv (last s).1) (n : ℕ) :
    (p.cut last n).Upholds inv fun _ => True := by
  have hend : (Proc.step last fun _ => .done ⟨⟩ : Proc σ ε PUnit).Upholds inv fun _ => True :=
    fun s hs => ⟨hlast s hs, trivial⟩
  induction p generalizing n with
  | done value =>
    rw [Proc.cut_done]
    exact hend
  | step act next ih =>
    cases n with
    | zero => exact hend
    | succ n =>
      intro s hs
      obtain ⟨hact, hnext⟩ := hp s hs
      exact ⟨hact, ih s hnext n⟩

end Upholds

namespace Fallible

/-- Every step keeps the invariant, and a value satisfies the postcondition. -/
def Upholds (inv : σ → Prop) (Q : α → Prop) (p : Fallible σ ε χ α) : Prop :=
  p.run.Upholds inv fun outcome => ∀ value, outcome = .ok value → Q value

variable {Q : α → Prop} {R : β → Prop}

theorem upholds_pure {value : α} (h : Q value) :
    (pure value : Fallible σ ε χ α).Upholds inv Q := by
  intro found hfound
  cases hfound
  exact h

theorem upholds_throw (e : χ) : (throw e : Fallible σ ε χ α).Upholds inv Q := by
  intro found hfound
  cases hfound

theorem upholds_lift {outcome : Except χ α} (h : ∀ value, outcome = .ok value → Q value) :
    (lift outcome : Fallible σ ε χ α).Upholds inv Q := h

theorem upholds_atomic {f : σ → (σ × List ε) × Except χ α}
    (h : ∀ s, inv s → inv (f s).1.1 ∧ ∀ value, (f s).2 = .ok value → Q value) :
    (atomic f).Upholds inv Q := h

theorem Upholds.mono {Q' : α → Prop} {p : Fallible σ ε χ α} (hp : p.Upholds inv Q)
    (hQ : ∀ a, Q a → Q' a) : p.Upholds inv Q' :=
  Proc.Upholds.mono hp fun _ h value hvalue => hQ value (h value hvalue)

theorem Upholds.bind {p : Fallible σ ε χ α} {k : α → Fallible σ ε χ β} (hp : p.Upholds inv Q)
    (hk : ∀ a, Q a → (k a).Upholds inv R) : (p >>= k).Upholds inv R := by
  refine Proc.Upholds.bind hp fun outcome houtcome => ?_
  cases outcome with
  | ok value => exact hk value (houtcome value rfl)
  | error e => exact upholds_throw e

theorem Upholds.attempt {p : Fallible σ ε χ α} (hp : p.Upholds inv Q) :
    (attempt p).Upholds inv fun outcome => ∀ value, outcome = .ok value → Q value := by
  refine Proc.Upholds.bind hp fun outcome houtcome => ?_
  intro found hfound
  cases hfound
  exact houtcome

/-- What goes along a relation that keeps the invariant upholds it. -/
theorem Follows.upholds {rel : σ → List ε → σ → Prop} {p : Fallible σ ε χ α} (hp : p.Follows rel)
    (h : ∀ s es s', inv s → rel s es s' → inv s') : p.Upholds inv fun _ => True :=
  (Proc.Steps.upholds hp h).mono fun _ _ _ _ => trivial

end Fallible

end Process

namespace Interleaving

open Process

universe u

variable {σ ε : Type u} {inv : σ → Prop} {allowed allowed' : Proc σ ε PUnit → Prop}

/-- More processes may be allowed. -/
theorem Reachable.mono {c₀ c : Pool σ ε} (h : Reachable allowed c₀ c)
    (hallowed : ∀ p, allowed p → allowed' p) : Reachable allowed' c₀ c := by
  induction h with
  | refl => exact .refl
  | @move c m _ hm ih =>
    refine ih.move ?_
    cases m with
    | spawn p => exact hallowed p hm
    | act i => trivial

/-- Processes that all uphold an invariant keep it in every interleaving. -/
theorem Reachable.upholds {s : σ} {c : Pool σ ε} (h : Reachable allowed (Pool.start s) c)
    (hallowed : ∀ p, allowed p → p.Upholds inv fun _ => True) (hstart : inv s) :
    inv c.world.store := by
  suffices inv c.world.store ∧ ∀ p ∈ c.procs, p.Upholds inv fun _ => True from this.1
  induction h with
  | refl => exact ⟨hstart, fun p hp => by cases hp⟩
  | @move c m _ hm ih =>
    obtain ⟨hinv, hprocs⟩ := ih
    cases m with
    | spawn q =>
      refine ⟨hinv, fun p hp => ?_⟩
      rcases List.mem_append.mp hp with hold | hnew
      · exact hprocs p hold
      · rw [List.mem_singleton.mp hnew]
        exact hallowed q hm
    | act i =>
      rcases hi : c.procs[i]? with _ | p
      · simpa only [Pool.move, hi] using ⟨hinv, hprocs⟩
      · cases p with
        | done value => simpa only [Pool.move, hi] using ⟨hinv, hprocs⟩
        | step act next =>
          obtain ⟨hact, hnext⟩ := hprocs _ (List.mem_of_getElem? hi) c.world.store hinv
          simp only [Pool.move, hi]
          refine ⟨hact, fun p hp => ?_⟩
          rcases List.mem_or_eq_of_mem_set hp with hold | rfl
          · exact hprocs p hold
          · exact hnext

end Interleaving
