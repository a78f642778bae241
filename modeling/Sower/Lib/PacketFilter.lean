import Mathlib.Data.Int.Order.Basic
import Mathlib.Data.List.Sort

/-!
# Packet filters

A filter is a set of chains attached to hooks. A chain is a list of rules, the
first rule that matches decides, and the policy of the chain decides when none
does. At a hook the chains are tried in order of priority: a chain that accepts
a packet hands it to the next one, a chain that drops it ends its way.

The chains are over arbitrary packets and hooks.
-/

namespace PacketFilter

variable {π κ : Type}

/-- Terminal verdicts. -/
inductive Verdict where
  /-- The chain is done with the packet; other chains still see it. -/
  | accept
  /-- The packet is gone. -/
  | drop
  deriving DecidableEq, Repr

/-- A condition on packets and the verdict for those that meet it. -/
structure Rule (π : Type) where
  applies : π → Bool
  verdict : Verdict

/-- A base chain. -/
structure Chain (π κ : Type) where
  hook : κ
  priority : ℤ
  policy : Verdict
  rules : List (Rule π)

/-- Verdict of the first rule that matches. -/
def firstVerdict : List (Rule π) → π → Option Verdict
  | [], _ => none
  | rule :: rest, p => if rule.applies p then some rule.verdict else firstVerdict rest p

/-- Verdict of a whole chain. -/
def Chain.verdict (chain : Chain π κ) (p : π) : Verdict :=
  (firstVerdict chain.rules p).getD chain.policy

/-- Chains attached to a hook, in the order in which they see a packet. -/
def atHook [DecidableEq κ] (chains : List (Chain π κ)) (hook : κ) : List (Chain π κ) :=
  (chains.filter (·.hook = hook)).insertionSort fun a b => a.priority ≤ b.priority

/-- The packet gets past all the chains. -/
def traverses : List (Chain π κ) → π → Bool
  | [], _ => true
  | chain :: rest, p =>
    match chain.verdict p with
    | .accept => traverses rest p
    | .drop => false

/-- The packet gets past a hook. -/
def passes [DecidableEq κ] (chains : List (Chain π κ)) (hook : κ) (p : π) : Bool :=
  traverses (atHook chains hook) p

section Chains

variable {rules rules' : List (Rule π)} {p : π}

theorem firstVerdict_append :
    firstVerdict (rules ++ rules') p = (firstVerdict rules p).or (firstVerdict rules' p) := by
  induction rules with
  | nil => rfl
  | cons rule rest ih =>
    rw [List.cons_append]
    by_cases h : rule.applies p = true
    · simp [firstVerdict, h]
    · simp [firstVerdict, h, ih]

/-- No verdict means that no rule matches. -/
theorem firstVerdict_eq_none_iff :
    firstVerdict rules p = none ↔ ∀ rule ∈ rules, rule.applies p = false := by
  induction rules with
  | nil => simp [firstVerdict]
  | cons rule rest ih =>
    by_cases h : rule.applies p = true
    · simp [firstVerdict, h]
    · simp [firstVerdict, h, ih]

/-- A verdict is that of some rule that matches. -/
theorem exists_of_firstVerdict {verdict : Verdict} (h : firstVerdict rules p = some verdict) :
    ∃ rule ∈ rules, rule.applies p = true ∧ rule.verdict = verdict := by
  induction rules with
  | nil => cases h
  | cons rule rest ih =>
    by_cases happlies : rule.applies p = true
    · rw [firstVerdict, if_pos happlies] at h
      cases h
      exact ⟨rule, List.mem_cons_self, happlies, rfl⟩
    · rw [firstVerdict, if_neg happlies] at h
      obtain ⟨other, hmem, hother⟩ := ih h
      exact ⟨other, List.mem_cons_of_mem rule hmem, hother⟩

/-- Rules with mandatory denials first, then permissions, then a denial of all that is
left: what is accepted meets no denial and some permission. -/
theorem accepted_of_guarded {denials permissions : List (Rule π)} {last : Rule π}
    {rest : List (Rule π)} {policy : Verdict}
    (hdenials : ∀ rule ∈ denials, rule.verdict = .drop) (hlast : last.verdict = .drop)
    (happlies : last.applies p = true)
    (h : (firstVerdict (denials ++ permissions ++ last :: rest) p).getD policy = .accept) :
    (∀ rule ∈ denials, rule.applies p = false) ∧
      ∃ rule ∈ permissions, rule.applies p = true ∧ rule.verdict = .accept := by
  have hfinal : firstVerdict (last :: rest) p = some .drop := by
    rw [firstVerdict, if_pos happlies, hlast]
  rw [firstVerdict_append, firstVerdict_append, hfinal] at h
  rcases hfirst : firstVerdict denials p with _ | verdict
  · refine ⟨firstVerdict_eq_none_iff.mp hfirst, ?_⟩
    rcases hsecond : firstVerdict permissions p with _ | verdict
    · rw [hfirst, hsecond] at h
      cases h
    · rw [hfirst, hsecond] at h
      have haccept : verdict = .accept := h
      exact exists_of_firstVerdict (hsecond.trans (congrArg some haccept))
  · obtain ⟨rule, hmem, _, hverdict⟩ := exists_of_firstVerdict hfirst
    rw [hfirst, ← hverdict, hdenials rule hmem] at h
    cases h

end Chains

section Hooks

variable {chains : List (Chain π κ)} {hook : κ} {p : π}

theorem traverses_iff : traverses chains p = true ↔ ∀ chain ∈ chains, chain.verdict p = .accept := by
  induction chains with
  | nil => simp [traverses]
  | cons chain rest ih =>
    rw [List.forall_mem_cons, traverses]
    rcases hverdict : chain.verdict p with _ | _
    · simp [ih]
    · simp

variable [DecidableEq κ]

/-- A packet gets past a hook exactly when every chain of the hook accepts it. -/
theorem passes_iff :
    passes chains hook p = true ↔ ∀ chain ∈ chains, chain.hook = hook → chain.verdict p = .accept := by
  simp only [passes, traverses_iff, atHook, List.mem_insertionSort, List.mem_filter, decide_eq_true_eq,
    and_imp]

/-- One chain that drops a packet is enough, wherever it stands. -/
theorem verdict_of_passes {chain : Chain π κ} (h : passes chains hook p = true)
    (hmem : chain ∈ chains) (hhook : chain.hook = hook) : chain.verdict p = .accept :=
  passes_iff.mp h chain hmem hhook

end Hooks

end PacketFilter
