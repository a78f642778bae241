import Mathlib.Data.List.Basic
import Mathlib.Order.Basic

/-!
# The descendants of a reaper

A process that has asked for it adopts its orphans: it is the parent of every
descendant whose own parent has ended. The table below holds the descendants that
have not been reaped, running or ended, each with its parent. Descendants are
numbered in the order of their birth.

The reaper cannot see the table. It learns of it only by waiting, and once the
system answers that there is no child left, there is no descendant left either.
-/

namespace ProcessTree

variable {κ : Type}

/-- Who may wait for a process. -/
inductive Parent where
  | reaper
  /-- A process that is no descendant of the reaper. -/
  | outside
  | process (serial : ℕ)
  deriving DecidableEq, Repr

/-- One descendant. -/
structure Entry (κ : Type) where
  /-- Number in the order of birth. -/
  serial : ℕ
  parent : Parent
  /-- How the process ended, if it has. -/
  status : Option κ

/-- The descendants that have not been reaped. -/
abbrev Table (κ : Type) := List (Entry κ)

/-- A running process. -/
def Table.Running (t : Table κ) (serial : ℕ) : Prop :=
  ∃ q ∈ t, q.serial = serial ∧ q.status = none

/-- The process ends, and its children get another parent. -/
def Entry.ends (serial : ℕ) (status : κ) (adopter : Parent) (e : Entry κ) : Entry κ :=
  if e.serial = serial then { e with status := some status }
  else if e.parent = .process serial then { e with parent := adopter }
  else e

/-- What is left once an ended process has been reaped. -/
def Table.reaped (t : Table κ) (serial : ℕ) : Table κ :=
  t.filter fun e => e.serial ≠ serial ∨ e.status.isNone

/-- What descendants do without the reaper, which adopts orphans or does not. -/
inductive Step (adopts : Bool) (t : Table κ) : Table κ → Prop
  /-- A running process starts another one, as its child or as its sibling. -/
  | fork {q : Entry κ} {parent : Parent} {serial : ℕ} (member : q ∈ t) (running : q.status = none)
      (fresh : ∀ e ∈ t, e.serial < serial)
      (child : parent = .process q.serial ∨ parent = q.parent) :
      Step adopts t (t ++ [⟨serial, parent, none⟩])
  /-- A process ends. Its children go to an older process, to the reaper or, where an
  ancestor does not adopt, out of reach. -/
  | exit {serial : ℕ} {adopter : Parent} (status : κ)
      (older : ∀ a, adopter = .process a → a < serial ∧ t.Running a)
      (outside : adopter = .outside → adopts = false ∨ ∃ e ∈ t, e.parent = .outside) :
      Step adopts t (t.map (Entry.ends serial status adopter))
  /-- A process reaps a child of its own. -/
  | reap {z : Entry κ} (member : z ∈ t) (ended : z.status.isSome = true)
      (owned : z.parent ≠ .reaper) : Step adopts t (t.reaped z.serial)

/-- Parents are older and run, and nobody is out of reach. -/
structure Table.WellFormed (t : Table κ) : Prop where
  older : ∀ e ∈ t, ∀ p, e.parent = .process p → p < e.serial ∧ t.Running p
  inside : ∀ e ∈ t, e.parent ≠ .outside

theorem wellFormed_nil : Table.WellFormed ([] : Table κ) where
  older := by
    intro e he
    cases he
  inside := by
    intro e he
    cases he

variable {t t' : Table κ}

/-- A process that runs is not forgotten when the table grows. -/
theorem running_append {p : ℕ} (h : t.Running p) (later : Table κ) :
    Table.Running (t ++ later) p := by
  obtain ⟨q, hq, hserial, hstatus⟩ := h
  exact ⟨q, List.mem_append_left _ hq, hserial, hstatus⟩

/-- A new process whose parent is older and runs. -/
theorem wellFormed_append (h : t.WellFormed) {e : Entry κ}
    (holder : ∀ p, e.parent = .process p → p < e.serial ∧ t.Running p)
    (hinside : e.parent ≠ .outside) : Table.WellFormed (t ++ [e]) where
  older := by
    intro e' he' p hp
    rcases List.mem_append.mp he' with hold | hnew
    · have hparent := h.older e' hold p hp
      exact ⟨hparent.1, running_append hparent.2 _⟩
    · rw [List.mem_singleton.mp hnew] at hp ⊢
      have hparent := holder p hp
      exact ⟨hparent.1, running_append hparent.2 _⟩
  inside := by
    intro e' he'
    rcases List.mem_append.mp he' with hold | hnew
    · exact h.inside e' hold
    · rw [List.mem_singleton.mp hnew]
      exact hinside

/-- A new child of the reaper. -/
theorem wellFormed_spawn (h : t.WellFormed) (serial : ℕ) :
    Table.WellFormed (t ++ [⟨serial, .reaper, none⟩]) := by
  apply wellFormed_append h
  · intro p hp
    cases hp
  · intro hp
    cases hp

/-- An ended process is nobody's parent, so the table is well-formed without it. -/
theorem wellFormed_reaped (h : t.WellFormed) (serial : ℕ) : (t.reaped serial).WellFormed where
  older := by
    intro e he p hp
    obtain ⟨hlt, q, hq, hserial, hstatus⟩ := h.older e (List.mem_filter.mp he).1 p hp
    have hkept : q ∈ t.reaped serial := by
      apply List.mem_filter.mpr
      rw [hstatus]
      exact ⟨hq, by simp⟩
    exact ⟨hlt, q, hkept, hserial, hstatus⟩
  inside := by
    intro e he
    exact h.inside e (List.mem_filter.mp he).1

/-- A process other than the one that ends runs on. -/
theorem running_ends {serial p : ℕ} {status : κ} {adopter : Parent} (h : t.Running p)
    (hne : p ≠ serial) : Table.Running (t.map (Entry.ends serial status adopter)) p := by
  obtain ⟨q, hq, hserial, hstatus⟩ := h
  have hother : q.serial ≠ serial := hserial ▸ hne
  have hends : (q.ends serial status adopter).serial = p ∧
      (q.ends serial status adopter).status = none := by
    unfold Entry.ends
    rw [if_neg hother]
    split
    · exact ⟨hserial, hstatus⟩
    · exact ⟨hserial, hstatus⟩
  exact ⟨_, List.mem_map_of_mem hq, hends⟩

/-- A process ends: the orphans' new parent is older than the one that has ended. -/
theorem wellFormed_ends {serial : ℕ} {adopter : Parent} (h : t.WellFormed) (status : κ)
    (holder : ∀ a, adopter = .process a → a < serial ∧ t.Running a)
    (hinside : adopter ≠ .outside) :
    Table.WellFormed (t.map (Entry.ends serial status adopter)) where
  older := by
    intro e' he' p hp
    obtain ⟨e, he, rfl⟩ := List.mem_map.mp he'
    unfold Entry.ends at hp ⊢
    split at hp
    · rename_i hself
      rw [if_pos hself]
      have hparent := h.older e he p hp
      have hlt : p < e.serial := hparent.1
      have hne : p ≠ serial := by omega
      exact ⟨hlt, running_ends hparent.2 hne⟩
    · rename_i hother
      rw [if_neg hother]
      split at hp
      · rename_i horphan
        rw [if_pos horphan]
        have hparent := h.older e he serial horphan
        have hadopter := holder p hp
        have hlt : p < e.serial := by omega
        have hne : p ≠ serial := by omega
        exact ⟨hlt, running_ends hadopter.2 hne⟩
      · rename_i hforeign
        rw [if_neg hforeign]
        have hparent := h.older e he p hp
        have hne : p ≠ serial := by
          intro heq
          rw [heq] at hp
          exact hforeign hp
        exact ⟨hparent.1, running_ends hparent.2 hne⟩
  inside := by
    intro e' he'
    obtain ⟨e, he, rfl⟩ := List.mem_map.mp he'
    unfold Entry.ends
    split
    · exact h.inside e he
    · split
      · exact hinside
      · exact h.inside e he

/-- Where the reaper adopts orphans, its descendants keep the table well-formed. -/
theorem Step.wellFormed (hstep : Step true t t') (h : t.WellFormed) : t'.WellFormed := by
  cases hstep with
  | @fork q parent serial member running fresh child =>
    rcases child with hchild | hsibling
    · apply wellFormed_append h
      · intro p hp
        have hself : q.serial = p := by
          rw [hchild] at hp
          exact Parent.process.inj hp
        rw [← hself]
        exact ⟨fresh q member, q, member, rfl, running⟩
      · rw [hchild]
        intro hp
        cases hp
    · apply wellFormed_append h
      · intro p hp
        have hparent := h.older q member p (hsibling ▸ hp)
        have hlt : p < serial := Nat.lt_trans hparent.1 (fresh q member)
        exact ⟨hlt, hparent.2⟩
      · rw [hsibling]
        exact h.inside q member
  | @exit serial adopter status older outside =>
    apply wellFormed_ends h status older
    intro hadopter
    rcases outside hadopter with hfalse | ⟨e, he, hparent⟩
    · cases hfalse
    · exact h.inside e he hparent
  | @reap z member ended owned => exact wellFormed_reaped h z.serial

/-- The oldest descendant is a child of the reaper, so without children there are no
descendants. -/
theorem eq_nil_of_childless (h : t.WellFormed) (hchildless : ∀ e ∈ t, e.parent ≠ .reaper) :
    t = [] := by
  have hnone : ∀ n, ∀ e ∈ t, e.serial = n → False := by
    intro n
    induction n using Nat.strongRecOn with
    | _ n ih =>
      intro e he hserial
      cases hparent : e.parent with
      | reaper => exact hchildless e he hparent
      | outside => exact h.inside e he hparent
      | process p =>
        obtain ⟨hlt, q, hq, hqserial, -⟩ := h.older e he p hparent
        exact ih p (hserial ▸ hlt) q hq hqserial
  exact List.eq_nil_iff_forall_not_mem.mpr fun e he => hnone e.serial e he rfl

/-- Nothing comes of nothing. -/
theorem Step.of_nil {adopts : Bool} (h : Step adopts ([] : Table κ) t) : t = [] := by
  cases h with
  | fork member => cases member
  | exit status older outside => rfl
  | reap member => cases member

end ProcessTree
