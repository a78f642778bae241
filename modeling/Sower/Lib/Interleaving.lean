import Mathlib.Logic.Relation
import Sower.Lib.Process

/-!
# Interleavings of processes and rely-guarantee contracts

A pool runs any number of processes over one store. Each move starts an
admissible process or lets one of the running processes take its next atomic
step. The log keeps every event together with the index of the process that
caused it.

A contract says what a process may assume of the others and what each of its
own steps promises. Processes are checked one at a time against the contract;
the checked processes then satisfy it in every interleaving.
-/

namespace Interleaving

open Process

universe u

variable {σ ε α β : Type u}

/-- The shared store and everything the processes have logged so far. -/
structure World (σ ε : Type u) where
  /-- Current value of the shared store. -/
  store : σ
  /-- Events in order, each with the index of its process. -/
  log : List (ℕ × ε)

/-- The world after process `i` has performed one atomic action. -/
def World.advance (w : World σ ε) (i : ℕ) (act : σ → σ × List ε) : World σ ε :=
  ⟨(act w.store).1, w.log ++ (act w.store).2.map (i, ·)⟩

@[simp] theorem World.advance_store (w : World σ ε) (i : ℕ) (act : σ → σ × List ε) :
    (w.advance i act).store = (act w.store).1 := rfl

@[simp] theorem World.advance_log (w : World σ ε) (i : ℕ) (act : σ → σ × List ε) :
    (w.advance i act).log = w.log ++ (act w.store).2.map (i, ·) := rfl

/-- A world together with the processes running in it. -/
structure Pool (σ ε : Type u) where
  /-- Store and log. -/
  world : World σ ε
  /-- Running and finished processes; the position is the index of a process. -/
  procs : List (Proc σ ε PUnit)

/-- A store in which no process has started yet. -/
def Pool.start (s : σ) : Pool σ ε := ⟨⟨s, []⟩, []⟩

/-- One move of a scheduler. -/
inductive Move (σ ε : Type u) where
  /-- Start a new process. -/
  | spawn (p : Proc σ ε PUnit)
  /-- Let the process with this index take its next step. -/
  | act (i : ℕ)

/-- The pool after a move. A finished or unknown process does nothing. -/
def Pool.move (c : Pool σ ε) : Move σ ε → Pool σ ε
  | .spawn p => { c with procs := c.procs ++ [p] }
  | .act i =>
    match c.procs[i]? with
    | some (.step act next) => ⟨c.world.advance i act, c.procs.set i (next c.world.store)⟩
    | _ => c

/-- The pool after a whole schedule. -/
def Pool.exec (c : Pool σ ε) (moves : List (Move σ ε)) : Pool σ ε := moves.foldl Pool.move c

/-- Moves that start only admissible processes. -/
def Move.Admissible (allowed : Proc σ ε PUnit → Prop) : Move σ ε → Prop
  | .spawn p => allowed p
  | .act _ => True

/-- Pools that some schedule of admissible moves leads to. -/
inductive Reachable (allowed : Proc σ ε PUnit → Prop) (c₀ : Pool σ ε) : Pool σ ε → Prop
  | refl : Reachable allowed c₀ c₀
  | move {c : Pool σ ε} {m : Move σ ε} (before : Reachable allowed c₀ c)
      (admissible : m.Admissible allowed) : Reachable allowed c₀ (c.move m)

theorem Reachable.trans {allowed : Proc σ ε PUnit → Prop} {c₀ c c' : Pool σ ε}
    (h : Reachable allowed c₀ c) (h' : Reachable allowed c c') : Reachable allowed c₀ c' := by
  induction h' with
  | refl => exact h
  | move _ hm ih => exact ih.move hm

/-- Executing an admissible schedule stays within the reachable pools. -/
theorem reachable_exec {allowed : Proc σ ε PUnit → Prop} {c₀ c : Pool σ ε}
    (h : Reachable allowed c₀ c) {moves : List (Move σ ε)}
    (hm : ∀ m ∈ moves, m.Admissible allowed) : Reachable allowed c₀ (c.exec moves) := by
  induction moves generalizing c with
  | nil => exact h
  | cons m rest ih =>
    refine ih (h.move (hm m List.mem_cons_self)) ?_
    intro m' hm'
    exact hm m' (List.mem_cons_of_mem m hm')

/-- The processes are started together and then step in the given order. -/
def started (s : σ) (procs : List (Proc σ ε PUnit)) (steps : List ℕ) : Pool σ ε :=
  (Pool.start s).exec (procs.map .spawn ++ steps.map .act)

theorem started_reachable {allowed : Proc σ ε PUnit → Prop} {s : σ}
    {procs : List (Proc σ ε PUnit)} {steps : List ℕ} (h : ∀ p ∈ procs, allowed p) :
    Reachable allowed (Pool.start s) (started s procs steps) := by
  refine reachable_exec .refl ?_
  intro m hm
  rcases List.mem_append.mp hm with hspawn | hact
  · obtain ⟨p, hp, rfl⟩ := List.mem_map.mp hspawn
    exact h p hp
  · obtain ⟨i, _, rfl⟩ := List.mem_map.mp hact
    trivial

section Histories

variable {γ : Type*}

/-- What is computed from the latest entry on does not change with events of a process
that leave it as it is. -/
theorem append_unchanged {F : List (ℕ × ε) → γ} {i : ℕ} {es : List ε} {h : List (ℕ × ε)}
    (hes : ∀ e ∈ es, ∀ earlier, F ((i, e) :: earlier) = F earlier) :
    F (es.map (i, ·) ++ h) = F h := by
  induction es with
  | nil => rfl
  | cons e rest ih =>
    obtain ⟨he, hrest⟩ := List.forall_mem_cons.mp hes
    rw [List.map_cons, List.cons_append, he, ih hrest]

/-- A check of a history that passes has passed before. -/
theorem of_append {passes : List (ℕ × ε) → Bool}
    (hpasses : ∀ entry earlier, passes (entry :: earlier) = true → passes earlier = true)
    {late early : List (ℕ × ε)} (h : passes (late ++ early) = true) : passes early = true := by
  induction late with
  | nil => exact h
  | cons entry rest ih => exact ih (hpasses entry (rest ++ early) h)

end Histories

section Steps

variable {rel : σ → List ε → σ → Prop} {allowed : Proc σ ε PUnit → Prop}

/-- The world after process `i` has taken the store along the relation. -/
abbrev World.extend (w : World σ ε) (i : ℕ) (es : List ε) (s : σ) : World σ ε :=
  ⟨s, w.log ++ es.map (i, ·)⟩

/-- What is left of processes whose steps follow a relation follows it too. -/
theorem Reachable.steps {c₀ c : Pool σ ε} (h : Reachable allowed c₀ c)
    (hallowed : ∀ p, allowed p → p.Steps rel) (hstart : ∀ p ∈ c₀.procs, p.Steps rel) :
    ∀ p ∈ c.procs, p.Steps rel := by
  induction h with
  | refl => exact hstart
  | @move c m _ hm ih =>
    cases m with
    | spawn q =>
      intro p hp
      rcases List.mem_append.mp hp with hold | hnew
      · exact ih p hold
      · rw [List.mem_singleton.mp hnew]
        exact hallowed q hm
    | act i =>
      rcases hi : c.procs[i]? with _ | p
      · simpa only [Pool.move, hi] using ih
      · cases p with
        | done value => simpa only [Pool.move, hi] using ih
        | step act next =>
          intro p hp
          simp only [Pool.move, hi] at hp
          have hself := ih _ (List.mem_of_getElem? hi)
          rcases List.mem_or_eq_of_mem_set hp with hold | rfl
          · exact ih p hold
          · exact (hself c.world.store).2

/-- Processes whose steps follow a relation take the world along every preorder
that a single such step goes along. -/
theorem Reachable.along {c₀ c : Pool σ ε} (h : Reachable allowed c₀ c)
    (along : World σ ε → World σ ε → Prop) (hallowed : ∀ p, allowed p → p.Steps rel)
    (hstart : ∀ p ∈ c₀.procs, p.Steps rel) (hrefl : ∀ w, along w w)
    (htrans : ∀ {w w' w''}, along w w' → along w' w'' → along w w'')
    (hstep : ∀ i w es s, rel w.store es s → along w (w.extend i es s)) :
    along c₀.world c.world := by
  induction h with
  | refl => exact hrefl _
  | @move c m hbefore hm ih =>
    refine htrans ih ?_
    cases m with
    | spawn q => exact hrefl _
    | act i =>
      rcases hi : c.procs[i]? with _ | p
      · simpa only [Pool.move, hi] using hrefl c.world
      · cases p with
        | done value => simpa only [Pool.move, hi] using hrefl c.world
        | step act next =>
          have hself := hbefore.steps hallowed hstart _ (List.mem_of_getElem? hi)
          simp only [Pool.move, hi]
          exact hstep i c.world _ _ (hself c.world.store).1

end Steps

/-- What processes assume of each other and promise to each other. -/
structure Contract (σ ε : Type u) where
  /-- Holds in every world between two steps. -/
  inv : World σ ε → Prop
  /-- Changes that process `i` must tolerate from the others. -/
  rely : ℕ → World σ ε → World σ ε → Prop
  /-- Changes that process `i` may cause. -/
  guar : ℕ → World σ ε → World σ ε → Prop
  /-- A promised change preserves the invariant. -/
  keeps : ∀ {i w w'}, inv w → guar i w w' → inv w'
  /-- What one process promises is what another one tolerates. -/
  compatible : ∀ {i j w w'}, i ≠ j → guar j w w' → rely i w w'

namespace Contract

variable (C : Contract σ ε)

/-- An assertion of process `i` that no tolerated change of the others breaks. -/
def Stable (i : ℕ) (P : World σ ε → Prop) : Prop := ∀ ⦃w w'⦄, C.rely i w w' → P w → P w'

/-- Process `i` run as the given program keeps the contract: each step promises
its guarantee and leaves a stable assertion for the rest; the last value
satisfies the postcondition. -/
def Sat (i : ℕ) : Proc σ ε α → (World σ ε → Prop) → (α → World σ ε → Prop) → Prop
  | .done value, P, Q => ∀ w, P w → Q value w
  | .step act next, P, Q => ∀ w, C.inv w → P w →
      C.guar i w (w.advance i act) ∧
        ∃ P', C.Stable i P' ∧ P' (w.advance i act) ∧ Sat i (next w.store) P' Q

variable {C} {i : ℕ}

/-- A stronger precondition and a weaker postcondition. -/
theorem Sat.conseq {p : Proc σ ε α} {P P' : World σ ε → Prop} {Q Q' : α → World σ ε → Prop}
    (h : C.Sat i p P Q) (hP : ∀ w, P' w → P w) (hQ : ∀ a w, Q a w → Q' a w) :
    C.Sat i p P' Q' := by
  induction p generalizing P P' with
  | done value => exact fun w hw => hQ value w (h w (hP w hw))
  | step act next ih =>
    intro w hinv hw
    obtain ⟨hguar, P₁, hstable, hnow, hrest⟩ := h w hinv (hP w hw)
    exact ⟨hguar, P₁, hstable, hnow, ih w.store hrest fun _ hw' => hw'⟩

/-- A fact in the precondition that does not depend on the world. -/
theorem Sat.assume {p : Proc σ ε α} {fact : Prop} {P : World σ ε → Prop}
    {Q : α → World σ ε → Prop} (h : fact → C.Sat i p P Q) :
    C.Sat i p (fun w => P w ∧ fact) Q := by
  cases p with
  | done value => exact fun w hw => h hw.2 w hw.1
  | step act next => exact fun w hinv hw => h hw.2 w hinv hw.1

/-- Sequential composition through an intermediate assertion. -/
theorem Sat.bind {p : Proc σ ε α} {k : α → Proc σ ε β} {P : World σ ε → Prop}
    {Q : α → World σ ε → Prop} {Q' : β → World σ ε → Prop}
    (h : C.Sat i p P Q) (hk : ∀ a, C.Sat i (k a) (Q a) Q') : C.Sat i (p >>= k) P Q' := by
  induction p generalizing P with
  | done value => exact (hk value).conseq h fun _ _ hw => hw
  | step act next ih =>
    intro w hinv hw
    obtain ⟨hguar, P₁, hstable, hnow, hrest⟩ := h w hinv hw
    exact ⟨hguar, P₁, hstable, hnow, ih w.store hrest⟩

/-- A finished process needs nothing but its postcondition. -/
theorem Sat.done {value : α} {P : World σ ε → Prop} {Q : α → World σ ε → Prop}
    (h : ∀ w, P w → Q value w) : C.Sat i (.done value : Proc σ ε α) P Q := h

/-- A single atomic step whose postcondition is stable for the value it returns. -/
theorem Sat.atomic {f : σ → (σ × List ε) × α} {P : World σ ε → Prop} {Q : α → World σ ε → Prop}
    (h : ∀ w, C.inv w → P w →
      C.guar i w (w.advance i fun s => (f s).1) ∧ Q (f w.store).2 (w.advance i fun s => (f s).1))
    (hQ : ∀ a, C.Stable i (Q a)) : C.Sat i (Proc.atomic f) P Q := by
  intro w hinv hw
  obtain ⟨hguar, hpost⟩ := h w hinv hw
  exact ⟨hguar, Q (f w.store).2, hQ _, hpost, fun _ hw' => hw'⟩

/-- A loop over a list keeps an assertion that every round keeps. -/
theorem Sat.forM {γ : Type u} {xs : List γ} {body : γ → Proc σ ε PUnit} {P : World σ ε → Prop}
    (h : ∀ x ∈ xs, C.Sat i (body x) P fun _ => P) : C.Sat i (xs.forM body) P fun _ => P := by
  induction xs with
  | nil => exact fun _ hw => hw
  | cons x rest ih =>
    refine (h x List.mem_cons_self).bind fun _ => ih ?_
    intro y hy
    exact h y (List.mem_cons_of_mem x hy)

/-- The program keeps the contract and every stable assertion. -/
def Harmless (C : Contract σ ε) (p : Proc σ ε α) : Prop :=
  ∀ i P, C.Stable i P → C.Sat i p P fun _ => P

theorem harmless_done (value : α) : C.Harmless (.done value) := fun _ _ _ => .done fun _ hw => hw

theorem Harmless.bind {p : Proc σ ε α} {k : α → Proc σ ε β} (hp : C.Harmless p)
    (hk : ∀ a, C.Harmless (k a)) : C.Harmless (p >>= k) :=
  fun i P hP => (hp i P hP).bind fun a => hk a i P hP

theorem harmless_forM {γ : Type u} {xs : List γ} {body : γ → Proc σ ε PUnit}
    (h : ∀ x ∈ xs, C.Harmless (body x)) : C.Harmless (xs.forM body) :=
  fun i P hP => .forM fun x hx => h x hx i P hP

/-- A single step that a process would also tolerate from the others. -/
theorem harmless_atomic {f : σ → (σ × List ε) × α}
    (h : ∀ i w, C.inv w → C.guar i w (w.advance i fun s => (f s).1) ∧
      C.rely i w (w.advance i fun s => (f s).1)) : C.Harmless (Proc.atomic f) := by
  intro i P hP
  refine .atomic (fun w hinv hw => ?_) fun _ => hP
  obtain ⟨hguar, hrely⟩ := h i w hinv
  exact ⟨hguar, hP hrely hw⟩

/-- A program all of whose steps a process may cause and would also tolerate. -/
theorem harmless_of_steps {rel : σ → List ε → σ → Prop} {p : Proc σ ε α} (hp : p.Steps rel)
    (h : ∀ i w es s, C.inv w → rel w.store es s →
      C.guar i w (w.extend i es s) ∧ C.rely i w (w.extend i es s)) : C.Harmless p := by
  intro i P hP
  induction p with
  | done value => exact .done fun _ hw => hw
  | step act next ih =>
    intro w hinv hw
    obtain ⟨hact, hnext⟩ := hp w.store
    obtain ⟨hguar, hrely⟩ := h i w _ _ hinv hact
    exact ⟨hguar, P, hP, hP hrely hw, ih w.store hnext⟩

/-- A program all of whose steps a process may cause, about which nothing is asserted. -/
theorem sat_of_steps {rel : σ → List ε → σ → Prop} {p : Proc σ ε α} (hp : p.Steps rel)
    (h : ∀ w es s, C.inv w → rel w.store es s → C.guar i w (w.extend i es s)) :
    C.Sat i p (fun _ => True) fun _ _ => True := by
  induction p with
  | done value => exact .done fun _ _ => trivial
  | step act next ih =>
    intro w hinv _
    obtain ⟨hact, hnext⟩ := hp w.store
    exact ⟨h w _ _ hinv hact, fun _ => True, fun _ _ _ _ => trivial, trivial, ih w.store hnext⟩

/-- The processes of a pool all keep the contract from where they stand, and
each one ends in its postcondition. -/
def Holds (C : Contract σ ε) (Q : ℕ → World σ ε → Prop) (c : Pool σ ε) : Prop :=
  C.inv c.world ∧ ∀ i p, c.procs[i]? = some p →
    ∃ P, C.Stable i P ∧ P c.world ∧ C.Sat i p P fun _ => Q i

variable {Q : ℕ → World σ ε → Prop}

/-- A finished process has reached its postcondition. -/
theorem Holds.post {c : Pool σ ε} (h : C.Holds Q c) {value : PUnit}
    (hi : c.procs[i]? = some (.done value)) : Q i c.world := by
  obtain ⟨P, _, hnow, hsat⟩ := h.2 i _ hi
  exact hsat c.world hnow

/-- A checked process can be started at any time. -/
theorem Holds.spawn {c : Pool σ ε} (h : C.Holds Q c) {p : Proc σ ε PUnit}
    (hp : ∀ i, C.Sat i p (fun _ => True) fun _ => Q i) : C.Holds Q (c.move (.spawn p)) := by
  refine ⟨h.1, ?_⟩
  intro i q hq
  change (c.procs ++ [p])[i]? = some q at hq
  rcases Nat.lt_or_ge i c.procs.length with hlt | hge
  · rw [List.getElem?_append_left hlt] at hq
    exact h.2 i q hq
  · rw [List.getElem?_append_right hge] at hq
    obtain ⟨_, rfl⟩ : i - c.procs.length = 0 ∧ p = q := by
      rcases hd : i - c.procs.length with _ | n
      · simpa [hd] using hq
      · simp [hd] at hq
    exact ⟨fun _ => True, fun _ _ _ hw => hw, trivial, hp i⟩

/-- A step of a checked process promises its guarantee and leaves every
process checked: its own by the rule of a step, the others by stability. -/
theorem Holds.act {c : Pool σ ε} (h : C.Holds Q c) {i : ℕ} {action : σ → σ × List ε}
    {next : σ → Proc σ ε PUnit} (hi : c.procs[i]? = some (.step action next)) :
    C.Holds Q (c.move (.act i)) := by
  obtain ⟨P, _, hnow, hsat⟩ := h.2 i _ hi
  obtain ⟨hguar, P', hstable', hnow', hrest⟩ := hsat c.world h.1 hnow
  have hmove : c.move (.act i) =
      ⟨c.world.advance i action, c.procs.set i (next c.world.store)⟩ := by
    simp only [Pool.move, hi]
  rw [hmove]
  refine ⟨C.keeps h.1 hguar, ?_⟩
  intro j q hq
  dsimp only at hq
  by_cases hij : i = j
  · subst hij
    have hlt : i < c.procs.length := (List.getElem?_eq_some_iff.mp hi).1
    rw [List.getElem?_set_self hlt] at hq
    cases hq
    exact ⟨P', hstable', hnow', hrest⟩
  · rw [List.getElem?_set_ne hij] at hq
    obtain ⟨Pj, hstable, hnowj, hsatj⟩ := h.2 j q hq
    exact ⟨Pj, hstable, hstable (C.compatible (Ne.symm hij) hguar) hnowj, hsatj⟩

/-- Checked processes keep the contract in every interleaving. -/
theorem holds_of_reachable {allowed : Proc σ ε PUnit → Prop} {c₀ c : Pool σ ε}
    (hallowed : ∀ p, allowed p → ∀ i, C.Sat i p (fun _ => True) fun _ => Q i)
    (h₀ : C.Holds Q c₀) (h : Reachable allowed c₀ c) : C.Holds Q c := by
  induction h with
  | refl => exact h₀
  | @move c m _ hm ih =>
    cases m with
    | spawn p => exact ih.spawn (hallowed p hm)
    | act i =>
      rcases hi : c.procs[i]? with _ | p
      · simpa only [Pool.move, hi] using ih
      · cases p with
        | done value => simpa only [Pool.move, hi] using ih
        | step action next => exact ih.act hi

/-- The invariant of a contract holds in every world that harmless processes
lead to from an initial store satisfying it. -/
theorem inv_of_reachable {allowed : Proc σ ε PUnit → Prop} {s : σ} {c : Pool σ ε}
    (hallowed : ∀ p, allowed p → C.Harmless p) (h₀ : C.inv ⟨s, []⟩)
    (h : Reachable allowed (Pool.start s) c) : C.inv c.world := by
  refine (holds_of_reachable (Q := fun _ _ => True) ?_ ⟨h₀, ?_⟩ h).1
  · intro p hp i
    exact hallowed p hp i _ fun _ _ _ _ => trivial
  · intro i p hp
    simp [Pool.start] at hp

/-- Checked processes reach their postconditions whatever the schedule. -/
theorem Holds.exec {c : Pool σ ε} (h : C.Holds Q c) (steps : List ℕ) :
    C.Holds Q (c.exec (steps.map .act)) := by
  refine holds_of_reachable (fun _ hp => hp) h
    (reachable_exec .refl fun m hm => ?_)
  obtain ⟨i, _, rfl⟩ := List.mem_map.mp hm
  trivial

end Contract

section Sequential

/-- Steps start and remove no process. -/
theorem length_exec_act (c : Pool σ ε) (steps : List ℕ) :
    (c.exec (steps.map .act)).procs.length = c.procs.length := by
  induction steps generalizing c with
  | nil => rfl
  | cons i rest ih =>
    change ((c.move (.act i)).exec (rest.map .act)).procs.length = _
    rw [ih]
    simp only [Pool.move]
    split
    · exact List.length_set
    · rfl

/-- No process has a step left. -/
def Pool.Finished (c : Pool σ ε) : Prop := ∀ p ∈ c.procs, ∃ value, p = .done value

/-- The pool after process `i` has run to its end without interruption. -/
def Pool.finish (c : Pool σ ε) (i : ℕ) : Pool σ ε :=
  match c.procs[i]? with
  | none => c
  | some p =>
    ⟨⟨p.final c.world.store, c.world.log ++ (p.events c.world.store).map (i, ·)⟩,
      c.procs.set i (.done (p.result c.world.store))⟩

theorem Pool.exec_append (c : Pool σ ε) (first rest : List (Move σ ε)) :
    c.exec (first ++ rest) = (c.exec first).exec rest := List.foldl_append

theorem Pool.finish_of_getElem? {c : Pool σ ε} {i : ℕ} {p : Proc σ ε PUnit}
    (hi : c.procs[i]? = some p) : c.finish i =
      ⟨⟨p.final c.world.store, c.world.log ++ (p.events c.world.store).map (i, ·)⟩,
        c.procs.set i (.done (p.result c.world.store))⟩ := by
  unfold Pool.finish
  rw [hi]

/-- Letting one process step again and again runs it to its end. -/
theorem exists_exec_eq_finish (c : Pool σ ε) (i : ℕ) :
    ∃ steps : List ℕ, c.exec (steps.map .act) = c.finish i := by
  rcases hi : c.procs[i]? with _ | p
  · refine ⟨[], ?_⟩
    unfold Pool.finish
    rw [hi]
    rfl
  · induction p generalizing c with
    | done value =>
      refine ⟨[], ?_⟩
      have hset : c.procs.set i (.done value) = c.procs := by
        obtain ⟨hlt, hget⟩ := List.getElem?_eq_some_iff.mp hi
        rw [← hget]
        exact List.set_getElem_self hlt
      rw [Pool.finish_of_getElem? hi]
      simp [Pool.exec, Proc.result_done, hset]
    | step act next ih =>
      have hlt : i < c.procs.length := (List.getElem?_eq_some_iff.mp hi).1
      have hmove : c.move (.act i) =
          ⟨c.world.advance i act, c.procs.set i (next c.world.store)⟩ := by
        simp only [Pool.move, hi]
      have hnext : (c.move (.act i)).procs[i]? = some (next c.world.store) := by
        rw [hmove]
        exact List.getElem?_set_self hlt
      obtain ⟨steps, hsteps⟩ := ih c.world.store (c.move (.act i)) hnext
      refine ⟨i :: steps, ?_⟩
      change (c.move (.act i)).exec (steps.map .act) = _
      rw [hsteps, Pool.finish_of_getElem? hnext, Pool.finish_of_getElem? hi, hmove]
      simp [Proc.result, Proc.final, Proc.events, Proc.run]

/-- Running processes one after the other is one of the schedules. -/
theorem exists_exec_eq_foldl (c : Pool σ ε) (order : List ℕ) :
    ∃ steps : List ℕ, c.exec (steps.map .act) = order.foldl Pool.finish c := by
  induction order generalizing c with
  | nil => exact ⟨[], rfl⟩
  | cons i rest ih =>
    obtain ⟨first, hfirst⟩ := exists_exec_eq_finish c i
    obtain ⟨steps, hsteps⟩ := ih (c.finish i)
    refine ⟨first ++ steps, ?_⟩
    rw [List.map_append, Pool.exec_append, hfirst, hsteps]
    rfl

/-- Running one process does not touch the others. -/
theorem getElem?_finish_of_ne {c : Pool σ ε} {i j : ℕ} (hij : i ≠ j) :
    (c.finish i).procs[j]? = c.procs[j]? := by
  unfold Pool.finish
  split
  · rfl
  · exact List.getElem?_set_ne hij

/-- A process that has run to its end is finished. -/
theorem getElem?_finish_self {c : Pool σ ε} {i : ℕ} {p : Proc σ ε PUnit}
    (hi : c.procs[i]? = some p) : ∃ value, (c.finish i).procs[i]? = some (.done value) := by
  rw [Pool.finish_of_getElem? hi]
  exact ⟨_, List.getElem?_set_self (List.getElem?_eq_some_iff.mp hi).1⟩

theorem length_foldl_finish (c : Pool σ ε) (order : List ℕ) :
    (order.foldl Pool.finish c).procs.length = c.procs.length := by
  induction order generalizing c with
  | nil => rfl
  | cons i rest ih =>
    rw [List.foldl_cons, ih]
    unfold Pool.finish
    split
    · rfl
    · exact List.length_set

/-- Every process whose turn has come is finished, and stays so. -/
theorem done_foldl_finish {c : Pool σ ε} {order : List ℕ} {j : ℕ} {p : Proc σ ε PUnit}
    (hj : c.procs[j]? = some p) (hturn : j ∈ order ∨ ∃ value, p = .done value) :
    ∃ value, (order.foldl Pool.finish c).procs[j]? = some (.done value) := by
  induction order generalizing c p with
  | nil =>
    obtain ⟨value, rfl⟩ := hturn.resolve_left (List.not_mem_nil)
    exact ⟨value, hj⟩
  | cons i rest ih =>
    rw [List.foldl_cons]
    by_cases hij : i = j
    · subst hij
      obtain ⟨value, hvalue⟩ := getElem?_finish_self hj
      exact ih hvalue (Or.inr ⟨value, rfl⟩)
    · refine ih ((getElem?_finish_of_ne hij).trans hj) (hturn.imp_left fun hmem => ?_)
      exact (List.mem_cons.mp hmem).resolve_left (Ne.symm hij)

/-- Nothing is left once every process has had its turn. -/
theorem finished_foldl_finish {c : Pool σ ε} {order : List ℕ}
    (hall : ∀ i, i < c.procs.length → i ∈ order) : (order.foldl Pool.finish c).Finished := by
  intro p hp
  obtain ⟨j, hlt, rfl⟩ := List.mem_iff_getElem.mp hp
  rw [length_foldl_finish] at hlt
  obtain ⟨value, hvalue⟩ := done_foldl_finish (List.getElem?_eq_getElem hlt) (Or.inl (hall j hlt))
  exact ⟨value, Option.some.inj ((List.getElem?_eq_getElem _).symm.trans hvalue)⟩

/-- In a finished pool of checked processes all postconditions hold. -/
theorem Contract.Holds.post_of_finished {C : Contract σ ε} {Q : ℕ → World σ ε → Prop}
    {c : Pool σ ε} (h : C.Holds Q c) (hfinished : c.Finished) {i : ℕ} (hi : i < c.procs.length) :
    Q i c.world := by
  obtain ⟨value, hvalue⟩ := hfinished _ (List.getElem_mem hi)
  exact h.post ((List.getElem?_eq_getElem hi).trans (congrArg some hvalue))

end Sequential

end Interleaving
