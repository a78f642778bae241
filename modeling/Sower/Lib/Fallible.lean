import Sower.Lib.Interleaving

/-!
# Processes that fail

A fallible process ends with a value or with an error. Sequential composition
goes on only after a value. What a process has done to the store before it
fails stays done, so a contract speaks about both endings.

A process can also be cut short from outside. Then one last action, which the
process does not choose, takes place in its stead.
-/

namespace Process

universe u

variable {σ ε χ α β : Type u}

/-- A process that ends with a value or an error. -/
abbrev Fallible (σ ε χ α : Type u) := ExceptT χ (Proc σ ε) α

namespace Fallible

/-- One atomic step that returns a value or fails. -/
def atomic (f : σ → (σ × List ε) × Except χ α) : Fallible σ ε χ α := ExceptT.mk (Proc.atomic f)

/-- One atomic read. -/
def read (f : σ → α) : Fallible σ ε χ α := ExceptT.mk (Proc.read fun s => .ok (f s))

/-- Log an event. -/
def emit (e : ε) : Fallible σ ε χ PUnit := ExceptT.mk (Proc.atomic fun s => ((s, [e]), .ok ⟨⟩))

/-- Go on with an outcome. -/
def lift (outcome : Except χ α) : Fallible σ ε χ α := ExceptT.mk (pure outcome)

/-- Run a process and go on with its ending, whichever it is. -/
def attempt (p : Fallible σ ε χ α) : Fallible σ ε χ (Except χ α) :=
  ExceptT.mk (p.run >>= fun outcome => pure (.ok outcome))

@[simp] theorem run_pure (value : α) : (pure value : Fallible σ ε χ α).run = pure (.ok value) := rfl

@[simp] theorem run_throw (e : χ) : (throw e : Fallible σ ε χ α).run = pure (.error e) := rfl

@[simp] theorem run_lift (outcome : Except χ α) :
    (lift outcome : Fallible σ ε χ α).run = pure outcome := rfl

/-- The second part runs only when the first one ends with a value. -/
theorem run_bind (p : Fallible σ ε χ α) (k : α → Fallible σ ε χ β) :
    (p >>= k).run = p.run >>= fun outcome =>
      match outcome with
      | .ok value => (k value).run
      | .error e => pure (.error e) := rfl

end Fallible

/-- At most the first steps of a process, then the last action. -/
def Proc.cut (last : σ → σ × List ε) : ℕ → Proc σ ε α → Proc σ ε PUnit
  | n + 1, .step act next => .step act fun s => (next s).cut last n
  | _, _ => .step last fun _ => .done ⟨⟩

/-- A process that has ended takes the last action at once. -/
theorem Proc.cut_done (last : σ → σ × List ε) (n : ℕ) (value : α) :
    (Proc.done value : Proc σ ε α).cut last n = .step last fun _ => .done ⟨⟩ := by
  cases n <;> rfl

section Follows

variable {rel : σ → List ε → σ → Prop}

/-- Every step of a fallible process goes along the relation. -/
def Fallible.Follows (rel : σ → List ε → σ → Prop) (p : Fallible σ ε χ α) : Prop :=
  p.run.Steps rel

theorem follows_pure (value : α) : (pure value : Fallible σ ε χ α).Follows rel :=
  Proc.steps_done _

theorem follows_throw (e : χ) : (throw e : Fallible σ ε χ α).Follows rel := Proc.steps_done _

theorem follows_lift (outcome : Except χ α) :
    (Fallible.lift outcome : Fallible σ ε χ α).Follows rel :=
  Proc.steps_done _

theorem follows_atomic {f : σ → (σ × List ε) × Except χ α}
    (h : ∀ s, rel s (f s).1.2 (f s).1.1) : (Fallible.atomic f).Follows rel :=
  Proc.steps_atomic h

theorem Fallible.Follows.bind {p : Fallible σ ε χ α} {k : α → Fallible σ ε χ β}
    (hp : p.Follows rel) (hk : ∀ a, (k a).Follows rel) : (p >>= k).Follows rel := by
  refine Proc.Steps.bind hp fun outcome => ?_
  cases outcome with
  | ok value => exact hk value
  | error e => exact Proc.steps_done _

theorem Fallible.Follows.attempt {p : Fallible σ ε χ α} (hp : p.Follows rel) :
    (Fallible.attempt p).Follows rel :=
  Proc.Steps.bind hp fun _ => Proc.steps_done _

theorem follows_forM {γ : Type u} {xs : List γ} {body : γ → Fallible σ ε χ PUnit}
    (h : ∀ x ∈ xs, (body x).Follows rel) : (xs.forM body).Follows rel := by
  induction xs with
  | nil => exact follows_pure _
  | cons x rest ih =>
    refine (h x List.mem_cons_self).bind fun _ => ih ?_
    intro y hy
    exact h y (List.mem_cons_of_mem x hy)

/-- A process that goes along a preorder with every step goes along it as a whole. -/
theorem Proc.Steps.final {R : σ → σ → Prop} {p : Proc σ ε α}
    (hp : p.Steps fun s _ s' => R s s') (hrefl : ∀ s, R s s)
    (htrans : ∀ {a b c}, R a b → R b c → R a c) (s : σ) : R s (p.final s) := by
  induction p generalizing s with
  | done value => exact hrefl s
  | step act next ih =>
    obtain ⟨hact, hnext⟩ := hp s
    exact htrans hact (ih s hnext (act s).1)

end Follows

end Process

namespace Interleaving.Contract

open Process

universe u

variable {σ ε χ α β : Type u} {C : Contract σ ε} {i : ℕ}

/-- What holds after either ending. -/
def Ends (Q : α → World σ ε → Prop) (E : World σ ε → Prop) : Except χ α → World σ ε → Prop
  | .ok value => Q value
  | .error _ => E

/-- A fallible process keeps the contract and ends in one of two postconditions. -/
def Safe (C : Contract σ ε) (i : ℕ) (p : Fallible σ ε χ α) (P : World σ ε → Prop)
    (Q : α → World σ ε → Prop) (E : World σ ε → Prop) : Prop :=
  C.Sat i p.run P (Ends Q E)

variable {P : World σ ε → Prop} {Q : α → World σ ε → Prop} {E : World σ ε → Prop}

theorem Safe.pure {value : α} (h : ∀ w, P w → Q value w) :
    C.Safe i (pure value : Fallible σ ε χ α) P Q E := h

theorem Safe.throw {e : χ} (h : ∀ w, P w → E w) :
    C.Safe i (throw e : Fallible σ ε χ α) P Q E := h

theorem Safe.lift {outcome : Except χ α} (hok : ∀ value, outcome = .ok value → ∀ w, P w → Q value w)
    (herror : ∀ w, P w → E w) : C.Safe i (Fallible.lift outcome) P Q E := by
  cases outcome with
  | ok value => exact hok value rfl
  | error e => exact herror

/-- An outcome that is a value is known from then on. -/
theorem Safe.outcome {outcome : Except χ α} (hPE : ∀ w, P w → E w) :
    C.Safe i (Fallible.lift outcome) P (fun value w => P w ∧ outcome = .ok value) E :=
  .lift (fun _ hok _ hw => ⟨hw, hok⟩) hPE

theorem Safe.conseq {P' : World σ ε → Prop} {Q' : α → World σ ε → Prop} {E' : World σ ε → Prop}
    {p : Fallible σ ε χ α} (h : C.Safe i p P Q E) (hP : ∀ w, P' w → P w)
    (hQ : ∀ a w, Q a w → Q' a w) (hE : ∀ w, E w → E' w) : C.Safe i p P' Q' E' := by
  refine Sat.conseq h hP ?_
  intro outcome w hw
  cases outcome with
  | ok value => exact hQ value w hw
  | error e => exact hE w hw

/-- A fact in the precondition that does not depend on the world. -/
theorem Safe.assume {fact : Prop} {p : Fallible σ ε χ α} (h : fact → C.Safe i p P Q E) :
    C.Safe i p (fun w => P w ∧ fact) Q E :=
  Sat.assume h

theorem Safe.bind {p : Fallible σ ε χ α} {k : α → Fallible σ ε χ β} {Q' : β → World σ ε → Prop}
    (h : C.Safe i p P Q E) (hk : ∀ a, C.Safe i (k a) (Q a) Q' E) :
    C.Safe i (p >>= k) P Q' E := by
  refine Sat.bind h ?_
  intro outcome
  cases outcome with
  | ok value => exact hk value
  | error e => exact fun _ hw => hw

/-- The ending of a process that is attempted becomes a value. -/
theorem Safe.attempt {p : Fallible σ ε χ α} (h : C.Safe i p P Q E) {E' : World σ ε → Prop} :
    C.Safe i (Fallible.attempt p) P (fun outcome w => Ends Q E outcome w) E' :=
  Sat.bind h fun _ _ hw => hw

theorem Safe.atomic {f : σ → (σ × List ε) × Except χ α}
    (h : ∀ w, C.inv w → P w →
      C.guar i w (w.advance i fun s => (f s).1) ∧
        Ends Q E (f w.store).2 (w.advance i fun s => (f s).1))
    (hQ : ∀ a, C.Stable i (Q a)) (hE : C.Stable i E) : C.Safe i (Fallible.atomic f) P Q E := by
  refine Sat.atomic h ?_
  intro outcome
  cases outcome with
  | ok value => exact hQ value
  | error e => exact hE

/-- A loop over a list keeps an assertion that every round keeps. -/
theorem Safe.forM {γ : Type u} {xs : List γ} {body : γ → Fallible σ ε χ PUnit}
    (h : ∀ x ∈ xs, C.Safe i (body x) P (fun _ => P) E) :
    C.Safe i (xs.forM body) P (fun _ => P) E := by
  induction xs with
  | nil => exact .pure fun _ hw => hw
  | cons x rest ih =>
    refine (h x List.mem_cons_self).bind fun _ => ih ?_
    intro y hy
    exact h y (List.mem_cons_of_mem x hy)

/-- An assertion that neither the others nor the process itself can break. -/
theorem Sat.frame {p : Proc σ ε α} {R : World σ ε → Prop} (h : C.Sat i p P Q)
    (hstable : C.Stable i R) (hown : ∀ w w', C.guar i w w' → R w → R w') :
    C.Sat i p (fun w => P w ∧ R w) fun a w => Q a w ∧ R w := by
  induction p generalizing P with
  | done value => exact fun w hw => ⟨h w hw.1, hw.2⟩
  | step act next ih =>
    intro w hinv hw
    obtain ⟨hguar, P', hstable', hnow, hrest⟩ := h w hinv hw.1
    refine ⟨hguar, fun w => P' w ∧ R w, ?_, ⟨hnow, hown _ _ hguar hw.2⟩, ih w.store hrest⟩
    intro v v' hrely hv
    exact ⟨hstable' hrely hv.1, hstable hrely hv.2⟩

theorem Safe.frame {p : Fallible σ ε χ α} {R : World σ ε → Prop} (h : C.Safe i p P Q E)
    (hstable : C.Stable i R) (hown : ∀ w w', C.guar i w w' → R w → R w') :
    C.Safe i p (fun w => P w ∧ R w) (fun a w => Q a w ∧ R w) fun w => E w ∧ R w := by
  refine Sat.conseq (Sat.frame h hstable hown) (fun _ hw => hw) ?_
  intro outcome w hw
  cases outcome with
  | ok value => exact hw
  | error e => exact hw

/-- A process that is cut short keeps the contract when its last action does, which may
rely on what holds throughout the process. -/
theorem Sat.cut {p : Proc σ ε α} {last : σ → σ × List ε} {R Q' : World σ ε → Prop}
    (h : C.Sat i p P Q) (hstable : C.Stable i R) (hown : ∀ w w', C.guar i w w' → R w → R w')
    (hQ' : C.Stable i Q') (hlast : ∀ w, C.inv w → R w →
      C.guar i w (w.advance i last) ∧ Q' (w.advance i last)) (n : ℕ) :
    C.Sat i (p.cut last n) (fun w => P w ∧ R w) fun _ => Q' := by
  have hend : C.Sat i (.step last fun _ => .done ⟨⟩) (fun w => P w ∧ R w) fun _ : PUnit => Q' := by
    intro w hinv hw
    obtain ⟨hguar, hpost⟩ := hlast w hinv hw.2
    exact ⟨hguar, Q', hQ', hpost, fun _ hw' => hw'⟩
  induction p generalizing P n with
  | done value =>
    rw [Proc.cut_done]
    exact hend
  | step act next ih =>
    cases n with
    | zero => exact hend
    | succ n =>
      intro w hinv hw
      obtain ⟨hguar, P', hstable', hnow, hrest⟩ := h w hinv hw.1
      have hend' : C.Sat i (.step last fun _ => .done ⟨⟩) (fun w => P' w ∧ R w)
          fun _ : PUnit => Q' := by
        intro v hinv' hv
        obtain ⟨hguar', hpost⟩ := hlast v hinv' hv.2
        exact ⟨hguar', Q', hQ', hpost, fun _ hw' => hw'⟩
      refine ⟨hguar, fun w => P' w ∧ R w, ?_, ⟨hnow, hown _ _ hguar hw.2⟩, ih w.store hrest n hend'⟩
      intro v v' hrely hv
      exact ⟨hstable' hrely hv.1, hstable hrely hv.2⟩

/-- What a checked process leaves behind when nothing disturbs it. -/
theorem Sat.final {p : Proc σ ε α} (h : C.Sat i p P Q) {w : World σ ε} (hinv : C.inv w)
    (hw : P w) : C.inv (w.extend i (p.events w.store) (p.final w.store)) ∧
      Q (p.result w.store) (w.extend i (p.events w.store) (p.final w.store)) := by
  induction p generalizing P w with
  | done value =>
    have hsame : w.extend i [] w.store = w := by
      simp only [World.extend, List.map_nil, List.append_nil]
    exact hsame.symm ▸ ⟨hinv, h w hw⟩
  | step act next ih =>
    obtain ⟨hguar, P', -, hnow, hrest⟩ := h w hinv hw
    have hthen := ih w.store hrest (C.keeps hinv hguar) hnow
    have hsame : w.extend i ((Proc.step act next).events w.store)
        ((Proc.step act next).final w.store) =
        (w.advance i act).extend i ((next w.store).events (act w.store).1)
          ((next w.store).final (act w.store).1) := by
      simp only [World.extend, World.advance, Proc.events, Proc.final, Proc.run, List.map_append,
        List.append_assoc]
    rw [hsame]
    exact hthen

section Tame

/-- The process keeps the contract and every stable assertion, however it ends. -/
def Tame (C : Contract σ ε) (p : Fallible σ ε χ α) : Prop := C.Harmless p.run

theorem Tame.safe {p : Fallible σ ε χ α} (h : C.Tame p) (hP : C.Stable i P) :
    C.Safe i p P (fun _ => P) P := by
  refine Sat.conseq (h i P hP) (fun _ hw => hw) ?_
  intro outcome w hw
  cases outcome with
  | ok value => exact hw
  | error e => exact hw

/-- Either ending leaves a stable assertion, and what it implies. -/
theorem Tame.keep {p : Fallible σ ε χ α} (h : C.Tame p) (hP : C.Stable i P)
    (hPE : ∀ w, P w → E w) : C.Safe i p P (fun _ => P) E :=
  (h.safe hP).conseq (fun _ hw => hw) (fun _ _ hw => hw) hPE

theorem tame_lift (outcome : Except χ α) :
    C.Tame (Fallible.lift outcome : Fallible σ ε χ α) :=
  harmless_done outcome

theorem Tame.bind {p : Fallible σ ε χ α} {k : α → Fallible σ ε χ β} (hp : C.Tame p)
    (hk : ∀ a, C.Tame (k a)) : C.Tame (p >>= k) := by
  refine Harmless.bind hp ?_
  intro outcome
  cases outcome with
  | ok value => exact hk value
  | error e => exact harmless_done _

theorem Tame.attempt {p : Fallible σ ε χ α} (hp : C.Tame p) :
    C.Tame (Fallible.attempt p) :=
  Harmless.bind hp fun _ => harmless_done _

end Tame

section Fresh

variable {Q : ℕ → World σ ε → Prop}

/-- The processes of a pool keep the contract, and whatever was logged was logged by one
of them. -/
def HoldsFrom (C : Contract σ ε) (Q : ℕ → World σ ε → Prop) (c : Pool σ ε) : Prop :=
  C.Holds Q c ∧ ∀ entry ∈ c.world.log, entry.1 < c.procs.length

/-- Nothing has been logged by process `i`. -/
def Silent (i : ℕ) (w : World σ ε) : Prop := ∀ e, (i, e) ∉ w.log

/-- A process that is started has not logged anything yet. -/
theorem HoldsFrom.spawn {c : Pool σ ε} (h : C.HoldsFrom Q c) {p : Proc σ ε PUnit}
    (hstable : ∀ i, C.Stable i (Silent i)) (hp : ∀ i, C.Sat i p (Silent i) fun _ => Q i) :
    C.HoldsFrom Q (c.move (.spawn p)) := by
  obtain ⟨⟨hinv, hprocs⟩, hlog⟩ := h
  refine ⟨⟨hinv, ?_⟩, ?_⟩
  · intro i q hq
    change (c.procs ++ [p])[i]? = some q at hq
    rcases Nat.lt_or_ge i c.procs.length with hlt | hge
    · rw [List.getElem?_append_left hlt] at hq
      exact hprocs i q hq
    · rw [List.getElem?_append_right hge] at hq
      have hq : p = q := by
        rcases hd : i - c.procs.length with _ | n
        · simpa [hd] using hq
        · simp [hd] at hq
      subst hq
      refine ⟨Silent i, hstable i, fun e he => ?_, hp i⟩
      exact absurd (hlog _ he) (Nat.not_lt.mpr hge)
  · intro entry hentry
    change entry.1 < (c.procs ++ [p]).length
    rw [List.length_append]
    exact Nat.lt_add_right _ (hlog entry hentry)

theorem HoldsFrom.act {c : Pool σ ε} (h : C.HoldsFrom Q c) {i : ℕ} {action : σ → σ × List ε}
    {next : σ → Proc σ ε PUnit} (hi : c.procs[i]? = some (.step action next)) :
    C.HoldsFrom Q (c.move (.act i)) := by
  refine ⟨h.1.act hi, ?_⟩
  have hlt : i < c.procs.length := (List.getElem?_eq_some_iff.mp hi).1
  simp only [Pool.move, hi]
  intro entry hentry
  rw [List.length_set]
  rcases List.mem_append.mp hentry with hold | hnew
  · exact h.2 entry hold
  · obtain ⟨e, _, rfl⟩ := List.mem_map.mp hnew
    exact hlt

/-- Processes that are checked from a silent start keep the contract in every interleaving. -/
theorem holdsFrom_of_reachable {allowed : Proc σ ε PUnit → Prop} {c₀ c : Pool σ ε}
    (hstable : ∀ i, C.Stable i (Silent i))
    (hallowed : ∀ p, allowed p → ∀ i, C.Sat i p (Silent i) fun _ => Q i)
    (h₀ : C.HoldsFrom Q c₀) (h : Reachable allowed c₀ c) : C.HoldsFrom Q c := by
  induction h with
  | refl => exact h₀
  | @move c m _ hm ih =>
    cases m with
    | spawn p => exact ih.spawn hstable (hallowed p hm)
    | act i =>
      rcases hi : c.procs[i]? with _ | p
      · simpa only [Pool.move, hi] using ih
      · cases p with
        | done value => simpa only [Pool.move, hi] using ih
        | step action next => exact ih.act hi

theorem holdsFrom_start {s : σ} (h : C.inv ⟨s, []⟩) : C.HoldsFrom Q (Pool.start s) := by
  refine ⟨⟨h, ?_⟩, ?_⟩
  · intro i p hp
    simp [Pool.start] at hp
  · intro entry hentry
    cases hentry

/-- What a step of a checked process does to the world, it promises. -/
theorem HoldsFrom.guar {c : Pool σ ε} (h : C.HoldsFrom Q c) (i : ℕ) :
    (c.move (.act i)).world = c.world ∨ C.guar i c.world (c.move (.act i)).world := by
  rcases hi : c.procs[i]? with _ | p
  · exact Or.inl (by simp only [Pool.move, hi])
  · cases p with
    | done value => exact Or.inl (by simp only [Pool.move, hi])
    | step action next =>
      obtain ⟨P, _, hnow, hsat⟩ := h.1.2 i _ hi
      have hguar := (hsat c.world h.1.1 hnow).1
      simp only [Pool.move, hi]
      exact Or.inr hguar

/-- Every run takes the world along a preorder that contains all that is promised. -/
theorem along_of_reachable {allowed : Proc σ ε PUnit → Prop} {c₀ c : Pool σ ε}
    {R : World σ ε → World σ ε → Prop} (hstable : ∀ i, C.Stable i (Silent i))
    (hallowed : ∀ p, allowed p → ∀ i, C.Sat i p (Silent i) fun _ => Q i)
    (hrefl : ∀ w, R w w) (htrans : ∀ {w w' w''}, R w w' → R w' w'' → R w w'')
    (hguar : ∀ {i w w'}, C.guar i w w' → R w w') (h₀ : C.HoldsFrom Q c₀)
    (h : Reachable allowed c₀ c) : R c₀.world c.world := by
  induction h with
  | refl => exact hrefl _
  | @move c m hbefore hm ih =>
    refine htrans ih ?_
    cases m with
    | spawn p => exact hrefl _
    | act i =>
      rcases (holdsFrom_of_reachable hstable hallowed h₀ hbefore).guar i with hsame | hstep
      · rw [hsame]
        exact hrefl _
      · exact hguar hstep

end Fresh

end Interleaving.Contract
