import Mathlib.Data.List.Basic

/-!
# Processes over a shared store

A process is a sequential program cut into atomic steps. One step rewrites
the shared store, appends events to a log and chooses what comes next from
the store it started from. Everything between two steps is invisible to the
other processes, so a schedule of several processes is a choice of steps.
-/

namespace Process

universe u

/-- Finished with a value, or one atomic step followed by a continuation. -/
inductive Proc (σ ε α : Type u) where
  /-- No step is left; the value is the result of the whole program. -/
  | done (value : α)
  /-- One atomic step. The continuation sees the store the step started from. -/
  | step (act : σ → σ × List ε) (next : σ → Proc σ ε α)

namespace Proc

variable {σ ε α β γ : Type u}

/-- Sequential composition: the second program starts where the first one ends. -/
def bind : Proc σ ε α → (α → Proc σ ε β) → Proc σ ε β
  | .done value, next => next value
  | .step act rest, next => .step act fun s => (rest s).bind next

instance : Monad (Proc σ ε) where
  pure := .done
  bind := bind

@[simp] theorem pure_eq (value : α) : (pure value : Proc σ ε α) = .done value := rfl

@[simp] theorem done_bind (value : α) (next : α → Proc σ ε β) :
    (Proc.done value >>= next) = next value := rfl

@[simp] theorem step_bind (act : σ → σ × List ε) (rest : σ → Proc σ ε α)
    (next : α → Proc σ ε β) :
    (Proc.step act rest >>= next) = .step act fun s => rest s >>= next := rfl

theorem id_map' (p : Proc σ ε α) : id <$> p = p := by
  induction p with
  | done value => rfl
  | step act rest ih => exact congrArg (Proc.step act) (funext ih)

theorem bind_assoc' (p : Proc σ ε α) (f : α → Proc σ ε β) (g : β → Proc σ ε γ) :
    p >>= f >>= g = p >>= fun a => f a >>= g := by
  induction p with
  | done value => rfl
  | step act rest ih => exact congrArg (Proc.step act) (funext ih)

instance : LawfulMonad (Proc σ ε) := LawfulMonad.mk' _ id_map' (fun _ _ => rfl) bind_assoc'

/-- One atomic step that rewrites the store, logs events and returns a value. -/
def atomic (f : σ → (σ × List ε) × α) : Proc σ ε α :=
  .step (fun s => (f s).1) fun s => .done (f s).2

/-- One atomic read: the store and the log keep their values. -/
def read (f : σ → α) : Proc σ ε α := atomic fun s => ((s, []), f s)

/-- One atomic step that only logs an event. -/
def emit (e : ε) : Proc σ ε PUnit := atomic fun s => ((s, [e]), ⟨⟩)

/-- The undisturbed run: result, final store and the events in order. -/
def run : Proc σ ε α → σ → α × σ × List ε
  | .done value, s => (value, s, [])
  | .step act next, s =>
    let after := act s
    let rest := (next s).run after.1
    (rest.1, rest.2.1, after.2 ++ rest.2.2)

/-- Result of the undisturbed run. -/
def result (p : Proc σ ε α) (s : σ) : α := (p.run s).1

/-- Store the undisturbed run ends in. -/
def final (p : Proc σ ε α) (s : σ) : σ := (p.run s).2.1

/-- Events of the undisturbed run. -/
def events (p : Proc σ ε α) (s : σ) : List ε := (p.run s).2.2

section Run

variable (p : Proc σ ε α) (k : α → Proc σ ε β) (s : σ)

@[simp] theorem result_done (value : α) : (Proc.done value : Proc σ ε α).result s = value := rfl

@[simp] theorem final_done (value : α) : (Proc.done value : Proc σ ε α).final s = s := rfl

@[simp] theorem events_done (value : α) : (Proc.done value : Proc σ ε α).events s = [] := rfl

@[simp] theorem result_atomic (f : σ → (σ × List ε) × α) : (atomic f).result s = (f s).2 := rfl

@[simp] theorem final_atomic (f : σ → (σ × List ε) × α) : (atomic f).final s = (f s).1.1 := rfl

@[simp] theorem events_atomic (f : σ → (σ × List ε) × α) : (atomic f).events s = (f s).1.2 :=
  List.append_nil _

@[simp] theorem result_read (f : σ → α) : (read f : Proc σ ε α).result s = f s := rfl

@[simp] theorem final_read (f : σ → α) : (read f : Proc σ ε α).final s = s := rfl

@[simp] theorem events_read (f : σ → α) : (read f : Proc σ ε α).events s = [] := rfl

@[simp] theorem final_emit (e : ε) : (emit e : Proc σ ε PUnit).final s = s := rfl

@[simp] theorem events_emit (e : ε) : (emit e : Proc σ ε PUnit).events s = [e] := rfl

/-- The run of one step. -/
theorem run_atomic (f : σ → (σ × List ε) × α) :
    (atomic f).run s = ((f s).2, (f s).1.1, (f s).1.2) := by
  simp [atomic, run]

/-- The run of a composition is the run of the second part from where the
first part ended, with the two event lists in order. -/
theorem run_bind : (p >>= k).run s =
    let first := p.run s
    let second := (k first.1).run first.2.1
    (second.1, second.2.1, first.2.2 ++ second.2.2) := by
  induction p generalizing s with
  | done value => simp [run]
  | step act next ih => simp [run, ih, List.append_assoc]

/-- Two runs in sequence. -/
theorem run_bind_eq {p : Proc σ ε α} {k : α → Proc σ ε β} {s s' s'' : σ} {a : α} {b : β}
    {es es' : List ε} (h : p.run s = (a, s', es)) (h' : (k a).run s' = (b, s'', es')) :
    (p >>= k).run s = (b, s'', es ++ es') := by
  simp only [run_bind, h, h']

@[simp] theorem result_bind : (p >>= k).result s = (k (p.result s)).result (p.final s) := by
  simp only [result, final, run_bind]

@[simp] theorem final_bind : (p >>= k).final s = (k (p.result s)).final (p.final s) := by
  simp only [result, final, run_bind]

@[simp] theorem events_bind :
    (p >>= k).events s = p.events s ++ (k (p.result s)).events (p.final s) := by
  simp only [result, final, events, run_bind]

end Run

section Stays

variable {rel : σ → σ → Prop} {kind : ε → Prop}

/-- The undisturbed run takes every store along the relation and logs only events
of the kind. -/
def Stays (rel : σ → σ → Prop) (kind : ε → Prop) (p : Proc σ ε α) : Prop :=
  ∀ s, rel s (p.final s) ∧ ∀ e ∈ p.events s, kind e

theorem stays_done (hrefl : ∀ s, rel s s) (value : α) :
    (Proc.done value : Proc σ ε α).Stays rel kind := by
  intro s
  exact ⟨hrefl s, fun e he => (by cases he)⟩

theorem stays_atomic {f : σ → (σ × List ε) × α}
    (h : ∀ s, rel s (f s).1.1 ∧ ∀ e ∈ (f s).1.2, kind e) : (atomic f).Stays rel kind := by
  intro s
  rw [final_atomic, events_atomic]
  exact h s

theorem Stays.bind {p : Proc σ ε α} {k : α → Proc σ ε β} (hp : p.Stays rel kind)
    (htrans : ∀ {a b c}, rel a b → rel b c → rel a c) (hk : ∀ a, (k a).Stays rel kind) :
    (p >>= k).Stays rel kind := by
  intro s
  obtain ⟨hfirst, hkind⟩ := hp s
  obtain ⟨hsecond, hkind'⟩ := hk (p.result s) (p.final s)
  rw [final_bind, events_bind]
  refine ⟨htrans hfirst hsecond, fun e he => ?_⟩
  rcases List.mem_append.mp he with hold | hnew
  · exact hkind e hold
  · exact hkind' e hnew

/-- More stores may be related, and more events of the kind. -/
theorem Stays.mono {rel' : σ → σ → Prop} {kind' : ε → Prop} {p : Proc σ ε α}
    (hp : p.Stays rel kind) (hrel : ∀ s s', rel s s' → rel' s s') (hkind : ∀ e, kind e → kind' e) :
    p.Stays rel' kind' := by
  intro s
  obtain ⟨hfinal, hevents⟩ := hp s
  exact ⟨hrel _ _ hfinal, fun e he => hkind e (hevents e he)⟩

theorem stays_forM {γ : Type u} {xs : List γ} {body : γ → Proc σ ε PUnit} (hrefl : ∀ s, rel s s)
    (htrans : ∀ {a b c}, rel a b → rel b c → rel a c) (h : ∀ x ∈ xs, (body x).Stays rel kind) :
    (xs.forM body).Stays rel kind := by
  induction xs with
  | nil => exact stays_done hrefl _
  | cons x rest ih =>
    refine (h x List.mem_cons_self).bind htrans fun _ => ih ?_
    intro y hy
    exact h y (List.mem_cons_of_mem x hy)

end Stays

section Steps

variable {rel : σ → List ε → σ → Prop}

/-- Every step of the program takes the store it starts from along the relation,
with the events that the step logs. -/
def Steps (rel : σ → List ε → σ → Prop) : Proc σ ε α → Prop
  | .done _ => True
  | .step act next => ∀ s, rel s (act s).2 (act s).1 ∧ (next s).Steps rel

theorem steps_done (value : α) : (Proc.done value : Proc σ ε α).Steps rel := trivial

theorem steps_atomic {f : σ → (σ × List ε) × α} (h : ∀ s, rel s (f s).1.2 (f s).1.1) :
    (atomic f).Steps rel := by
  intro s
  exact ⟨h s, steps_done _⟩

theorem Steps.bind {p : Proc σ ε α} {k : α → Proc σ ε β} (hp : p.Steps rel)
    (hk : ∀ a, (k a).Steps rel) : (p >>= k).Steps rel := by
  induction p with
  | done value => exact hk value
  | step act next ih =>
    intro s
    obtain ⟨hact, hnext⟩ := hp s
    exact ⟨hact, ih s hnext⟩

theorem steps_forM {γ : Type u} {xs : List γ} {body : γ → Proc σ ε PUnit}
    (h : ∀ x ∈ xs, (body x).Steps rel) : (xs.forM body).Steps rel := by
  induction xs with
  | nil => exact steps_done _
  | cons x rest ih =>
    refine (h x List.mem_cons_self).bind fun _ => ih ?_
    intro y hy
    exact h y (List.mem_cons_of_mem x hy)

/-- A weaker relation holds of the same steps. -/
theorem Steps.mono {rel' : σ → List ε → σ → Prop} {p : Proc σ ε α} (hp : p.Steps rel)
    (h : ∀ s es s', rel s es s' → rel' s es s') : p.Steps rel' := by
  induction p with
  | done value => exact steps_done value
  | step act next ih =>
    intro s
    obtain ⟨hact, hnext⟩ := hp s
    exact ⟨h _ _ _ hact, ih s hnext⟩

end Steps

end Proc

end Process
