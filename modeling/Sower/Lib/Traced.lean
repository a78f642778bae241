import Mathlib.Data.List.Basic

/-!
# Computations that leave a trace

A traced computation performs effects in order and ends with a value or stops
early. What it has done before it stops stays done, so the trace survives a
failure. Sequential composition appends the traces.
-/

namespace Traced

/-- Effects in order, and the value or the reason for stopping early. -/
structure Run (ε χ α : Type) where
  /-- Everything that has been performed. -/
  effects : List ε
  /-- Value of the computation, or why it stopped. -/
  ending : Except χ α

namespace Run

variable {ε χ α β : Type}

/-- The second computation runs only when the first one ends with a value. -/
def bind (t : Run ε χ α) (next : α → Run ε χ β) : Run ε χ β :=
  match t.ending with
  | .error stop => ⟨t.effects, .error stop⟩
  | .ok value => ⟨t.effects ++ (next value).effects, (next value).ending⟩

instance : Monad (Run ε χ) where
  pure value := ⟨[], .ok value⟩
  bind := bind

/-- Perform one effect. -/
def perform (e : ε) : Run ε χ Unit := ⟨[e], .ok ()⟩

/-- Continue with a value or stop. -/
def lift (outcome : Except χ α) : Run ε χ α := ⟨[], outcome⟩

@[simp] theorem effects_pure (value : α) : (pure value : Run ε χ α).effects = [] := rfl

@[simp] theorem ending_pure (value : α) : (pure value : Run ε χ α).ending = .ok value := rfl

@[simp] theorem effects_perform (e : ε) : (perform e : Run ε χ Unit).effects = [e] := rfl

@[simp] theorem ending_perform (e : ε) : (perform e : Run ε χ Unit).ending = .ok () := rfl

@[simp] theorem effects_lift (outcome : Except χ α) : (lift outcome : Run ε χ α).effects = [] := rfl

@[simp] theorem ending_lift (outcome : Except χ α) :
    (lift outcome : Run ε χ α).ending = outcome := rfl

section Bind

variable {t : Run ε χ α} {next : α → Run ε χ β}

/-- A composition that stops early in its first part performs only that part. -/
theorem bind_of_error {stop : χ} (h : t.ending = .error stop) :
    t >>= next = ⟨t.effects, .error stop⟩ := by
  change bind t next = _
  simp only [bind, h]

/-- A composition whose first part has a value performs both parts. -/
theorem bind_of_ok {value : α} (h : t.ending = .ok value) :
    t >>= next = ⟨t.effects ++ (next value).effects, (next value).ending⟩ := by
  change bind t next = _
  simp only [bind, h]

/-- An effect of a composition belongs to the first part, or to the second one
after the value of the first. -/
theorem mem_effects_bind {e : ε} :
    e ∈ (t >>= next).effects ↔
      e ∈ t.effects ∨ ∃ value, t.ending = .ok value ∧ e ∈ (next value).effects := by
  rcases h : t.ending with stop | value
  · simp [bind_of_error h]
  · simp [bind_of_ok h]

/-- A composition ends with a value exactly when both parts do. -/
theorem ending_bind_ok {result : β} :
    (t >>= next).ending = .ok result ↔
      ∃ value, t.ending = .ok value ∧ (next value).ending = .ok result := by
  rcases h : t.ending with stop | value
  · simp [bind_of_error h]
  · simp [bind_of_ok h]

end Bind

section Laws

theorem ext {t t' : Run ε χ α} (heffects : t.effects = t'.effects) (hending : t.ending = t'.ending) :
    t = t' := by
  cases t
  cases t'
  cases heffects
  cases hending
  rfl

@[simp] theorem bind_pure_run (t : Run ε χ α) : t >>= pure = t := by
  cases h : t.ending with
  | error stop => rw [bind_of_error h, ← h]
  | ok value => rw [bind_of_ok h, effects_pure, ending_pure, List.append_nil, ← h]

@[simp] theorem pure_bind_run (value : α) (next : α → Run ε χ β) : pure value >>= next = next value := by
  have h : (pure value : Run ε χ α).ending = .ok value := rfl
  rw [bind_of_ok h, effects_pure, List.nil_append]

theorem bind_assoc_run {γ : Type} (t : Run ε χ α) (next : α → Run ε χ β) (last : β → Run ε χ γ) :
    t >>= next >>= last = t >>= fun value => next value >>= last := by
  cases h : t.ending with
  | error stop =>
    rw [bind_of_error h, bind_of_error h]
    rfl
  | ok value =>
    rw [bind_of_ok h, bind_of_ok h]
    cases h' : (next value).ending with
    | error stop =>
      rw [bind_of_error h']
      rfl
    | ok value' =>
      rw [bind_of_ok h']
      exact ext (List.append_assoc _ _ _) rfl

end Laws

/-- Perform several effects. -/
def performAll (es : List ε) : Run ε χ Unit := ⟨es, .ok ()⟩

theorem performAll_append_bind (es es' : List ε) (next : Unit → Run ε χ β) :
    performAll (es ++ es') >>= next = performAll es >>= fun _ => performAll es' >>= next :=
  ext (List.append_assoc _ _ _) rfl

@[simp] theorem performAll_nil_bind (next : Unit → Run ε χ β) :
    performAll [] >>= next = next () := rfl

/-- Every effect satisfies the property. -/
def All (p : ε → Prop) (t : Run ε χ α) : Prop := ∀ e ∈ t.effects, p e

section All

variable {p : ε → Prop}

theorem All.bind {t : Run ε χ α} {next : α → Run ε χ β} (h : t.All p)
    (hnext : ∀ value, (next value).All p) : (t >>= next).All p := by
  intro e he
  rcases mem_effects_bind.mp he with hfirst | ⟨value, _, hsecond⟩
  · exact h e hfirst
  · exact hnext value e hsecond

theorem All.perform {e : ε} (h : p e) : (perform e : Run ε χ Unit).All p := by
  intro e' he
  rw [List.mem_singleton.mp he]
  exact h

theorem All.silent {t : Run ε χ α} (h : t.effects = []) : t.All p := by
  intro e he
  rw [h] at he
  cases he

end All

@[simp] theorem effects_perform_bind (e : ε) (next : Unit → Run ε χ β) :
    (perform e >>= next).effects = e :: (next ()).effects := rfl

@[simp] theorem ending_perform_bind (e : ε) (next : Unit → Run ε χ β) :
    (perform e >>= next).ending = (next ()).ending := rfl

end Run

end Traced
