import Sower.Lib.Histories

/-!
# Triples for traced computations

A triple says where a traced computation leads from what has happened so far and a value:
to a further value, or to a stop. What is asserted of the history may depend on the value.
Triples compose along sequential composition.
-/

namespace Traced

variable {ε χ α β γ : Type}

/-- After this history a computation ends with a value of which `Q` holds, or stops after a
history of which `E` holds. -/
structure Meets (history : List ε) (run : Run ε χ β) (Q : List ε → β → Prop) (E : List ε → Prop) :
    Prop where
  ends : ∀ result, run.ending = .ok result → Q (history ++ run.effects) result
  stops : ∀ stop, run.ending = .error stop → E (history ++ run.effects)

/-- From every history and value of which `P` holds, the computation meets `Q` and `E`. -/
def Leads (P : List ε → α → Prop) (m : α → Run ε χ β) (Q : List ε → β → Prop)
    (E : List ε → Prop) : Prop :=
  ∀ history value, P history value → Meets history (m value) Q E

section Rules

variable {P P' : List ε → α → Prop} {Q Q' : List ε → β → Prop} {R : List ε → γ → Prop}
  {E : List ε → Prop} {m : α → Run ε χ β} {next : β → Run ε χ γ} {history es : List ε}

theorem meets_ok {result : β} (h : Q (history ++ es) result) :
    Meets history (⟨es, .ok result⟩ : Run ε χ β) Q E where
  ends := by
    intro result' hresult
    cases hresult
    exact h
  stops := by
    intro stop hstop
    cases hstop

theorem meets_error {stop : χ} (h : E (history ++ es)) :
    Meets history (⟨es, .error stop⟩ : Run ε χ β) Q E where
  ends := by
    intro result hresult
    cases hresult
  stops := by
    intro stop' _
    exact h

theorem Leads.pure : Leads P (fun value => (Pure.pure value : Run ε χ α)) P E := by
  intro history value h
  refine meets_ok ?_
  rw [List.append_nil]
  exact h

theorem Leads.bind (hfirst : Leads P m Q E) (hnext : Leads Q next R E) :
    Leads P (fun value => m value >>= next) R E := by
  intro history value h
  have hmeets := hfirst history value h
  change Meets history (m value >>= next) R E
  cases hending : (m value).ending with
  | error stop =>
    rw [Run.bind_of_error hending]
    exact meets_error (hmeets.stops stop hending)
  | ok result =>
    have hrest := hnext _ result (hmeets.ends result hending)
    rw [Run.bind_of_ok hending]
    constructor
    · simp only [← List.append_assoc]
      exact hrest.ends
    · simp only [← List.append_assoc]
      exact hrest.stops

theorem Leads.weaken (h : Leads P m Q E) (hP : ∀ history value, P' history value → P history value)
    (hQ : ∀ history result, Q history result → Q' history result) : Leads P' m Q' E := by
  intro history value hgiven
  have hmeets := h history value (hP history value hgiven)
  constructor
  · intro result hresult
    exact hQ _ _ (hmeets.ends result hresult)
  · exact hmeets.stops

end Rules

end Traced
