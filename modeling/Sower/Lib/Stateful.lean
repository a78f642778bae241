import Mathlib.Order.Basic

/-!
# Programs that ask their environment

A program transforms a state, asks its environment for answers (what a system
call returned, say) and ends with a value or stops with a reason. What it has done
to the state before it stops stays done. The answers are given as a list; where
it is used up the program stops with a reason of its own, so that what holds at
the end for every list of answers holds after every part of a run. Loops take an
amount of turns, for the same use.

A triple says what holds after each of the two endings, whatever the answers.
-/

namespace Stateful

variable {θ σ χ α β ε : Type}

/-- A program over a state, with the answers that are left. -/
abbrev Program (θ σ χ α : Type) := ExceptT χ (StateM (List θ × σ)) α

/-- Ending, answers that are left and final state. -/
def Program.exec (m : Program θ σ χ α) (s : List θ × σ) : Except χ α × List θ × σ := m.run.run s

/-- Go on with the next answer. -/
def ask (expired : χ) (f : θ → σ → Except χ α × σ) : Program θ σ χ α :=
  ExceptT.mk fun s =>
    match s.1 with
    | [] => (.error expired, s)
    | answer :: answers =>
      let outcome := f answer s.2
      (outcome.1, answers, outcome.2)

/-- Change the state. -/
def update (f : σ → σ) : Program θ σ χ PUnit := ExceptT.mk fun s => (.ok ⟨⟩, s.1, f s.2)

/-- Read the state. -/
def view : Program θ σ χ σ := ExceptT.mk fun s => (.ok s.2, s)

/-- A stop for a reason of which something is caught becomes a value. -/
def caught (catches : χ → Option ε) :
    Except χ α × List θ × σ → Except χ (Except ε α) × List θ × σ
  | (.ok value, s) => (.ok (.ok value), s)
  | (.error reason, s) =>
    match catches reason with
    | some error => (.ok (.error error), s)
    | none => (.error reason, s)

/-- Go on behind a stop for some of the reasons. -/
def attempt (catches : χ → Option ε) (m : Program θ σ χ α) : Program θ σ χ (Except ε α) :=
  ExceptT.mk fun s => caught catches (m.exec s)

/-- The second part runs on the state that the first one leaves, if that has a value. -/
theorem exec_bind (m : Program θ σ χ α) (k : α → Program θ σ χ β) (s : List θ × σ) :
    (m >>= k).exec s =
      match m.exec s with
      | (.ok value, s') => (k value).exec s'
      | (.error reason, s') => (.error reason, s') := by
  unfold Program.exec
  rw [ExceptT.run_bind, StateT.run_bind]
  generalize m.run.run s = ending
  obtain ⟨outcome, s'⟩ := ending
  cases outcome with
  | ok value => rfl
  | error reason => rfl

/-- What holds at an ending. -/
def Outcome (post : α → σ → Prop) (stop : χ → σ → Prop) : Except χ α → σ → Prop
  | .ok value, s => post value s
  | .error reason, s => stop reason s

/-- From a state of the precondition the program ends with a value and a state of the
postcondition, or stops in a state that is allowed for its reason. -/
def Triple (pre : σ → Prop) (m : Program θ σ χ α) (post : α → σ → Prop) (stop : χ → σ → Prop) :
    Prop :=
  ∀ answers s, pre s → Outcome post stop (m.exec (answers, s)).1 (m.exec (answers, s)).2.2

namespace Triple

variable {pre pre' : σ → Prop} {m : Program θ σ χ α} {post post' : α → σ → Prop}
  {stop stop' : χ → σ → Prop}

theorem pure {value : α} (h : ∀ s, pre s → post value s) :
    Triple (θ := θ) pre (pure value) post stop := by
  intro answers s hs
  exact h s hs

theorem throw {reason : χ} (h : ∀ s, pre s → stop reason s) :
    Triple pre (throw reason : Program θ σ χ α) post stop := by
  intro answers s hs
  exact h s hs

theorem ask {expired : χ} {f : θ → σ → Except χ α × σ}
    (hexpired : ∀ s, pre s → stop expired s)
    (h : ∀ answer s, pre s → Outcome post stop (f answer s).1 (f answer s).2) :
    Triple pre (ask expired f) post stop := by
  intro answers s hs
  cases answers with
  | nil => exact hexpired s hs
  | cons answer answers => exact h answer s hs

theorem update {f : σ → σ} {post : PUnit → σ → Prop} (h : ∀ s, pre s → post ⟨⟩ (f s)) :
    Triple (θ := θ) pre (update f) post stop := by
  intro answers s hs
  exact h s hs

/-- A change that keeps the condition. -/
theorem update_keep {f : σ → σ} (h : ∀ s, pre s → pre (f s)) :
    Triple (θ := θ) pre (Stateful.update f) (fun _ => pre) stop :=
  Triple.update h

theorem bind {mid : α → σ → Prop} {k : α → Program θ σ χ β} {post : β → σ → Prop}
    (hm : Triple pre m mid stop) (hk : ∀ value, Triple (mid value) (k value) post stop) :
    Triple pre (m >>= k) post stop := by
  intro answers s hs
  have hfirst := hm answers s hs
  rw [exec_bind]
  revert hfirst
  generalize m.exec (answers, s) = ending
  obtain ⟨outcome, answers', s'⟩ := ending
  cases outcome with
  | ok value =>
    intro hmid
    exact hk value answers' s' hmid
  | error reason =>
    intro hstop
    exact hstop

/-- The next part needs nothing of the value. -/
theorem seq {mid : σ → Prop} {k : α → Program θ σ χ β} {post : β → σ → Prop}
    (hm : Triple pre m (fun _ => mid) stop) (hk : ∀ value, Triple mid (k value) post stop) :
    Triple pre (m >>= k) post stop :=
  hm.bind hk

/-- What follows a reading of the state may be different for every state. -/
theorem view_bind {k : σ → Program θ σ χ β} {post : β → σ → Prop}
    (hk : ∀ s, pre s → Triple (· = s) (k s) post stop) : Triple pre (view >>= k) post stop := by
  intro answers s hs
  rw [exec_bind]
  exact hk s hs answers s rfl

/-- What is caught of a stop leaves the state as the stop did. -/
theorem attempt {catches : χ → Option ε} {mid : Except ε α → σ → Prop}
    (h : Triple pre m (fun value => mid (.ok value)) stop)
    (hcaught : ∀ reason error, catches reason = some error → ∀ s, stop reason s →
      mid (.error error) s)
    (hstop : ∀ reason, catches reason = none → ∀ s, stop reason s → stop' reason s) :
    Triple pre (attempt catches m) mid stop' := by
  intro answers s hs
  have hend := h answers s hs
  change Outcome mid stop' (caught catches (m.exec (answers, s))).1
    (caught catches (m.exec (answers, s))).2.2
  revert hend
  generalize m.exec (answers, s) = ending
  obtain ⟨outcome, answers', s'⟩ := ending
  cases outcome with
  | ok value =>
    intro hvalue
    exact hvalue
  | error reason =>
    intro hreason
    cases hcatches : catches reason with
    | some error => simpa only [Outcome, caught, hcatches] using hcaught reason error hcatches s' hreason
    | none => simpa only [Outcome, caught, hcatches] using hstop reason hcatches s' hreason

theorem consequence (h : Triple pre m post stop) (hpre : ∀ s, pre' s → pre s)
    (hpost : ∀ value s, post value s → post' value s)
    (hstop : ∀ reason s, stop reason s → stop' reason s) : Triple pre' m post' stop' := by
  intro answers s hs
  have hend := h answers s (hpre s hs)
  revert hend
  generalize m.exec (answers, s) = ending
  obtain ⟨outcome, answers', s'⟩ := ending
  cases outcome with
  | ok value => exact hpost value s'
  | error reason => exact hstop reason s'

theorem strengthen (h : Triple pre m post stop) (hpre : ∀ s, pre' s → pre s) :
    Triple pre' m post stop :=
  h.consequence hpre (fun _ _ hs => hs) fun _ _ hs => hs

theorem weaken (h : Triple pre m post stop) (hpost : ∀ value s, post value s → post' value s) :
    Triple pre m post' stop :=
  h.consequence (fun _ hs => hs) hpost fun _ _ hs => hs

/-- From a state that is known. -/
theorem at_state {s : σ} (h : Triple pre m post stop) (hs : pre s) :
    Triple (· = s) m post stop := by
  refine h.strengthen ?_
  intro s' heq
  rw [heq]
  exact hs

/-- A condition that was read from the state. -/
theorem ite {c : Prop} [Decidable c] {m' : Program θ σ χ α} (hthen : c → Triple pre m post stop)
    (helse : ¬c → Triple pre m' post stop) : Triple pre (if c then m else m') post stop := by
  by_cases hc : c
  · rw [if_pos hc]
    exact hthen hc
  · rw [if_neg hc]
    exact helse hc

end Triple

section Loops

/-- Repeat the body until it has a value, for a number of turns at most. -/
def repeatFor (expired : χ) (body : Program θ σ χ (Option α)) : ℕ → Program θ σ χ α
  | 0 => throw expired
  | n + 1 => do
    match ← body with
    | some value => return value
    | none => repeatFor expired body n

/-- After a turn the loop has its value, or the invariant holds again. -/
def Turn (inv : σ → Prop) (post : α → σ → Prop) : Option α → σ → Prop
  | some value, s => post value s
  | none, s => inv s

/-- An invariant that the body keeps until it has a value. -/
theorem Triple.repeatFor {expired : χ} {body : Program θ σ χ (Option α)} {inv : σ → Prop}
    {post : α → σ → Prop} {stop : χ → σ → Prop} (hbody : Triple inv body (Turn inv post) stop)
    (hexpired : ∀ s, inv s → stop expired s) (n : ℕ) :
    Triple inv (repeatFor expired body n) post stop := by
  induction n with
  | zero => exact Triple.throw hexpired
  | succ n ih =>
    refine Triple.bind hbody fun outcome => ?_
    cases outcome with
    | some value => exact Triple.pure fun _ hs => hs
    | none => exact ih

end Loops

end Stateful
