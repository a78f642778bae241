import Mathlib.Data.List.Basic

/-!
# Servers that keep their state in a store

A server handles one message after the other. While it does, it has effects on
the outside, and some of them put its state into a store that outlives it. A
server that dies in the middle of a turn has had only the first effects of that
turn; the next one boots from the state that was stored last.
-/

namespace Durable

variable {σ ε ι κ : Type}

section Turns

/-- What one message does: the state afterwards, and the effects in order. -/
structure Turn (σ ε : Type) where
  state : σ
  effects : List ε

/-- Nothing but effects. -/
def Turn.emit (effects : List ε) (s : σ) : Turn σ ε := ⟨s, effects⟩

/-- Go on from the state in which a part of a turn ends. -/
def Turn.andThen (t : Turn σ ε) (f : σ → Turn σ ε) : Turn σ ε :=
  ⟨(f t.state).state, t.effects ++ (f t.state).effects⟩

@[simp] theorem Turn.emit_state (effects : List ε) (s : σ) : (Turn.emit effects s).state = s := rfl

@[simp] theorem Turn.emit_effects (effects : List ε) (s : σ) :
    (Turn.emit effects s).effects = effects := rfl

@[simp] theorem Turn.andThen_state (t : Turn σ ε) (f : σ → Turn σ ε) :
    (t.andThen f).state = (f t.state).state := rfl

@[simp] theorem Turn.andThen_effects (t : Turn σ ε) (f : σ → Turn σ ε) :
    (t.andThen f).effects = t.effects ++ (f t.state).effects := rfl

variable (stored : ε → Option σ) {P Q : σ → Prop} {t : Turn σ ε} {f : σ → Turn σ ε}

/-- The property holds of the state afterwards and of every state that is stored on the way. -/
structure Turn.Keeps (P : σ → Prop) (t : Turn σ ε) : Prop where
  state : P t.state
  stored : ∀ e ∈ t.effects, ∀ s, stored e = some s → P s

variable {stored}

/-- Effects that store nothing keep everything. -/
theorem keeps_silent {effects : List ε} {s : σ} (hs : P s)
    (hsilent : ∀ e ∈ effects, stored e = none) : (Turn.emit effects s).Keeps stored P := by
  refine ⟨hs, fun e he s' hstored => ?_⟩
  rw [hsilent e he] at hstored
  cases hstored

theorem Turn.Keeps.andThen (ht : t.Keeps stored P) (hf : ∀ s, P s → (f s).Keeps stored P) :
    (t.andThen f).Keeps stored P := by
  refine ⟨(hf _ ht.state).state, fun e he s hs => ?_⟩
  rcases List.mem_append.mp he with he | he
  · exact ht.stored e he s hs
  · exact (hf _ ht.state).stored e he s hs

theorem Turn.Keeps.mono (ht : t.Keeps stored P) (hPQ : ∀ s, P s → Q s) : t.Keeps stored Q :=
  ⟨hPQ _ ht.state, fun e he s hs => hPQ s (ht.stored e he s hs)⟩

theorem Turn.Keeps.and (h : t.Keeps stored P) (h' : t.Keeps stored Q) :
    t.Keeps stored fun s => P s ∧ Q s :=
  ⟨⟨h.state, h'.state⟩, fun e he s hs => ⟨h.stored e he s hs, h'.stored e he s hs⟩⟩

/-- Two parts of a turn, of which the second has a property of its own. -/
theorem Turn.Keeps.followed {R : σ → Prop} (ht : t.Keeps stored P)
    (hf : ∀ s, P s → (f s).Keeps stored Q) (hP : ∀ s, P s → R s) (hQ : ∀ s, Q s → R s) :
    (t.andThen f).Keeps stored R := by
  refine ⟨hQ _ (hf _ ht.state).state, fun e he s hs => ?_⟩
  rcases List.mem_append.mp he with he | he
  · exact hP s (ht.stored e he s hs)
  · exact hQ s ((hf _ ht.state).stored e he s hs)

variable (stored)

/-- The state that is in the store after some effects. -/
def latest (saved : Option σ) (effects : List ε) : Option σ :=
  effects.foldl (fun saved e => (stored e).or saved) saved

variable {stored}

theorem latest_append (saved : Option σ) (es es' : List ε) :
    latest stored saved (es ++ es') = latest stored (latest stored saved es) es' :=
  List.foldl_append

theorem latest_silent {saved : Option σ} {effects : List ε}
    (h : ∀ e ∈ effects, stored e = none) : latest stored saved effects = saved := by
  induction effects with
  | nil => rfl
  | cons e rest ih =>
    change latest stored ((stored e).or saved) rest = saved
    rw [h e List.mem_cons_self]
    exact ih fun e' he' => h e' (List.mem_cons_of_mem e he')

/-- What is in the store was there before or has been stored since. -/
theorem latest_cases {saved : Option σ} {effects : List ε} {s : σ}
    (h : latest stored saved effects = some s) :
    saved = some s ∨ ∃ e ∈ effects, stored e = some s := by
  induction effects generalizing saved with
  | nil => exact Or.inl h
  | cons e rest ih =>
    rcases ih h with hfirst | ⟨e', he', hs⟩
    · rcases Option.or_eq_some_iff.mp hfirst with hstored | ⟨-, hsaved⟩
      · exact Or.inr ⟨e, List.mem_cons_self, hstored⟩
      · exact Or.inl hsaved
    · exact Or.inr ⟨e', List.mem_cons_of_mem e he', hs⟩

/-- A turn after which the store holds the state of the server. -/
def Turn.Saves (stored : ε → Option σ) (t : Turn σ ε) : Prop :=
  ∀ saved, latest stored saved t.effects = some t.state

theorem Turn.Saves.andThen {f : σ → Turn σ ε} (hf : (f t.state).Saves stored) :
    (t.andThen f).Saves stored := by
  intro saved
  rw [Turn.andThen_effects, latest_append]
  exact hf _

end Turns

section Servers

/-- A server: how it boots from what is in the store, and what a message does. A server may
refuse to boot. -/
structure Server (σ ε ι κ : Type) where
  /-- The state that an effect puts into the store. -/
  stored : ε → Option σ
  boot : κ → Option σ → Option (Turn σ ε)
  handle : ι → σ → Turn σ ε

/-- A store with the server that uses it, if one is up, and all effects so far: those of
the earlier servers, and those of the latest. -/
structure World (σ ε : Type) where
  saved : Option σ
  memory : Option σ
  past : List ε
  session : List ε

/-- Nothing has been stored yet. -/
def World.initial : World σ ε := ⟨none, none, [], []⟩

variable (srv : Server σ ε ι κ)

/-- The world after a turn of the latest server. -/
def World.after (w : World σ ε) (t : Turn σ ε) : World σ ε :=
  ⟨latest srv.stored w.saved t.effects, some t.state, w.past, w.session ++ t.effects⟩

/-- A turn of two parts is one after the other. -/
theorem World.after_andThen (w : World σ ε) (t : Turn σ ε) (f : σ → Turn σ ε) :
    w.after srv (t.andThen f) = (w.after srv t).after srv (f t.state) := by
  unfold World.after
  rw [Turn.andThen_effects, latest_append, ← List.append_assoc]
  rfl

/-- The world when the server has died after some effects of a turn. -/
def World.crashed (w : World σ ε) (t : Turn σ ε) (n : ℕ) : World σ ε :=
  ⟨latest srv.stored w.saved (t.effects.take n), none, w.past, w.session ++ t.effects.take n⟩

/-- The world as a new server finds it. -/
def World.reopened (w : World σ ε) : World σ ε := ⟨w.saved, none, w.past ++ w.session, []⟩

variable (allowed : κ → Prop) (possible : World σ ε → ι → Prop)

/-- One event. -/
inductive Step : World σ ε → World σ ε → Prop
  | boot {w : World σ ε} {k : κ} {t : Turn σ ε} (down : w.memory = none) (hk : allowed k)
      (hboot : srv.boot k w.saved = some t) : Step w (w.reopened.after srv t)
  | bootCrash {w : World σ ε} {k : κ} {t : Turn σ ε} (n : ℕ) (down : w.memory = none)
      (hk : allowed k) (hboot : srv.boot k w.saved = some t) :
      Step w (w.reopened.crashed srv t n)
  | handle {w : World σ ε} {i : ι} {s : σ} (up : w.memory = some s) (hi : possible w i) :
      Step w (w.after srv (srv.handle i s))
  | crash {w : World σ ε} {i : ι} {s : σ} (n : ℕ) (up : w.memory = some s) (hi : possible w i) :
      Step w (w.crashed srv (srv.handle i s) n)

/-- Worlds that some run leads to. -/
inductive Reachable (w₀ : World σ ε) : World σ ε → Prop
  | refl : Reachable w₀ w₀
  | step {w w' : World σ ε} (before : Reachable w₀ w) (h : Step srv allowed possible w w') :
      Reachable w₀ w'

variable {srv allowed possible} {stored : ε → Option σ} {P : σ → Prop} {w w' : World σ ε}

theorem Reachable.trans {w'' : World σ ε} (h : Reachable srv allowed possible w w')
    (h' : Reachable srv allowed possible w' w'') : Reachable srv allowed possible w w'' := by
  induction h' with
  | refl => exact h
  | step _ hstep ih => exact ih.step hstep

/-- The state in the store and the state of the server have the property. -/
def World.Has (P : σ → Prop) (w : World σ ε) : Prop :=
  ∀ s, w.saved = some s ∨ w.memory = some s → P s

theorem has_after {t : Turn σ ε} (hsaved : ∀ s, w.saved = some s → P s)
    (ht : t.Keeps srv.stored P) : (w.after srv t).Has P := by
  rintro s (hs | hs)
  · rcases latest_cases hs with hs | ⟨e, he, hs⟩
    · exact hsaved s hs
    · exact ht.stored e he s hs
  · cases hs
    exact ht.state

theorem has_crashed {t : Turn σ ε} (n : ℕ) (hsaved : ∀ s, w.saved = some s → P s)
    (ht : t.Keeps srv.stored P) : (w.crashed srv t n).Has P := by
  rintro s (hs | hs)
  · rcases latest_cases hs with hs | ⟨e, he, hs⟩
    · exact hsaved s hs
    · exact ht.stored e (List.mem_of_mem_take he) s hs
  · cases hs

/-- What has been stored is replaced and never removed. -/
theorem latest_isSome {saved : Option σ} (effects : List ε) (h : saved.isSome) :
    (latest stored saved effects).isSome := by
  induction effects generalizing saved with
  | nil => exact h
  | cons e rest ih =>
    refine ih (Option.isSome_or.trans ?_)
    rw [h, Bool.or_true]

theorem Reachable.isSome (h : Reachable srv allowed possible w w') (hw : w.saved.isSome) :
    w'.saved.isSome := by
  induction h with
  | refl => exact hw
  | step _ hstep ih => cases hstep <;> exact latest_isSome _ ih

/-- A property that every turn keeps holds throughout every run. -/
theorem Reachable.has (h : Reachable srv allowed possible w w') (hw : w.Has P)
    (hboot : ∀ {k saved t}, allowed k → (w.saved.isSome → saved.isSome) →
      (∀ s, saved = some s → P s) → srv.boot k saved = some t → t.Keeps srv.stored P)
    (hhandle : ∀ i s, P s → (srv.handle i s).Keeps srv.stored P) : w'.Has P := by
  induction h with
  | refl => exact hw
  | step hbefore hstep ih =>
    cases hstep with
    | boot down hk ht =>
      have hsaved := fun s hs => ih s (Or.inl hs)
      exact has_after hsaved (hboot hk hbefore.isSome hsaved ht)
    | bootCrash n down hk ht =>
      have hsaved := fun s hs => ih s (Or.inl hs)
      exact has_crashed n hsaved (hboot hk hbefore.isSome hsaved ht)
    | handle up hi =>
      exact has_after (fun s hs => ih s (Or.inl hs)) (hhandle _ _ (ih _ (Or.inr up)))
    | crash n up hi =>
      exact has_crashed n (fun s hs => ih s (Or.inl hs)) (hhandle _ _ (ih _ (Or.inr up)))

/-- What holds of every server that is up, given what holds of every state. -/
theorem Reachable.serves {Q : σ → Prop} (h : Reachable srv allowed possible w w')
    (hP : ∀ {v}, Reachable srv allowed possible w v → v.Has P)
    (hw : ∀ s, w.memory = some s → Q s)
    (hboot : ∀ {k saved t}, allowed k → (∀ s, saved = some s → P s) →
      srv.boot k saved = some t → Q t.state)
    (hhandle : ∀ i s, P s → Q s → Q (srv.handle i s).state) :
    ∀ s, w'.memory = some s → Q s := by
  induction h with
  | refl => exact hw
  | step hbefore hstep ih =>
    intro s hs
    cases hstep with
    | boot down hk ht =>
      cases hs
      exact hboot hk (fun s hs => hP hbefore s (Or.inl hs)) ht
    | bootCrash n down hk ht => cases hs
    | handle up hi =>
      cases hs
      exact hhandle _ _ (hP hbefore _ (Or.inr up)) (ih _ up)
    | crash n up hi => cases hs

theorem has_initial : (World.initial : World σ ε).Has P := by
  rintro s (hs | hs) <;> cases hs

/-- As long as a server is up, the store holds its state. -/
def World.Synchronous (w : World σ ε) : Prop := ∀ s, w.memory = some s → w.saved = some s

theorem Reachable.synchronous (h : Reachable srv allowed possible w w') (hw : w.Synchronous)
    (hboot : ∀ {k saved t}, srv.boot k saved = some t → t.Saves srv.stored)
    (hhandle : ∀ i s, (srv.handle i s).state = s ∧
      (∀ e ∈ (srv.handle i s).effects, srv.stored e = none) ∨
      (srv.handle i s).Saves srv.stored) : w'.Synchronous := by
  induction h with
  | refl => exact hw
  | step _ hstep ih =>
    cases hstep with
    | boot down hk ht =>
      intro s hs
      cases hs
      exact hboot ht _
    | bootCrash n down hk ht =>
      intro s hs
      cases hs
    | @handle i s up hi =>
      intro s' hs'
      cases hs'
      rcases hhandle i s with ⟨hsame, hsilent⟩ | hsaves
      · change latest srv.stored _ (srv.handle i s).effects = some (srv.handle i s).state
        rw [latest_silent hsilent, hsame]
        exact ih s up
      · exact hsaves _
    | crash n up hi =>
      intro s hs
      cases hs

end Servers

section Schedules

variable (srv : Server σ ε ι κ) {allowed : κ → Prop} {possible : World σ ε → ι → Prop}

/-- The world after a boot, if the server does not refuse it. -/
def World.booted (w : World σ ε) (k : κ) : World σ ε :=
  match srv.boot k w.saved with
  | some t => w.reopened.after srv t
  | none => w

/-- The world after a message, if a server is up. -/
def World.handled (w : World σ ε) (i : ι) : World σ ε :=
  match w.memory with
  | some s => w.after srv (srv.handle i s)
  | none => w

/-- The world when the server has died after some effects of a turn. -/
def World.killed (w : World σ ε) (i : ι) (n : ℕ) : World σ ε :=
  match w.memory with
  | some s => w.crashed srv (srv.handle i s) n
  | none => w

variable {srv} {w₀ w : World σ ε}

theorem Reachable.booted (h : Reachable srv allowed possible w₀ w) (down : w.memory = none) {k : κ}
    (hk : allowed k) : Reachable srv allowed possible w₀ (w.booted srv k) := by
  unfold World.booted
  split
  · rename_i t hboot
    exact h.step (.boot down hk hboot)
  · exact h

theorem Reachable.handled (h : Reachable srv allowed possible w₀ w) {i : ι} (hi : possible w i) :
    Reachable srv allowed possible w₀ (w.handled srv i) := by
  unfold World.handled
  split
  · rename_i s up
    exact h.step (.handle up hi)
  · exact h

theorem Reachable.killed (h : Reachable srv allowed possible w₀ w) {i : ι} (n : ℕ)
    (hi : possible w i) : Reachable srv allowed possible w₀ (w.killed srv i n) := by
  unfold World.killed
  split
  · rename_i s up
    exact h.step (.crash n up hi)
  · exact h

end Schedules

end Durable
