import Sower.Lib.Interleaving
import Sower.Server.Deployments

/-!
# What operations promise each other

The server's finalizers select deployments outside the lock under which they
rewrite them, and payloads are broadcast after the rows they describe were
committed. The contract of all operations says what survives between two steps:
recorded results stay unless one is recorded between a finalizer's selection
and its write, and the rows behind broadcast payloads keep their links.
-/

namespace Sower.Server

open Sower.Calendar Sower.Policy Sower.Wire Process Keyed Interleaving

section Log

/-- Result that the event recorded for the deployment. -/
def Event.recordedResult (id : ℕ) : Event → Option DeploymentResult
  | .updated id' attrs => if id' = id ∧ attrs.state = .completed then attrs.result else none
  | _ => none

/-- Deployment that a server-side finalizer rewrote. -/
def Event.finalized : Event → Option ℕ
  | .updated id attrs => if attrs.state = .stale ∨ attrs.state = .canceled then some id else none
  | _ => none

/-- The event selected the deployment. -/
def Event.selects (id : ℕ) : Event → Bool
  | .selected ids => id ∈ ids
  | _ => false

/-- A log with the latest entry first. -/
abbrev History := List (ℕ × Event)

/-- Result last recorded for the deployment. -/
def lastResult (id : ℕ) : History → Option DeploymentResult
  | [] => none
  | (_, e) :: earlier => (e.recordedResult id).or (lastResult id earlier)

/-- A result of the deployment was recorded after the process last selected it. -/
def crossed (i id : ℕ) : History → Bool
  | [] => false
  | (j, e) :: earlier =>
    if (e.recordedResult id).isSome then true
    else if j = i && e.selects id then false
    else crossed i id earlier

/-- No finalizer wrote a deployment for which a result had been recorded after
the finalizer selected it. -/
def NoCrossing : History → Bool
  | [] => true
  | (i, e) :: earlier => e.finalized.all (fun id => !crossed i id earlier) && NoCrossing earlier

/-- The process has selected the deployment. -/
def SelectedBy (i id : ℕ) (history : History) : Prop :=
  ∃ e, (i, e) ∈ history ∧ e.selects id = true

/-- Deployments are selected only before a result is recorded for them. -/
def CleanSelections : History → Prop
  | [] => True
  | (_, e) :: earlier => (∀ id, e.selects id = true → lastResult id earlier = none) ∧
      CleanSelections earlier

/-- Without a crossing nothing was recorded for a deployment the process has
selected. -/
theorem lastResult_of_not_crossed {i id : ℕ} {history : History}
    (hclean : CleanSelections history) (hselected : SelectedBy i id history)
    (hcrossed : crossed i id history = false) : lastResult id history = none := by
  induction history with
  | nil =>
    obtain ⟨_, hmem, _⟩ := hselected
    cases hmem
  | cons entry earlier ih =>
    obtain ⟨j, e⟩ := entry
    obtain ⟨hselects, hearlier⟩ := hclean
    unfold crossed at hcrossed
    split at hcrossed
    · cases hcrossed
    · rename_i hrecorded
      have hnone : e.recordedResult id = none := by simpa using hrecorded
      unfold lastResult
      rw [hnone, Option.none_or]
      split at hcrossed
      · rename_i hhere
        rw [Bool.and_eq_true] at hhere
        exact hselects id hhere.2
      · rename_i hnot
        refine ih hearlier ?_ hcrossed
        obtain ⟨e', hmem, hsel⟩ := hselected
        rcases List.mem_cons.mp hmem with heq | hold
        · cases heq
          simp [hsel] at hnot
        · exact ⟨e', hold, hsel⟩

end Log

section Links

/-- Rows are never deleted, and their links never change. -/
def KeepsLinks (db db' : Db) : Prop :=
  ∀ id row, db.deployments.find? id = some row →
    ∃ row', db'.deployments.find? id = some row' ∧ row'.seeds = row.seeds

theorem KeepsLinks.refl (db : Db) : KeepsLinks db db := fun _ row hrow => ⟨row, hrow, rfl⟩

theorem keepsLinks_setDeployment (db : Db) (id : ℕ) (attrs : Attrs) :
    KeepsLinks db (db.setDeployment id attrs) := by
  intro id' row hrow
  rw [find?_setDeployment, hrow]
  refine ⟨_, rfl, ?_⟩
  dsimp only
  split <;> rfl

/-- The row of the deployment links the given seeds. -/
def LinksSeeds (db : Db) (id : ℕ) (seeds : List ℕ) : Prop :=
  ∃ row, db.deployments.find? id = some row ∧ row.seeds = seeds

theorem LinksSeeds.keep {db db' : Db} {id : ℕ} {seeds : List ℕ} (h : LinksSeeds db id seeds)
    (hkeep : KeepsLinks db db') : LinksSeeds db' id seeds := by
  obtain ⟨row, hrow, hseeds⟩ := h
  obtain ⟨row', hrow', hseeds'⟩ := hkeep id row hrow
  exact ⟨row', hrow', hseeds'.trans hseeds⟩

/-- The payload of a deployment that was created to be broadcast. -/
def Event.announced : Event → Option Wire.Deployment
  | .dispatched _ payload => if payload.skipped then none else some payload
  | _ => none

/-- The row behind the payload links the payload's seeds. -/
def Backed (db : Db) (payload : Wire.Deployment) : Prop :=
  LinksSeeds db payload.sid (payload.seedDeployments.map fun entry => entry.seed.sid)

/-- The rows behind all payloads that were broadcast. -/
def AllBacked (w : World Db Event) : Prop :=
  ∀ i e payload, (i, e) ∈ w.log → e.announced = some payload → Backed w.store payload

end Links

section Contract

/-- The history of a world. -/
abbrev history (w : World Db Event) : History := w.log.reverse

theorem history_extend {i : ℕ} {w : World Db Event} {es : List Event} {db : Db} :
    history (w.extend i es db) = es.reverse.map (i, ·) ++ history w := by
  rw [history, World.extend, List.reverse_append, ← List.map_reverse]

/-- Every deployment still stores the result last recorded for it. -/
def KeepsResults (w : World Db Event) : Prop :=
  ∀ id result, lastResult id (history w) = some result →
    ∃ row, w.store.deployments.find? id = some row ∧ row.state = .completed ∧
      row.result = some result

/-- Completed rows keep their state and result. -/
def KeepsCompleted (db db' : Db) : Prop :=
  ∀ id row, db.deployments.find? id = some row → row.state = .completed →
    ∃ row', db'.deployments.find? id = some row' ∧ row'.state = .completed ∧
      row'.result = row.result

theorem KeepsCompleted.refl (db : Db) : KeepsCompleted db db :=
  fun _ row hrow hstate => ⟨row, hrow, hstate, rfl⟩

/-- The event records no result, finalizes nothing and selects only deployments
that are not completed. -/
def Event.Neutral (db : Db) (e : Event) : Prop :=
  (∀ id, e.recordedResult id = none) ∧ e.finalized = none ∧
    ∀ id, e.selects id = true → ∀ row, db.deployments.find? id = some row → row.state ≠ .completed

/-- What one step of process `i` does to the store, with the events it logs. -/
inductive Change (i : ℕ) (w : World Db Event) : List Event → Db → Prop
  /-- Completed rows stay, and at most one event is logged at a time. -/
  | quiet {es : List Event} {db' : Db} (kept : KeepsCompleted w.store db')
      (neutral : ∀ e ∈ es, e.Neutral w.store) : Change i w es db'
  /-- A garden's result is recorded. -/
  | recorded {id : ℕ} {attrs : Attrs} {result : DeploymentResult} {row : Deployment}
      (completed : attrs.state = .completed) (hasResult : attrs.result = some result)
      (found : w.store.deployments.find? id = some row) :
      Change i w [.updated id attrs] (w.store.setDeployment id attrs)
  /-- A deployment that the process has selected is finalized. -/
  | finalized {id : ℕ} {attrs : Attrs} (final : attrs.state = .stale ∨ attrs.state = .canceled)
      (selected : SelectedBy i id (history w)) :
      Change i w [.updated id attrs] (w.store.setDeployment id attrs)

/-- Events of a quiet step leave the recorded results as they are. -/
theorem lastResult_append_neutral {db : Db} {i id : ℕ} {es : List Event} {h : History}
    (hneutral : ∀ e ∈ es, e.Neutral db) :
    lastResult id (es.map (i, ·) ++ h) = lastResult id h := by
  refine append_unchanged fun e he earlier => ?_
  rw [lastResult, (hneutral e he).1 id, Option.none_or]

/-- They keep selections clean where only deployments without a recorded
result were selected. -/
theorem cleanSelections_append_neutral {db : Db} {i : ℕ} {es : List Event} {h : History}
    (hneutral : ∀ e ∈ es, e.Neutral db)
    (hfree : ∀ id, (∀ row, db.deployments.find? id = some row → row.state ≠ .completed) →
      lastResult id h = none)
    (hclean : CleanSelections h) : CleanSelections (es.map (i, ·) ++ h) := by
  induction es with
  | nil => exact hclean
  | cons e rest ih =>
    obtain ⟨he, hrest⟩ := List.forall_mem_cons.mp hneutral
    refine ⟨?_, ih hrest⟩
    intro id hselects
    exact (lastResult_append_neutral hrest).trans (hfree id (he.2.2 id hselects))

theorem noCrossing_append {late early : History} (h : NoCrossing (late ++ early) = true) :
    NoCrossing early = true := by
  refine of_append (fun entry earlier hall => ?_) h
  rw [NoCrossing, Bool.and_eq_true] at hall
  exact hall.2

/-- A change keeps the recorded results unless it crosses one. -/
theorem change_keeps {i : ℕ} {w : World Db Event} {es : List Event} {db' : Db}
    (hchange : Change i w es db')
    (hinv : KeepsResults w ∧ CleanSelections (history w))
    (hcross : NoCrossing (history (⟨db', w.log ++ es.map (i, ·)⟩ : World Db Event)) = true) :
    KeepsResults ⟨db', w.log ++ es.map (i, ·)⟩ ∧
      CleanSelections (history ⟨db', w.log ++ es.map (i, ·)⟩) := by
  obtain ⟨hkeeps, hclean⟩ := hinv
  have hfree : ∀ id, (∀ row, w.store.deployments.find? id = some row → row.state ≠ .completed) →
      lastResult id (history w) = none := by
    intro id hnot
    rcases hlast : lastResult id (history w) with _ | result
    · rfl
    · obtain ⟨row, hrow, hstate, _⟩ := hkeeps id result hlast
      exact absurd hstate (hnot row hrow)
  unfold KeepsResults
  simp only [history, List.reverse_append, ← List.map_reverse] at hcross ⊢
  cases hchange with
  | quiet kept neutral =>
    have neutral : ∀ e ∈ es.reverse, e.Neutral w.store :=
      fun e he => neutral e (List.mem_reverse.mp he)
    refine ⟨?_, cleanSelections_append_neutral neutral hfree hclean⟩
    intro id result hlast
    rw [lastResult_append_neutral neutral] at hlast
    obtain ⟨row, hrow, hstate, hresult⟩ := hkeeps id result hlast
    obtain ⟨row', hrow', hstate', hresult'⟩ := kept id row hrow hstate
    exact ⟨row', hrow', hstate', hresult'.trans hresult⟩
  | @recorded id attrs recordedResult row completed hasResult found =>
    refine ⟨?_, ⟨?_, hclean⟩⟩
    · intro id' result hlast
      by_cases hid : id = id'
      · subst hid
        refine ⟨row.apply attrs, find?_setDeployment_self found, completed, ?_⟩
        have hresult : recordedResult = result := by
          simpa [lastResult, Event.recordedResult, completed, hasResult] using hlast
        simp [Deployment.apply, hasResult, hresult]
      · have hold : lastResult id' (history w) = some result := by
          simpa [lastResult, Event.recordedResult, hid] using hlast
        obtain ⟨row', hrow', hstate, hresult⟩ := hkeeps id' result hold
        exact ⟨row', find?_setDeployment_of_ne hrow' (Ne.symm hid), hstate, hresult⟩
    · intro id' hselects
      cases hselects
  | @finalized id attrs final selected =>
    have hincomplete : attrs.state ≠ .completed := by
      rcases final with h | h <;> simp [h]
    have hnotcrossed : crossed i id (history w) = false := by
      have hhead := (Bool.and_eq_true _ _).mp hcross
      have hwrite : (Event.updated id attrs).finalized = some id := by
        simp [Event.finalized, final]
      simpa [hwrite] using hhead.1
    have hnone := lastResult_of_not_crossed hclean selected hnotcrossed
    refine ⟨?_, ⟨?_, hclean⟩⟩
    · intro id' result hlast
      have hold : lastResult id' (history w) = some result := by
        simpa [lastResult, Event.recordedResult, hincomplete] using hlast
      have hne : id' ≠ id := by
        rintro rfl
        rw [hnone] at hold
        cases hold
      obtain ⟨row', hrow', hstate, hresult⟩ := hkeeps id' result hold
      exact ⟨row', find?_setDeployment_of_ne hrow' hne, hstate, hresult⟩
    · intro id' hselects
      cases hselects

/-- Events after which the rows behind all announced payloads exist. -/
def Announces (db : Db) (es : List Event) : Prop :=
  ∀ e ∈ es, ∀ payload, e.announced = some payload → Backed db payload

/-- The contract of all operations. A process assumes of the others that nothing
is removed from the log and that rows keep their links. -/
def serverContract : Contract Db Event where
  inv w := (NoCrossing (history w) = true → KeepsResults w ∧ CleanSelections (history w)) ∧
    AllBacked w
  rely _ w w' := w.log <+: w'.log ∧ KeepsLinks w.store w'.store
  guar i w w' := ∃ es, Change i w es w'.store ∧ KeepsLinks w.store w'.store ∧
    Announces w'.store es ∧ w'.log = w.log ++ es.map (i, ·)
  keeps := by
    rintro i w ⟨db', log'⟩ ⟨hresults, hbacked⟩ ⟨es, hchange, hlinks, hannounces, hlog⟩
    dsimp only at hchange hlinks hannounces hlog
    subst hlog
    refine ⟨?_, ?_⟩
    · intro hcross
      refine change_keeps hchange (hresults ?_) hcross
      simp only [history, List.reverse_append] at hcross
      exact noCrossing_append hcross
    · intro j e payload hmem hannounced
      rcases List.mem_append.mp hmem with hold | hnew
      · exact (hbacked j e payload hold hannounced).keep hlinks
      · obtain ⟨e', he', heq⟩ := List.mem_map.mp hnew
        cases heq
        exact hannounces e he' payload hannounced
  compatible := by
    rintro i j w w' _ ⟨es, _, hlinks, _, hlog⟩
    rw [hlog]
    exact ⟨List.prefix_append _ _, hlinks⟩

/-- A step that leaves completed rows and all links as they are. -/
structure Quiet (db db' : Db) (es : List Event) : Prop where
  completed : KeepsCompleted db db'
  links : KeepsLinks db db'
  events : ∀ e ∈ es, e.Neutral db ∧ e.announced = none

/-- A step that does not touch the deployments. -/
theorem Quiet.of_deployments {db db' : Db} {es : List Event}
    (h : db'.deployments = db.deployments)
    (hevents : ∀ e ∈ es, e.Neutral db ∧ e.announced = none) : Quiet db db' es := by
  refine ⟨?_, ?_, hevents⟩
  · intro id row hrow hstate
    exact ⟨row, h ▸ hrow, hstate, rfl⟩
  · intro id row hrow
    exact ⟨row, h ▸ hrow, rfl⟩

/-- Events that are neither of interest to the recorded results nor announce a
new deployment. -/
theorem Event.silent {db : Db} {e : Event} (hrecorded : ∀ id, e.recordedResult id = none)
    (hfinalized : e.finalized = none) (hselects : ∀ id, e.selects id = false)
    (hannounced : e.announced = none) : e.Neutral db ∧ e.announced = none :=
  ⟨⟨hrecorded, hfinalized, fun id h => by simp [hselects id] at h⟩, hannounced⟩

end Contract

end Sower.Server
