import Sower.Server.Contract
import Sower.Server.Rules

/-!
# Every operation keeps the contract

Most steps of the operations leave completed deployments and all links as they
are, and the contract ignores them. What remains are the selections, which add
what they selected, the updates, and the insertions, which add the links of the
new row.
-/

namespace Sower.Server

open Sower.Calendar Sower.Policy Sower.Wire Process Keyed Interleaving Contract

section Quiet

theorem keepsCompleted_insert (db : Db) (new : NewDeployment) :
    KeepsCompleted db (db.insertDeployment new) :=
  fun _ row hrow hstate => ⟨row, find?_insertDeployment hrow, hstate, rfl⟩

theorem keepsLinks_insert (db : Db) (new : NewDeployment) : KeepsLinks db (db.insertDeployment new) :=
  fun _ row hrow => ⟨row, find?_insertDeployment hrow, rfl⟩

/-- Marking deployments as dispatched passes over finished ones. -/
theorem quiet_mark (db : Db) (ids : List ℕ) (dispatchedAt : DateTime) :
    Quiet db (db.markDispatched ids dispatchedAt) [.marked ids (db.unresolvedAmong ids)] := by
  refine ⟨?_, ?_, ?_⟩
  rotate_left 2
  · intro e he
    rw [List.mem_singleton.mp he]
    exact Event.silent (fun _ => rfl) rfl (fun _ => rfl) rfl
  · intro id row hrow hstate
    refine ⟨row, ?_, hstate, rfl⟩
    rw [find?_markDispatched, hrow]
    simp [hstate, State.terminal]
  · intro id row hrow
    rw [find?_markDispatched, hrow]
    refine ⟨_, rfl, ?_⟩
    dsimp only
    split <;> rfl

theorem quiet_retry (db : Db) (loaded : Loaded) (ordinal : ℕ) (now : DateTime) (actor : Sid) :
    Quiet db (db.tick.insertRetry loaded ordinal now actor).1.1
      (db.tick.insertRetry loaded ordinal now actor).1.2 := by
  unfold Db.insertRetry
  split
  · refine ⟨keepsCompleted_insert db.tick _, keepsLinks_insert db.tick _, ?_⟩
    simp [Event.Neutral, Event.recordedResult, Event.finalized, Event.selects, Event.announced]
  · exact .of_deployments rfl (by simp)

/-- Kinds of steps that leave completed deployments and all links as they are. -/
def quietKinds : Set Kind := {.marks, .checks, .retries, .looks, .replays}

theorem quiet_of_effect {db db' : Db} {es : List Event} (h : Effect quietKinds db es db') :
    Quiet db db' es := by
  -- A step that logs one event and leaves the store as it is.
  have hsilent {e : Event} (he : e.Neutral db ∧ e.announced = none) : Quiet db db [e] :=
    .of_deployments rfl (by simpa using he)
  cases h with
  | idle deployments locks plain =>
    refine .of_deployments deployments fun e he => ?_
    have hplain := plain e he
    cases e with
    | audit => exact Event.silent (fun _ => rfl) rfl (fun _ => rfl) rfl
    | failed => exact Event.silent (fun _ => rfl) rfl (fun _ => rfl) rfl
    | _ => cases hplain
  | marked kind ids dispatchedAt => exact quiet_mark db ids dispatchedAt
  | checked => exact hsilent (Event.silent (fun _ => rfl) rfl (fun _ => rfl) rfl)
  | retried => exact quiet_retry db _ _ _ _
  | looked => exact hsilent (Event.silent (fun _ => rfl) rfl (fun _ => rfl) rfl)
  | replayed => exact hsilent (Event.silent (fun _ => rfl) rfl (fun _ => rfl) rfl)
  | _ => simp [quietKinds] at *

/-- A quiet step announces nothing. -/
theorem Quiet.announces {db db' : Db} {es : List Event} (h : Quiet db db' es) :
    Announces db' es := by
  intro e he payload hannounced
  rw [(h.events e he).2] at hannounced
  cases hannounced

/-- A process may take quiet steps. -/
theorem Quiet.guaranteed {i : ℕ} {w : World Db Event} {db' : Db} {es : List Event}
    (h : Quiet w.store db' es) : serverContract.guar i w (w.extend i es db') :=
  ⟨es, .quiet h.completed fun e he => (h.events e he).1, h.links, h.announces, rfl⟩

/-- The contract ignores quiet steps. -/
theorem ignores_quiet : Ignores serverContract quietKinds := by
  refine ignores_of_effects fun i w es db' _ heffect => ?_
  have hquiet := quiet_of_effect heffect
  exact ⟨hquiet.guaranteed, List.prefix_append _ _, hquiet.links⟩

theorem ignores_idle : Ignores serverContract ∅ := ignores_quiet.mono (Set.empty_subset _)

end Quiet

section Steps

variable {α : Type}

/-- What other processes must tolerate, a process tolerates of itself. -/
theorem stable_advance {i : ℕ} {P : World Db Event → Prop} (hP : serverContract.Stable i P)
    {w : World Db Event} (hw : P w) {act : Db → Db × List Event}
    (hlinks : KeepsLinks w.store (act w.store).1) : P (w.advance i act) :=
  hP ⟨List.prefix_append _ _, hlinks⟩ hw

/-- A single step all of whose changes are allowed. -/
theorem harmless_change {f : Db → (Db × List Event) × α}
    (h : ∀ i w, Change i w (f w.store).1.2 (f w.store).1.1 ∧
      KeepsLinks w.store (f w.store).1.1 ∧ Announces (f w.store).1.1 (f w.store).1.2) :
    serverContract.Harmless (.atomic f) := by
  refine harmless_atomic fun i w _ => ?_
  obtain ⟨hchange, hlinks, hannounces⟩ := h i w
  exact ⟨⟨_, hchange, hlinks, hannounces, rfl⟩, List.prefix_append _ _, hlinks⟩

/-- A single step that leaves completed deployments and links as they are. -/
theorem harmless_quiet {f : Db → (Db × List Event) × α}
    (h : ∀ db, Quiet db (f db).1.1 (f db).1.2) : serverContract.Harmless (.atomic f) :=
  harmless_atomic fun _ w _ => ⟨(h w.store).guaranteed, List.prefix_append _ _, (h w.store).links⟩

theorem selectedBy_stable (i id : ℕ) :
    serverContract.Stable i fun w => SelectedBy i id (history w) := by
  rintro w w' ⟨hlog, _⟩ ⟨e, hmem, hselects⟩
  refine ⟨e, ?_, hselects⟩
  rw [history, List.mem_reverse] at hmem ⊢
  exact hlog.subset hmem

/-- A selection of unfinished deployments remembers what it selected. -/
theorem select_sat {ids : α → List ℕ} {query : Db → α}
    (hquery : ∀ db, ∀ id ∈ ids (query db), ∀ row, db.deployments.find? id = some row →
      row.state ≠ .completed)
    {i : ℕ} {P : World Db Event → Prop} (hP : serverContract.Stable i P) :
    serverContract.Sat i (select ids query) P fun a w =>
      P w ∧ ∀ id ∈ ids a, SelectedBy i id (history w) := by
  refine .atomic ?_ ?_
  · intro w _ hw
    refine ⟨⟨_, .quiet (.refl _) ?_, .refl _, ?_, rfl⟩, stable_advance hP hw (.refl _), ?_⟩
    · intro e he
      rw [List.mem_singleton] at he
      subst he
      refine ⟨fun _ => rfl, rfl, ?_⟩
      intro id hselects
      exact hquery w.store id (by simpa [Event.selects] using hselects)
    · intro e he payload hannounced
      rw [List.mem_singleton] at he
      subst he
      cases hannounced
    · intro id hid
      exact ⟨.selected (ids (query w.store)), by simp [history], by simpa [Event.selects] using hid⟩
  · rintro a w w' hrely ⟨hw, hselected⟩
    exact ⟨hP hrely hw, fun id hid => selectedBy_stable i id hrely (hselected id hid)⟩

theorem announces_updated {db : Db} {id : ℕ} {attrs : Attrs} :
    Announces db [.updated id attrs] := by
  intro e he payload hannounced
  rw [List.mem_singleton] at he
  subst he
  cases hannounced

/-- A locked update that finalizes a selected deployment. -/
theorem finalize_sat (id : ℕ) {attrs : Attrs}
    (hfinal : attrs.state = .stale ∨ attrs.state = .canceled) {i : ℕ} {P : World Db Event → Prop}
    (hP : serverContract.Stable i P) :
    serverContract.Sat i (updateDeployment id attrs)
      (fun w => P w ∧ SelectedBy i id (history w)) fun _ => P := by
  refine .atomic ?_ fun _ => hP
  rintro w _ ⟨hw, hselected⟩
  dsimp only [World.advance]
  rcases lockedUpdate_cases w.store id attrs with ⟨reason, hupdate⟩ | ⟨locked, _, _, hupdate⟩ <;>
    rw [hupdate]
  · exact ⟨⟨[], .quiet (.refl _) (by simp), .refl _, by simp [Announces], rfl⟩,
      by simpa using hw⟩
  · have hlinks := keepsLinks_setDeployment w.store id attrs
    exact ⟨⟨_, .finalized hfinal hselected, hlinks, announces_updated, rfl⟩,
      hP ⟨List.prefix_append _ _, hlinks⟩ hw⟩

/-- A locked update that leaves the deployment unresolved cannot touch a
completed one. -/
theorem harmless_update {id : ℕ} {attrs : Attrs} (hopen : attrs.state.terminal = false) :
    serverContract.Harmless (updateDeployment id attrs) := by
  refine harmless_quiet fun db => ?_
  rcases lockedUpdate_cases db id attrs with ⟨reason, hupdate⟩ | ⟨locked, hlocked, hkept, hupdate⟩
  · rw [hupdate]
    exact .of_deployments rfl (by simp)
  · rw [hupdate]
    refine ⟨?_, keepsLinks_setDeployment db id attrs, ?_⟩
    · intro id' row hrow hstate
      have hne : id' ≠ id := by
        rintro rfl
        rw [hlocked] at hrow
        cases hrow
        rw [hkept (by rw [hstate]; rfl)] at hopen
        cases hopen
      exact ⟨row, find?_setDeployment_of_ne hrow hne, hstate, rfl⟩
    · intro e he
      rw [List.mem_singleton] at he
      subst he
      have hstates : attrs.state ≠ .completed ∧ attrs.state ≠ .stale ∧
          attrs.state ≠ .canceled := by
        refine ⟨?_, ?_, ?_⟩ <;> intro h <;> simp [h, State.terminal] at hopen
      refine Event.silent (fun id' => ?_) ?_ (fun _ => rfl) rfl
      · simp [Event.recordedResult, hstates.1]
      · simp [Event.finalized, hstates.2]

/-- A locked update that records a garden's result. -/
theorem harmless_record {id : ℕ} {result : DeploymentResult} {deployedAt : DateTime} :
    serverContract.Harmless (updateDeployment id
      { deployedAt := some deployedAt, result := some result, state := .completed }) := by
  refine harmless_change fun i w => ?_
  rcases lockedUpdate_cases w.store id
    { deployedAt := some deployedAt, result := some result, state := .completed } with
    ⟨reason, hupdate⟩ | ⟨locked, hlocked, _, hupdate⟩
  · rw [hupdate]
    exact ⟨.quiet (.refl _) (by simp), .refl _, by simp [Announces]⟩
  · rw [hupdate]
    exact ⟨.recorded rfl rfl hlocked, keepsLinks_setDeployment _ _ _, announces_updated⟩

theorem events_created (db : Db) (id : ℕ) :
    ∀ e ∈ [Event.created id], e.Neutral db ∧ e.announced = none := by
  intro e he
  rw [List.mem_singleton] at he
  subst he
  exact Event.silent (fun _ => rfl) rfl (fun _ => rfl) rfl

/-- An insertion knows the links of the row it inserted. -/
theorem create_sat {new : NewDeployment} {i : ℕ} {P : World Db Event → Prop}
    (hP : serverContract.Stable i P) :
    serverContract.Sat i (createDeployment new) P fun created w =>
      P w ∧ ∀ d, created = some d → LinksSeeds w.store d.id new.seeds := by
  refine .atomic ?_ ?_
  · intro w _ hw
    dsimp only [World.advance]
    split
    · have hquiet : Quiet w.store (w.store.insertDeployment new) _ :=
        ⟨keepsCompleted_insert _ _, keepsLinks_insert _ _,
          events_created w.store w.store.deployments.next⟩
      refine ⟨hquiet.guaranteed, hP ⟨List.prefix_append _ _, hquiet.links⟩ hw, ?_⟩
      rintro d ⟨⟩
      exact ⟨_, Table.find?_insert_next fun _ => rfl, rfl⟩
    · refine ⟨⟨[], .quiet (.refl _) (by simp), .refl _, by simp [Announces], rfl⟩,
        by simpa using hw, ?_⟩
      rintro d ⟨⟩
  · rintro created w w' hrely ⟨hw, hrow⟩
    exact ⟨hP hrely hw, fun d hd => (hrow d hd).keep hrely.2⟩

/-- A payload is announced once the row behind it is committed. -/
theorem announce_sat (garden : Sid) (payload : Wire.Deployment) {i : ℕ}
    {P : World Db Event → Prop} (hP : serverContract.Stable i P) :
    serverContract.Sat i (.emit (.dispatched garden payload))
      (fun w => P w ∧ (payload.skipped = false → Backed w.store payload)) fun _ => P := by
  refine .atomic ?_ fun _ => hP
  rintro w _ ⟨hw, hbacked⟩
  refine ⟨⟨_, .quiet (.refl _) ?_, .refl _, ?_, rfl⟩, stable_advance hP hw (.refl _)⟩
  · intro e he
    rw [List.mem_singleton] at he
    subst he
    exact ⟨fun _ => rfl, rfl, fun _ h => by cases h⟩
  · intro e he announced hannounced
    rw [List.mem_singleton] at he
    subst he
    simp only [Event.announced] at hannounced
    split at hannounced
    · cases hannounced
    · rename_i hskipped
      cases hannounced
      exact hbacked (by simpa using hskipped)

end Steps

section Programs

variable {platform : Platform}

theorem harmless_audit (id : ℕ) (event : AuditEvent) (reason : Reason) (actor : Option Sid)
    (note : Option String) : serverContract.Harmless (.emit (.audit id event reason actor note)) :=
  ignores_idle (steps_emit trivial)

/-- Keys of unfinished rows belong to no completed row. -/
theorem not_completed_of_mem {db : Db} {ids : List ℕ}
    (hids : ∀ id ∈ ids, ∃ d ∈ db.deployments.rows, d.id = id ∧ d.state ≠ .completed) :
    ∀ id ∈ ids, ∀ row, db.deployments.find? id = some row → row.state ≠ .completed := by
  intro id hid row hrow
  obtain ⟨d, hd, rfl, hstate⟩ := hids id hid
  rw [Table.find?_of_mem hd] at hrow
  cases hrow
  exact hstate

/-- Finalizing all selected deployments, one after the other. -/
theorem finalizeAll_sat {γ : Type} {xs : List γ} {ids : List ℕ} {body : γ → Program PUnit}
    {i : ℕ} {P : World Db Event → Prop} (hP : serverContract.Stable i P)
    (hbody : ∀ x ∈ xs, ∀ P, serverContract.Stable i P →
      serverContract.Sat i (body x) (fun w => P w ∧ ∀ id ∈ ids, SelectedBy i id (history w))
        fun _ => P) :
    serverContract.Sat i (xs.forM body)
      (fun w => P w ∧ ∀ id ∈ ids, SelectedBy i id (history w)) fun _ => P := by
  have hstable : serverContract.Stable i fun w =>
      P w ∧ ∀ id ∈ ids, SelectedBy i id (history w) := by
    rintro w w' hrely ⟨hw, hselected⟩
    exact ⟨hP hrely hw, fun id hid => selectedBy_stable i id hrely (hselected id hid)⟩
  refine (Contract.Sat.forM fun x hx => ?_).conseq (fun _ hw => hw) fun _ _ hw => hw.1
  exact (hbody x hx _ hstable).conseq (fun w hw => ⟨hw, hw.2⟩) fun _ _ hw => hw

theorem harmless_cancelStale (subscriptionIds : List ℕ) :
    serverContract.Harmless (cancelStaleForSubscriptions subscriptionIds) := by
  intro i P hP
  refine (select_sat ?_ hP).bind fun stale => finalizeAll_sat hP ?_
  · intro db
    refine not_completed_of_mem fun id hid => ?_
    obtain ⟨d, hd, rfl⟩ := List.mem_map.mp hid
    obtain ⟨hmem, hcond⟩ := List.mem_filter.mp hd
    have hstate : d.state = .stale := (by simpa using hcond : _ ∧ d.state = .stale).2
    exact ⟨d, hmem, rfl, by simp [hstate]⟩
  · intro deployment hdeployment P hP
    have hid : deployment.id ∈ stale.map Deployment.id := List.mem_map_of_mem hdeployment
    refine Contract.Sat.bind ((finalize_sat deployment.id (Or.inr rfl) hP).conseq
      (fun w hw => ⟨hw.1, hw.2 _ hid⟩) fun _ _ hw => hw) ?_
    rintro (_ | updated)
    · exact harmless_done _ i P hP
    · exact harmless_audit _ _ _ _ _ i P hP

theorem harmless_finalizeStaleDeployment (now : DateTime) (deployment : Deployment) :
    serverContract.Harmless (finalizeStaleDeployment now deployment) := by
  intro i P hP
  refine (select_sat ?_ hP).bind fun unresolved => ?_
  · intro db
    refine not_completed_of_mem fun id hid => ?_
    obtain ⟨d, hd, rfl⟩ := List.mem_map.mp hid
    obtain ⟨hfind, hopen⟩ := Option.filter_eq_some_iff.mp (Option.mem_toList.mp hd)
    refine ⟨d, (Table.find?_eq_some_iff.mp hfind).1, rfl, ?_⟩
    intro hstate
    simp [hstate, State.terminal] at hopen
  · cases unresolved with
    | none => exact .done fun _ hw => hw.1
    | some unresolved =>
      refine Contract.Sat.bind ((finalize_sat unresolved.id (Or.inl rfl) hP).conseq
        (fun w hw => ⟨hw.1, hw.2 _ (by simp)⟩) fun _ _ hw => hw) ?_
      rintro (_ | updated)
      · exact harmless_done _ i P hP
      · exact harmless_audit _ _ _ _ _ i P hP

theorem harmless_finalizeStaleDeployments (now : DateTime) (age batchSize : ℤ) :
    serverContract.Harmless (finalizeStaleDeployments now age batchSize) := by
  unfold finalizeStaleDeployments
  split
  · exact harmless_done _
  · intro i P hP
    refine (select_sat ?_ hP).bind fun stale => ?_
    · intro db
      refine not_completed_of_mem fun id hid => ?_
      obtain ⟨d, hd, rfl⟩ := List.mem_map.mp hid
      have hsorted := (List.mem_insertionSort _).mp (List.mem_of_mem_take hd)
      obtain ⟨hmem, hcond⟩ := List.mem_filter.mp hsorted
      refine ⟨d, hmem, rfl, ?_⟩
      intro hstate
      simp [hstate, State.terminal] at hcond
    · refine Contract.Sat.conseq ?_ (fun w hw => hw.1) fun _ _ hw => hw
      exact harmless_forM (fun d _ => harmless_finalizeStaleDeployment now d) i P hP

/-- A report changes only the deployment that it finds. -/
theorem harmless_recordReport (sid : Sid) {attrs : Attrs}
    (hupdate : ∀ id, serverContract.Harmless (updateDeployment id attrs)) :
    serverContract.Harmless (recordReport sid attrs) := by
  have hlook : (getDeploymentSid sid).Steps (Effect quietKinds) :=
    Proc.steps_atomic fun _ => .looked (by simp [quietKinds]) sid
  refine (ignores_quiet hlook).bind fun found => ?_
  cases found with
  | none => exact harmless_done _
  | some deployment =>
    refine (hupdate deployment.id).bind ?_
    rintro (_ | updated) <;> exact harmless_done _

/-- What is known of a deployment once it was created. -/
theorem linked_stable {i : ℕ} {P : World Db Event → Prop} (hP : serverContract.Stable i P) (id : ℕ)
    (seeds : List ℕ) : serverContract.Stable i fun w => P w ∧ LinksSeeds w.store id seeds :=
  fun _ _ hrely h => ⟨hP hrely h.1, h.2.keep hrely.2⟩

/-- The row of a new deployment links the seeds of its entries. -/
theorem dispatch_sat (requestId : Sid) (gardenId : ℕ) (seedDeploys : List SeedDeployment)
    (subscriptions : List Subscription) (opts : DeployOpts) {i : ℕ} {P : World Db Event → Prop}
    (hP : serverContract.Stable i P) :
    serverContract.Sat i
      (dispatchSeedDeploys platform requestId gardenId seedDeploys subscriptions opts) P
      (Dispatched P P (fun _ => P) (fun id w => P w ∧
        LinksSeeds w.store id (seedDeploys.map fun entry => entry.seed.sid)) seedDeploys) := by
  refine dispatch_rule ignores_idle harmless_cancelStale hP (fun id => linked_stable hP id _) ?_
    fun now => ?_
  · have hcheck : (findDuplicateDeployment gardenId (computeContentHash platform
        (seedDeploys.map fun entry => entry.seed.sid)) opts.force).Steps (Effect quietKinds) :=
      steps_findDuplicateDeployment (by simp [quietKinds]) _ _ _
    refine (ignores_quiet hcheck i P hP).conseq (fun w hw => hw) fun found w hw => ?_
    cases found with
    | none => exact hw
    | some existing => exact hw
  · refine (create_sat hP).conseq (fun w hw => hw) fun created w hw => ?_
    cases created with
    | none => exact hw.1
    | some deployment => exact ⟨hw.1, hw.2 deployment rfl⟩

/-- A new deployment is announced once its row is committed. -/
theorem announceDispatched_sat (garden : Sid) (seedDeploys : List SeedDeployment)
    (payload : Wire.Deployment) {i : ℕ} {P : World Db Event → Prop} (hP : serverContract.Stable i P) :
    serverContract.Sat i (.emit (.dispatched garden payload))
      (Dispatched P P (fun _ => P) (fun id w => P w ∧
        LinksSeeds w.store id (seedDeploys.map fun entry => entry.seed.sid)) seedDeploys (.ok payload))
      fun _ => P := by
  refine (announce_sat garden payload hP).conseq ?_ fun _ _ hw => hw
  rintro w ⟨rfl, houtcome⟩
  split at houtcome
  · rename_i hskipped
    exact ⟨houtcome, fun hnew => by simp [hskipped] at hnew⟩
  · exact ⟨houtcome.1, fun _ => houtcome.2⟩

theorem harmless_job (job : Job) : serverContract.Harmless (job.program platform) :=
  fun _ _ hP => job_rule ignores_idle hP (fun _ hw => hw) (fun _ hw => hw)
    (fun gardenId seedDeploys => dispatch_sat _ gardenId seedDeploys _ _ hP)
    fun seedDeploys payload => announceDispatched_sat _ seedDeploys payload hP

theorem harmless_deployDirect (garden : Garden) (seed : Seed) (opts : DirectOpts) :
    serverContract.Harmless (discard (deployDirect platform garden seed opts)) := by
  intro i P hP
  refine Contract.Sat.bind (Q := fun _ => P) ?_ fun _ => .done fun _ hw => hw
  exact deployDirect_rule ignores_idle hP (fun _ hw => hw) (fun _ hw => hw)
    (fun requestId seedDeploys subscriptions _ _ => dispatch_sat requestId _ seedDeploys subscriptions _ hP)
    fun seedDeploys payload => announceDispatched_sat _ seedDeploys payload hP

/-- The process has selected all of the deployments. -/
def SelectedAll (i : ℕ) (deployments : List Loaded) (w : World Db Event) : Prop :=
  ∀ id ∈ deployments.map fun loaded => loaded.deployment.id, SelectedBy i id (history w)

theorem selectedAll_stable {i : ℕ} {P : World Db Event → Prop} (hP : serverContract.Stable i P)
    (deployments : List Loaded) : serverContract.Stable i fun w => P w ∧ SelectedAll i deployments w := by
  rintro w w' hrely ⟨hw, hselected⟩
  exact ⟨hP hrely hw, fun id hid => selectedBy_stable i id hrely (hselected id hid)⟩

/-- A reconnect lists unfinished deployments. -/
theorem list_sat (garden : Garden) {i : ℕ} {P : World Db Event → Prop} (hP : serverContract.Stable i P) :
    serverContract.Sat i (listUnresolved platform garden) P fun unresolved w =>
      P w ∧ SelectedAll i unresolved w := by
  refine select_sat (fun db => not_completed_of_mem fun id hid => ?_) hP
  obtain ⟨loaded, hloaded, rfl⟩ := List.mem_map.mp hid
  obtain ⟨d, hd, rfl⟩ := List.mem_map.mp hloaded
  obtain ⟨hmem, hcond⟩ := List.mem_filter.mp ((List.mem_insertionSort _).mp hd)
  refine ⟨d, hmem, rfl, ?_⟩
  intro hstate
  simp [hstate, State.terminal] at hcond

/-- A listed deployment may be canceled. -/
theorem cancel_sat (garden : Garden) {unresolved : List Loaded} {loaded : Loaded}
    (hloaded : loaded ∈ unresolved) {i : ℕ} {P : World Db Event → Prop} (hP : serverContract.Stable i P) :
    serverContract.Sat i (cancelSuperseded garden loaded) (fun w => P w ∧ SelectedAll i unresolved w)
      fun _ w => P w ∧ SelectedAll i unresolved w := by
  have hstable := selectedAll_stable hP unresolved
  have hid : loaded.deployment.id ∈ unresolved.map fun loaded => loaded.deployment.id :=
    List.mem_map_of_mem hloaded
  refine Contract.Sat.bind ((finalize_sat loaded.deployment.id (Or.inr rfl) hstable).conseq
    (fun w hw => ⟨hw, hw.2 _ hid⟩) fun _ _ hw => hw) ?_
  exact fun _ => harmless_audit _ _ _ _ _ i _ hstable

theorem harmless_reconcile (garden : Garden) (now : DateTime) :
    serverContract.Harmless (discard (reconcileDeploymentsOnConnect platform garden now)) := by
  intro i P hP
  refine Contract.Sat.bind (Q := fun _ => P) ?_ fun _ => .done fun _ hw => hw
  refine reconcile_rule (fun unresolved w => P w ∧ SelectedAll i unresolved w) (fun _ => P) ignores_idle
    hP hP (selectedAll_stable hP) (fun _ hw => hw) (fun _ _ hw => hw) (list_sat garden hP)
    (fun _ _ hloaded => cancel_sat garden hloaded hP) ?_ ?_
  · intro unresolved toReplay _
    have hmark : (markDeploymentsDispatched toReplay now).Steps (Effect quietKinds) :=
      steps_markDeploymentsDispatched (by simp [quietKinds]) _ _
    exact (ignores_quiet hmark i P hP).conseq (fun w hw => hw.1) fun _ _ hw => hw
  · intro toReplay loaded _
    exact ignores_quiet (steps_replay (by simp [quietKinds]) garden loaded) i P hP

/-- Every operation keeps the contract. -/
theorem harmless_operation (operation : Operation) : serverContract.Harmless (operation.program platform) := by
  have hquiet (hkinds : operation.kinds ⊆ quietKinds) :
      serverContract.Harmless (operation.program platform) :=
    ignores_quiet ((steps_operation operation).mono fun _ _ _ heffect => heffect.mono hkinds)
  cases operation with
  | createSeed => exact hquiet (Set.empty_subset _)
  | createSubscription => exact hquiet (Set.empty_subset _)
  | removeSubscriptions => exact hquiet (Set.empty_subset _)
  | track => exact hquiet (Set.empty_subset _)
  | recordDeploymentStatus sid =>
    exact (harmless_recordReport sid fun _ => harmless_update rfl).bind fun _ => harmless_done _
  | recordDeployment sid result deployedAt =>
    exact (harmless_recordReport sid fun _ => harmless_record).bind fun _ => harmless_done _
  | finalizeStaleDeployments now age batchSize => exact harmless_finalizeStaleDeployments _ _ _
  | cancelStaleForSubscriptions subscriptionIds => exact harmless_cancelStale _
  | reconcileDeploymentsOnConnect garden now => exact harmless_reconcile _ _
  | deploySubscription => exact hquiet (Set.empty_subset _)
  | processDeployment job => exact harmless_job _
  | deployDirect garden seed opts => exact harmless_deployDirect _ _ _
  | retryDeployment => exact hquiet (by simp [Operation.kinds, quietKinds])

/-- The programs that the server runs. -/
def Served (platform : Platform) (program : Program PUnit) : Prop :=
  ∃ operation : Operation, program = operation.program platform

/-- The contract holds in every interleaving of operations. -/
theorem serverContract_of_reachable {db : Db} {c : Pool Db Event}
    (hreach : Reachable (Served platform) (Pool.start db) c) : serverContract.inv c.world := by
  refine serverContract.inv_of_reachable ?_ ?_ hreach
  · rintro p ⟨operation, rfl⟩
    exact harmless_operation operation
  · refine ⟨fun _ => ⟨fun _ _ h => (by cases h), trivial⟩, ?_⟩
    rintro i e payload ⟨⟩

/-- The operations start together and then step in the given order. -/
def scheduled (platform : Platform) (db : Db) (operations : List Operation) (steps : List ℕ) :
    Pool Db Event :=
  (Pool.start db).exec
    (operations.map (fun operation => .spawn (operation.program platform)) ++ steps.map .act)

theorem scheduled_reachable (db : Db) (operations : List Operation) (steps : List ℕ) :
    Reachable (Served platform) (Pool.start db) (scheduled platform db operations steps) := by
  have hstarted : scheduled platform db operations steps =
      started db (operations.map fun operation => operation.program platform) steps := by
    unfold scheduled started
    rw [List.map_map]
    rfl
  rw [hstarted]
  refine started_reachable fun p hp => ?_
  obtain ⟨operation, _, rfl⟩ := List.mem_map.mp hp
  exact ⟨operation, rfl⟩

end Programs

end Sower.Server
