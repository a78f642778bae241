import Sower.Server.Steps

/-!
# Finished deployments stay finished

A step rewrites a row's times, result and state and nothing else, and it never
takes a finished row back among the unresolved ones. So no interleaving of
operations does.
-/

namespace Sower.Server

open Sower.Calendar Sower.Policy Sower.Wire Process Keyed Interleaving

section Rows

/-- The row may be what has become of the old one. -/
structure Deployment.Follows (old row : Deployment) : Prop where
  id : row.id = old.id
  gardenId : row.gardenId = old.gardenId
  parentDeploymentId : row.parentDeploymentId = old.parentDeploymentId
  contentHash : row.contentHash = old.contentHash
  retryOrdinal : row.retryOrdinal = old.retryOrdinal
  terminal : old.state.terminal = true → row.state.terminal = true

theorem Deployment.Follows.refl (row : Deployment) : row.Follows row :=
  ⟨rfl, rfl, rfl, rfl, rfl, fun h => h⟩

theorem Deployment.Follows.trans {first second third : Deployment} (h : first.Follows second)
    (h' : second.Follows third) : first.Follows third where
  id := h'.id.trans h.id
  gardenId := h'.gardenId.trans h.gardenId
  parentDeploymentId := h'.parentDeploymentId.trans h.parentDeploymentId
  contentHash := h'.contentHash.trans h.contentHash
  retryOrdinal := h'.retryOrdinal.trans h.retryOrdinal
  terminal hold := h'.terminal (h.terminal hold)

/-- An update that does not reopen the row. -/
theorem Deployment.follows_apply {row : Deployment} {attrs : Attrs}
    (hkept : row.state.terminal = true → attrs.state.terminal = true) :
    row.Follows (row.apply attrs) := ⟨rfl, rfl, rfl, rfl, rfl, hkept⟩

/-- A further dispatch of an unresolved row. -/
theorem Deployment.follows_redispatch {row : Deployment} {dispatchedAt : DateTime}
    (hopen : row.state.terminal = false) : row.Follows (row.redispatch dispatchedAt) where
  id := rfl
  gardenId := rfl
  parentDeploymentId := rfl
  contentHash := rfl
  retryOrdinal := rfl
  terminal h := by simp [hopen] at h

/-- Every row is still there, as one that follows it. -/
def Evolves (db db' : Db) : Prop :=
  ∀ id row, db.deployments.find? id = some row →
    ∃ row', db'.deployments.find? id = some row' ∧ row.Follows row'

theorem Evolves.refl (db : Db) : Evolves db db := fun _ row hrow => ⟨row, hrow, .refl row⟩

theorem Evolves.trans {db db' db'' : Db} (h : Evolves db db') (h' : Evolves db' db'') :
    Evolves db db'' := by
  intro id row hrow
  obtain ⟨row', hrow', hfollows⟩ := h id row hrow
  obtain ⟨row'', hrow'', hfollows'⟩ := h' id row' hrow'
  exact ⟨row'', hrow'', hfollows.trans hfollows'⟩

/-- Rows stay where the same lookups succeed. -/
theorem evolves_of_find? {db db' : Db}
    (h : ∀ id row, db.deployments.find? id = some row → db'.deployments.find? id = some row) :
    Evolves db db' := fun id row hrow => ⟨row, h id row hrow, .refl row⟩

theorem evolves_of_deployments {db db' : Db} (h : db'.deployments = db.deployments) :
    Evolves db db' := evolves_of_find? fun _ _ hrow => h ▸ hrow

theorem evolves_setDeployment {db : Db} {id : ℕ} {attrs : Attrs} {locked : Deployment}
    (hfound : db.deployments.find? id = some locked)
    (hkept : locked.state.terminal = true → attrs.state.terminal = true) :
    Evolves db (db.setDeployment id attrs) := by
  intro id' row hrow
  by_cases hid : id' = id
  · subst hid
    rw [hfound] at hrow
    cases hrow
    exact ⟨_, find?_setDeployment_self hfound, Deployment.follows_apply hkept⟩
  · exact ⟨row, find?_setDeployment_of_ne hrow hid, .refl row⟩

theorem evolves_markDispatched (db : Db) (ids : List ℕ) (dispatchedAt : DateTime) :
    Evolves db (db.markDispatched ids dispatchedAt) := by
  intro id row hrow
  rw [find?_markDispatched, hrow]
  refine ⟨_, rfl, ?_⟩
  dsimp only
  split
  · rename_i hmarked
    have hopen : row.state.terminal = false := by
      simpa using ((Bool.and_eq_true _ _).mp hmarked).2
    exact Deployment.follows_redispatch hopen
  · exact .refl row

theorem evolves_insertDeployment (db : Db) (new : NewDeployment) :
    Evolves db (db.insertDeployment new) :=
  evolves_of_find? fun _ _ hrow => find?_insertDeployment hrow

/-- Whatever a step does, every row follows itself. -/
theorem Effect.evolves {kinds : Set Kind} {db db' : Db} {es : List Event}
    (h : Effect kinds db es db') : Evolves db db' := by
  cases h with
  | idle deployments locks plain => exact evolves_of_deployments deployments
  | selected kind ids => exact .refl db
  | updated kind found kept => exact evolves_setDeployment found kept
  | marked kind ids dispatchedAt => exact evolves_markDispatched db ids dispatchedAt
  | checked kind gardenId contentHash => exact .refl db
  | created kind parentless => exact evolves_insertDeployment db _
  | @retried kind loaded ordinal now actor =>
    unfold Db.insertRetry
    split
    · exact evolves_insertDeployment db.tick _
    · exact evolves_of_deployments rfl
  | looked kind sid => exact .refl db
  | dispatched kind garden payload => exact .refl db
  | replayed kind garden payload => exact .refl db
  | locked kind free => exact evolves_of_deployments rfl
  | reserved kind => exact evolves_of_find? fun _ _ hrow => hrow
  | announced kind parent garden payload => exact .refl db
  | committed kind id retry actor => exact evolves_of_find? fun _ _ hrow => Table.find?_place_of_some hrow
  | unlocked kind id => exact evolves_of_deployments rfl
  | rolledBack kind id retry => exact evolves_of_deployments rfl

end Rows

section Resolutions

/-- The event takes the deployment into a final state. -/
def Event.resolves (id : ℕ) : Event → Bool
  | .updated id' attrs => id' = id && attrs.state.terminal
  | _ => false

/-- The deployment is unresolved. -/
def Unresolved (db : Db) (id : ℕ) : Prop :=
  ∃ row, db.deployments.find? id = some row ∧ row.state.terminal = false

/-- An unresolved deployment stays so unless the step resolves it. -/
def Resolves (db : Db) (es : List Event) (db' : Db) : Prop :=
  ∀ id, Unresolved db id → Unresolved db' id ∨ ∃ e ∈ es, e.resolves id = true

theorem resolves_of_find? {db db' : Db} {es : List Event}
    (h : ∀ id row, db.deployments.find? id = some row → db'.deployments.find? id = some row) :
    Resolves db es db' := by
  rintro id ⟨row, hrow, hopen⟩
  exact Or.inl ⟨row, h id row hrow, hopen⟩

theorem Effect.resolves {kinds : Set Kind} {db db' : Db} {es : List Event}
    (h : Effect kinds db es db') : Resolves db es db' := by
  cases h with
  | idle deployments locks plain => exact resolves_of_find? fun _ _ hrow => deployments ▸ hrow
  | @updated kind id attrs locked found kept =>
    rintro id' ⟨row, hrow, hopen⟩
    by_cases hid : id' = id
    · subst hid
      rcases hattrs : attrs.state.terminal with _ | _
      · exact Or.inl ⟨_, find?_setDeployment_self found, hattrs⟩
      · exact Or.inr ⟨_, List.mem_singleton.mpr rfl, by simp [Event.resolves, hattrs]⟩
    · exact Or.inl ⟨row, find?_setDeployment_of_ne hrow hid, hopen⟩
  | marked kind ids dispatchedAt =>
    rintro id ⟨row, hrow, hopen⟩
    have hfind := find?_markDispatched db ids dispatchedAt id
    rw [hrow, Option.map_some] at hfind
    refine Or.inl ⟨_, hfind, ?_⟩
    split
    · rfl
    · exact hopen
  | created kind parentless => exact resolves_of_find? fun _ _ hrow => find?_insertDeployment hrow
  | @retried kind loaded ordinal now actor =>
    unfold Db.insertRetry
    split
    · refine resolves_of_find? fun id row hrow => ?_
      have htick : db.tick.deployments.find? id = some row := hrow
      exact find?_insertDeployment htick
    · exact resolves_of_find? fun _ _ hrow => hrow
  | committed kind id retry actor =>
    exact resolves_of_find? fun _ _ hrow => Table.find?_place_of_some hrow
  | _ => exact resolves_of_find? fun _ _ hrow => hrow

end Resolutions

section Runs

variable {platform : Platform}

/-- Rows follow themselves along every run of operations. -/
theorem evolves_of_reachable {kinds : Set Kind} {c c' : Pool Db Event}
    (hsteps : ∀ p ∈ c.procs, p.Steps (Effect kinds))
    (hreach : Reachable (Concurrent platform kinds) c c') : Evolves c.world.store c'.world.store :=
  hreach.along (fun w w' => Evolves w.store w'.store) (fun _ hp => steps_concurrent hp)
    hsteps (fun w => .refl w.store) (fun h h' => h.trans h') fun _ _ _ _ heffect => heffect.evolves

/-- A deployment that is finished at some point of a run is finished at every
later point. -/
theorem staysTerminal {db : Db} {c c' : Pool Db Event} {id : ℕ} {row : Deployment}
    (hbefore : Reachable (Concurrent platform Set.univ) (Pool.start db) c)
    (hafter : Reachable (Concurrent platform Set.univ) c c')
    (hrow : c.world.store.deployments.find? id = some row) (hterminal : row.state.terminal = true) :
    ∃ row', c'.world.store.deployments.find? id = some row' ∧ row'.state.terminal = true := by
  have hnothing : ∀ p ∈ (Pool.start db).procs, p.Steps (Effect Set.univ) := by simp [Pool.start]
  have hsteps := hbefore.steps (fun _ hp => steps_concurrent hp) hnothing
  obtain ⟨row', hrow', hfollows⟩ := evolves_of_reachable hsteps hafter id row hrow
  exact ⟨row', hrow', hfollows.terminal hterminal⟩

/-- A store with one deployment that waits for its garden, and a user. -/
def oneWaiting : Db :=
  { clock := fun n => n, users := oneUser : Db }.insertDeployment
      { gardenId := 1, seeds := [], subscriptions := [], state := .dispatched
        lastDispatchedAt := none, contentHash := "" }

/-- The garden's result and its acknowledgement, with the retries of a user. -/
def resultAndRetry : List (Program PUnit) :=
  [Operation.program .plain (.recordDeployment 1 .failure 5),
    Operation.program .plain (.recordDeploymentStatus 1),
    discard (retryTransaction .plain 1 1 2 true)]

theorem resultAndRetry_concurrent :
    ∀ p ∈ resultAndRetry, Concurrent .plain Set.univ p := by
  intro p hp
  simp only [resultAndRetry, List.mem_cons, List.not_mem_nil, or_false] at hp
  rcases hp with rfl | rfl | rfl
  · exact .operation (Set.subset_univ _)
  · exact .operation (Set.subset_univ _)
  · exact .retry (Set.mem_univ _) 1 1 2 true

/-- An acknowledgement that overtakes the result, and a retry, do not reopen it. -/
theorem staysTerminal_after_result :
    ∃ row, ((started oneWaiting resultAndRetry [1, 0, 0]).exec
        ([1, 2, 2, 2, 2, 2, 2, 2, 2, 2, 2].map .act)).world.store.deployments.find? 1 = some row ∧
      row.state.terminal = true :=
  staysTerminal (started_reachable resultAndRetry_concurrent)
    (reachable_exec .refl (by simp [Move.Admissible])) rfl (by decide)

end Runs

end Sower.Server
