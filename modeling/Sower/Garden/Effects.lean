import Sower.Garden.Deployer

/-!
# The effects of a run

What the tasks of a run do to the outside and what the run makes of their
answers: which calls reach the activator, and what a successful run says about
each of its seeds.
-/

namespace Sower.Garden.Deployer

open Sower.Calendar Sower.Policy Sower.Wire Traced

section Effects

variable {host : Host} {world : SeedWorld} {seed : Seed}

@[simp] theorem await_effects {α : Type} (answer : Answer α) : (await answer).effects = [] := by
  cases answer <;> rfl

@[simp] theorem await_ending_ok {α : Type} {answer : Answer α} {value : α} :
    (await answer).ending = .ok value ↔ answer = .returned value := by
  cases answer <;> simp [await]

@[simp] theorem orRaise_effects {α : Type} (outcome : Except Raise α) :
    (orRaise outcome).effects = [] := by
  cases outcome <;> rfl

@[simp] theorem orRaise_ending_ok {α : Type} {outcome : Except Raise α} {value : α} :
    (orRaise outcome).ending = .ok value ↔ outcome = .ok value := by
  cases outcome <;> simp [orRaise]

/-- The property holds of everything a task reports about its seed. -/
structure Reports (p : Effect → Prop) : Prop where
  status : ∀ sid status, p (.status sid status)
  result : ∀ sid result log, p (.result sid result log)

variable {p : Effect → Prop}

theorem reportSeedResult_all (hp : Reports p) {result : SeedResult} {log : List String} :
    (reportSeedResult world seed result log).All p :=
  Run.All.bind (Run.All.perform (hp.result _ _ _)) fun _ => Run.All.silent (await_effects _)

/-- Staging only reports. -/
theorem stageOnly_all (hp : Reports p) {preamble : List String} :
    (stageOnly world seed preamble).All p := by
  unfold stageOnly
  refine Run.All.bind (Run.All.perform (hp.status _ _)) fun _ => ?_
  exact Run.All.bind (reportSeedResult_all hp) fun _ => Run.All.silent rfl

theorem reportActivation_all (hp : Reports p) {preamble : List String} {result : Activation} :
    (reportActivation world seed preamble result).All p := by
  cases result with
  | ok output =>
    exact Run.All.bind (Run.All.perform (hp.status _ _)) fun _ => reportSeedResult_all hp
  | failed code output => exact reportSeedResult_all hp
  | error reason =>
    rw [reportActivation]
    split
    · exact reportSeedResult_all hp
    · exact Run.All.silent rfl

/-- A closure that could not be realised is only reported. -/
theorem failTask_all (hp : Reports p) {output : List String} :
    (failTask world seed output).All p :=
  Run.All.bind (reportSeedResult_all hp) fun _ => Run.All.silent rfl

section Activations

/-- The effect is no call of the activator. -/
def Effect.Passive (e : Effect) : Prop := ∀ sid mode, e ≠ .activate sid mode

theorem reports_passive : Reports Effect.Passive where
  status := by
    intro sid status sid' mode h
    cases h
  result := by
    intro sid result log sid' mode h
    cases h

/-- The host lets the activator run for seeds of this type. -/
def Activatable (host : Host) (seed : Seed) : Prop :=
  host.activationEnabled = true ∧ (seed.seedType = "home-manager" ∨ seed.seedType = "nixos")

/-- Activating a seed calls the activator once, with the mode it is given. -/
theorem activate_mem_activateSeed {sid : Sid} {mode mode' : String} :
    Effect.activate sid mode' ∈ (activateSeed host world seed mode).effects ↔
      Activatable host seed ∧ sid = seed.sid ∧ mode' = mode := by
  unfold activateSeed runActivation Activatable
  by_cases htype : seed.seedType = "home-manager" ∨ seed.seedType = "nixos"
  · by_cases henabled : host.activationEnabled = true <;> simp [htype, henabled]
  · simp [htype]

theorem activate_mem_activateAndReport {sid : Sid} {mode mode' : String} {preamble : List String} :
    Effect.activate sid mode' ∈ (activateAndReport host world seed mode preamble).effects ↔
      Activatable host seed ∧ sid = seed.sid ∧ mode' = mode := by
  unfold activateAndReport
  rw [Run.effects_perform_bind, List.mem_cons, Run.mem_effects_bind, activate_mem_activateSeed]
  constructor
  · rintro (h | h | ⟨result, -, h⟩)
    · cases h
    · exact h
    · rcases Run.mem_effects_bind.mp h with hreport | ⟨_, -, hpure⟩
      · exact absurd rfl (reportActivation_all reports_passive _ hreport sid mode')
      · cases hpure
  · exact fun h => Or.inr (Or.inl h)

/-- The activator is called exactly for the mode of the action. -/
theorem activate_mem_executeAction {sid : Sid} {mode : String} {action : Option Action}
    {preamble : List String} :
    Effect.activate sid mode ∈ (executeAction host world seed action preamble).effects ↔
      Activatable host seed ∧ sid = seed.sid ∧ actionToMode action seed.seedType = some mode := by
  unfold executeAction
  split
  · rename_i hmode
    constructor
    · intro h
      exact absurd rfl (stageOnly_all reports_passive _ h sid mode)
    · rintro ⟨_, _, hsome⟩
      rw [hmode] at hsome
      cases hsome
  · rename_i chosen hmode
    rw [activate_mem_activateAndReport, hmode, Option.some_inj, eq_comm (a := mode)]

/-- The subscription that governs a seed; an unknown one is empty. -/
def governing (world : SeedWorld) (seedDeploy : SeedDeployment) : Subscription :=
  (findSubscription world.subscriptions seedDeploy.subscriptionSid).getD {}

variable {seedDeploy : SeedDeployment}

theorem activate_mem_activateTask {sid : Sid} {mode : String} {output : List String} :
    Effect.activate sid mode ∈ (activateTask host world seedDeploy output).effects ↔
      Activatable host seedDeploy.seed ∧ sid = seedDeploy.seed.sid ∧
        ∃ action, resolveAction host.tzdb world.config world.now seedDeploy
            (governing world seedDeploy) = .ok (.action action) ∧
          actionToMode action seedDeploy.seed.seedType = some mode := by
  unfold activateTask
  rw [Run.mem_effects_bind]
  constructor
  · rintro (h | ⟨resolved, hresolved, h⟩)
    · simp at h
    · cases resolved with
      | action action =>
        rcases Run.mem_effects_bind.mp h with hexecute | ⟨_, -, hpure⟩
        · obtain ⟨hcan, hsid, hmode⟩ := activate_mem_executeAction.mp hexecute
          exact ⟨hcan, hsid, action, orRaise_ending_ok.mp hresolved, hmode⟩
        · cases hpure
      | unsupportedAction =>
        rcases Run.mem_effects_bind.mp h with hreport | ⟨_, -, hpure⟩
        · exact absurd rfl (reportSeedResult_all reports_passive _ hreport sid mode)
        · cases hpure
  · rintro ⟨hcan, hsid, action, hresolved, hmode⟩
    refine Or.inr ⟨.action action, orRaise_ending_ok.mpr hresolved, ?_⟩
    exact Run.mem_effects_bind.mpr (Or.inl (activate_mem_executeAction.mpr ⟨hcan, hsid, hmode⟩))

/-- The calls of the activator for one seed: the closure was realised, an
action was resolved and the mode is the one of the action. -/
theorem activate_mem_upgradeSeed {sid : Sid} {mode : String} :
    Effect.activate sid mode ∈ (upgradeSeed host world seedDeploy).effects ↔
      (∃ output, world.realized = .returned (.ok output)) ∧
        Activatable host seedDeploy.seed ∧ sid = seedDeploy.seed.sid ∧
          ∃ action, resolveAction host.tzdb world.config world.now seedDeploy
              (governing world seedDeploy) = .ok (.action action) ∧
            actionToMode action seedDeploy.seed.seedType = some mode := by
  unfold upgradeSeed realizeTask
  dsimp only
  rw [List.mem_append, Run.effects_perform_bind, Run.ending_perform_bind, await_effects]
  rcases hworld : world.realized with (output | output) | _ | _
  · simp only [await, Run.ending_pure, activate_mem_activateTask]
    simp
  · simp only [await, Run.ending_pure]
    constructor
    · rintro (h | h)
      · simp at h
      · exact absurd rfl (failTask_all reports_passive _ h sid mode)
    · rintro ⟨⟨_, h⟩, _⟩
      simp at h
  · simp [await]
  · simp [await]

end Activations

section Tasks

/-- Everything a task does is a report or a call of the activator. -/
theorem upgradeSeed_all (hp : Reports p) (hactivate : ∀ sid mode, p (.activate sid mode))
    {seedDeploy : SeedDeployment} : (upgradeSeed host world seedDeploy).All p := by
  have hactivateSeed : ∀ mode, (activateSeed host world seedDeploy.seed mode).All p := by
    intro mode
    unfold activateSeed runActivation
    split
    · split
      · refine Run.All.bind (Run.All.perform (hactivate _ _)) fun _ => Run.All.silent ?_
        exact await_effects _
      · exact Run.All.silent rfl
    · exact Run.All.silent rfl
  have hexecute : ∀ action preamble,
      (executeAction host world seedDeploy.seed action preamble).All p := by
    intro action preamble
    unfold executeAction
    split
    · exact stageOnly_all hp
    · refine Run.All.bind (Run.All.perform (hp.status _ _)) fun _ => ?_
      refine Run.All.bind (hactivateSeed _) fun _ => ?_
      exact Run.All.bind (reportActivation_all hp) fun _ => Run.All.silent rfl
  have hactivateTask : ∀ output, (activateTask host world seedDeploy output).All p := by
    intro output
    unfold activateTask
    refine Run.All.bind (Run.All.silent (orRaise_effects _)) fun resolved => ?_
    cases resolved with
    | action action => exact Run.All.bind (hexecute _ _) fun _ => Run.All.silent rfl
    | unsupportedAction =>
      exact Run.All.bind (reportSeedResult_all hp) fun _ => Run.All.silent rfl
  have hrealize : (realizeTask world seedDeploy.seed).All p :=
    Run.All.bind (Run.All.perform (hp.status _ _)) fun _ => Run.All.silent (await_effects _)
  intro e he
  unfold upgradeSeed at he
  dsimp only at he
  rcases List.mem_append.mp he with hfirst | hsecond
  · exact hrealize e hfirst
  · split at hsecond
    · exact hactivateTask _ e hsecond
    · exact failTask_all hp e hsecond
    · cases hsecond
    · cases hsecond

/-- A seed that succeeded had its action resolved, and the item carries the
action of a direct deployment of a rebootable seed. -/
theorem upgradeSeed_succeeded {seedDeploy : SeedDeployment} {upgrade : Upgrade}
    (h : streamItem (upgradeSeed host world seedDeploy).ending = .ok upgrade)
    (hsucceeded : upgrade.succeeded = true) :
    ∃ output action, resolveAction host.tzdb world.config world.now seedDeploy
        (governing world seedDeploy) = .ok (.action action) ∧
      upgrade = .resolved (.ok output)
        (if seedDeploy.action ≠ none ∧ rebootable seedDeploy.seed.seedType then action else none) := by
  have hending : (upgradeSeed host world seedDeploy).ending = .ok upgrade := by
    rcases hcase : (upgradeSeed host world seedDeploy).ending with (_ | _) | u
    · rw [hcase] at h
      cases h
      cases hsucceeded
    · rw [hcase] at h
      cases h
    · rw [hcase] at h
      cases h
      rfl
  unfold upgradeSeed at hending
  dsimp only at hending
  split at hending
  · unfold activateTask at hending
    obtain ⟨resolved, hresolved, htask⟩ := Run.ending_bind_ok.mp hending
    cases resolved with
    | action action =>
      obtain ⟨result, -, hitem⟩ := Run.ending_bind_ok.mp htask
      cases hitem
      cases result with
      | ok output => exact ⟨output, action, orRaise_ending_ok.mp hresolved, rfl⟩
      | failed code output => cases hsucceeded
      | error reason => cases hsucceeded
    | unsupportedAction =>
      obtain ⟨_, -, hitem⟩ := Run.ending_bind_ok.mp htask
      cases hitem
      cases hsucceeded
  · unfold failTask at hending
    obtain ⟨_, -, hitem⟩ := Run.ending_bind_ok.mp hending
    cases hitem
    cases hsucceeded
  · cases hending
    cases hsucceeded
  · cases hending

variable {worlds : ℕ → SeedWorld} {deployment : Deployment}

/-- The tasks of a run are those of its entries. -/
theorem mem_seedTasks {task : Step Upgrade} :
    task ∈ seedTasks host worlds deployment ↔ ∃ i seedDeploy,
      deployment.seedDeployments[i]? = some seedDeploy ∧
        upgradeSeed host (worlds i) seedDeploy = task := by
  unfold seedTasks
  rw [List.mem_mapIdx]
  constructor
  · rintro ⟨i, hi, rfl⟩
    exact ⟨i, _, List.getElem?_eq_getElem hi, rfl⟩
  · rintro ⟨i, seedDeploy, hentry, rfl⟩
    obtain ⟨hi, rfl⟩ := List.getElem?_eq_some_iff.mp hentry
    exact ⟨i, hi, rfl⟩

/-- The effects of all tasks together are those of the entries. -/
theorem mem_effects_upgradeWithActions {e : Effect} :
    e ∈ (upgradeWithActions host worlds deployment).effects ↔ ∃ i seedDeploy,
      deployment.seedDeployments[i]? = some seedDeploy ∧
        e ∈ (upgradeSeed host (worlds i) seedDeploy).effects := by
  unfold upgradeWithActions
  simp only [List.mem_flatMap, mem_seedTasks]
  constructor
  · rintro ⟨_, ⟨i, seedDeploy, hentry, rfl⟩, he⟩
    exact ⟨i, seedDeploy, hentry, he⟩
  · rintro ⟨i, seedDeploy, hentry, he⟩
    exact ⟨_, ⟨i, seedDeploy, hentry, rfl⟩, he⟩

/-- In a successful run the action of every seed was resolved; a direct restart
is one that resolved so for a rebootable seed. -/
theorem directRestart_of_success {upgrades : List Upgrade}
    (h : (upgradeWithActions host worlds deployment).ending = .ok upgrades)
    (hsuccess : deploymentResult upgrades = .success) :
    upgrades.any Upgrade.directRestart = true ↔ ∃ i seedDeploy,
      deployment.seedDeployments[i]? = some seedDeploy ∧ seedDeploy.action ≠ none ∧
        rebootable seedDeploy.seed.seedType = true ∧
        resolveAction host.tzdb (worlds i).config (worlds i).now seedDeploy
          (governing (worlds i) seedDeploy) = .ok (.action (some .restart)) := by
  have hall : ∀ upgrade ∈ upgrades, upgrade.succeeded = true := by
    unfold deploymentResult at hsuccess
    split at hsuccess
    · exact List.all_eq_true.mp ‹_›
    · split at hsuccess <;> cases hsuccess
  rw [List.any_eq_true]
  constructor
  · rintro ⟨upgrade, hmem, hrestart⟩
    obtain ⟨task, htask, hitem⟩ := (Search.mem_of_mapM_eq_ok h).mp hmem
    obtain ⟨i, seedDeploy, hentry, rfl⟩ := mem_seedTasks.mp htask
    obtain ⟨output, action, hresolved, rfl⟩ := upgradeSeed_succeeded hitem (hall upgrade hmem)
    unfold Upgrade.directRestart at hrestart
    split at hrestart
    · rename_i hshape
      simp only [Upgrade.resolved.injEq] at hshape
      obtain ⟨-, hdirect⟩ := hshape
      split at hdirect
      · rename_i hcond
        rw [hdirect] at hresolved
        exact ⟨i, seedDeploy, hentry, hcond.1, hcond.2, hresolved⟩
      · cases hdirect
    · cases hrestart
  · rintro ⟨i, seedDeploy, hentry, hdirect, hrebootable, hresolved⟩
    have htask : upgradeSeed host (worlds i) seedDeploy ∈ seedTasks host worlds deployment :=
      mem_seedTasks.mpr ⟨i, seedDeploy, hentry, rfl⟩
    obtain ⟨upgrade, hmem, hitem⟩ := Search.exists_of_mapM_eq_ok h htask
    obtain ⟨output, action, hresolved', rfl⟩ := upgradeSeed_succeeded hitem (hall upgrade hmem)
    refine ⟨_, hmem, ?_⟩
    rw [hresolved] at hresolved'
    cases hresolved'
    rw [if_pos ⟨hdirect, hrebootable⟩]
    rfl

end Tasks

end Effects

end Sower.Garden.Deployer
