import Sower.Garden.Reboot

/-!
# What authorizes a reboot

Every reboot request of a run is traced back to the seed that authorized it: a
direct restart carried out in this run as it was delivered, or a scheduled seed
whose subscription permits a restart at the decision. A direct action that was
clamped or only staged is neither of the two.
-/

namespace Sower.Garden.Deployer

open Sower.Calendar Sower.Policy Sower.Wire Traced

section Restart

variable {tzdb : TimeZoneDatabase} {config : Config} {now : DateTime}
  {seedDeploy : SeedDeployment} {subscription : Subscription}

/-- A clamped action is never above the delivered one. -/
theorem clampAction_restart {action : String} {permitted : Option Action}
    (h : (clampAction (some action) permitted).getD .stage = .restart) :
    Action.ofName? action = some .restart := by
  cases permitted with
  | none => cases h
  | some permitted =>
    rcases hname : Action.ofName? action with _ | delivered
    · simp [clampAction, hname] at h
    · have hmin : min delivered permitted = .restart := by simpa [clampAction, hname] using h
      have hle : Action.restart ≤ delivered := hmin ▸ min_le_left delivered permitted
      cases delivered with
      | stage => exact absurd hle (by decide)
      | activate => exact absurd hle (by decide)
      | restart => rfl

/-- A direct action that resolves to a restart was delivered as one: neither
clamping nor staging leads to a restart. -/
theorem resolveAction_restart_delivered {action : String} (haction : seedDeploy.action = some action)
    (h : resolveAction tzdb config now seedDeploy subscription = .ok (.action (some .restart))) :
    Action.ofName? action = some .restart := by
  unfold resolveAction at h
  rw [haction] at h
  dsimp only at h
  split at h
  · split at h
    · rename_i named hname
      split at h
      · simp only [Except.ok.injEq, Resolved.action.injEq, Option.some.injEq] at h
        rw [hname, h]
      · simp at h
    · simp at h
  · rcases hpermitted : highestPermittedAction tzdb config.policy now
        (some seedDeploy.seed.seedType) config.timezone with e | permitted
    · simp [hpermitted, bind, Except.bind] at h
    · have hclamped : (clampAction (some action) permitted).getD .stage = .restart := by
        simpa [hpermitted, bind, Except.bind, pure, Except.pure] using h
      exact clampAction_restart hclamped

end Restart

section Activation

variable {host : Host} {world : SeedWorld} {seedDeploy : SeedDeployment}

/-- An activation that ended well was answered by the activator, unless the
host activates nothing. -/
theorem activateSeed_answered {seed : Seed} {mode : String} {result : Activation}
    (h : (activateSeed host world seed mode).ending = .ok result)
    (henabled : host.activationEnabled = true) : world.activated = .returned result := by
  unfold activateSeed at h
  split at h
  · unfold runActivation at h
    rw [if_pos henabled, Run.ending_perform_bind] at h
    exact await_ending_ok.mp h
  · cases h

/-- A restart is always carried out through the activator. -/
theorem executeAction_restart {seed : Seed} {preamble : List String} {result : Activation}
    (h : (executeAction host world seed (some .restart) preamble).ending = .ok result)
    (henabled : host.activationEnabled = true) : world.activated = .returned result := by
  change (activateAndReport host world seed "boot" _).ending = .ok result at h
  unfold activateAndReport at h
  rw [Run.ending_perform_bind] at h
  obtain ⟨answer, hanswer, hrest⟩ := Run.ending_bind_ok.mp h
  obtain ⟨_, _, hvalue⟩ := Run.ending_bind_ok.mp hrest
  cases hvalue
  exact activateSeed_answered hanswer henabled

/-- The direct action of a rebootable seed resolved to a restart in this run,
as it was delivered, and the activator carried it out. -/
structure RestartsDirectly (host : Host) (world : SeedWorld) (seedDeploy : SeedDeployment) :
    Prop where
  rebootable : seedDeploy.seed.seedType = "nixos"
  delivered : ∃ action, seedDeploy.action = some action ∧ Action.ofName? action = some .restart
  resolved : resolveAction host.tzdb world.config world.now seedDeploy
    (governing world seedDeploy) = .ok (.action (some .restart))
  realized : ∃ output, world.realized = .returned (.ok output)
  activated : ∃ output, world.activated = .returned (.ok output)

/-- The stream's item of a direct restart tells how it came about. -/
theorem upgradeSeed_directRestart {upgrade : Upgrade}
    (h : streamItem (upgradeSeed host world seedDeploy).ending = .ok upgrade)
    (hrestart : upgrade.directRestart = true) (henabled : host.activationEnabled = true) :
    RestartsDirectly host world seedDeploy := by
  obtain ⟨output, rfl⟩ : ∃ output, upgrade = .resolved (.ok output) (some .restart) := by
    unfold Upgrade.directRestart at hrestart
    split at hrestart
    · exact ⟨_, rfl⟩
    · cases hrestart
  have hending : (upgradeSeed host world seedDeploy).ending =
      .ok (.resolved (.ok output) (some .restart)) := by
    rcases hcase : (upgradeSeed host world seedDeploy).ending with (_ | _) | u
    · rw [hcase] at h
      cases h
    · rw [hcase] at h
      cases h
    · rw [hcase] at h
      cases h
      rfl
  unfold upgradeSeed realizeTask at hending
  dsimp only at hending
  rw [Run.ending_perform_bind] at hending
  rcases hrealized : world.realized with (downloaded | downloaded) | _ | _
  · rw [hrealized] at hending
    simp only [await, Run.ending_pure] at hending
    unfold activateTask at hending
    obtain ⟨resolved, hresolved, htask⟩ := Run.ending_bind_ok.mp hending
    cases resolved with
    | action action =>
      obtain ⟨result, hresult, hitem⟩ := Run.ending_bind_ok.mp htask
      simp only [Run.ending_pure, Except.ok.injEq, Upgrade.resolved.injEq] at hitem
      obtain ⟨rfl, hdirect⟩ := hitem
      split at hdirect
      · rename_i hcond
        subst hdirect
        obtain ⟨name, hname⟩ := Option.ne_none_iff_exists'.mp hcond.1
        have hresolve := orRaise_ending_ok.mp hresolved
        exact {
          rebootable := by simpa [Deployer.rebootable] using hcond.2
          delivered := ⟨name, hname, resolveAction_restart_delivered hname hresolve⟩
          resolved := hresolve
          realized := ⟨downloaded, hrealized⟩
          activated := ⟨output, executeAction_restart hresult henabled⟩ }
      · cases hdirect
    | unsupportedAction =>
      obtain ⟨_, _, hitem⟩ := Run.ending_bind_ok.mp htask
      cases hitem
  · rw [hrealized] at hending
    simp only [await, Run.ending_pure] at hending
    obtain ⟨_, _, hitem⟩ := Run.ending_bind_ok.mp hending
    cases hitem
  · rw [hrealized] at hending
    cases hending
  · rw [hrealized] at hending
    cases hending

end Activation

section Request

variable {host : Host} {world : RunWorld} {deployment : Deployment}

/-- A reboot is requested only behind a success and for a computed reason, on a
host that activates. -/
theorem reboot_mem_maybeReboot {rebootWorld : RebootWorld} {directRestart : Bool}
    {result : DeploymentResult} {reason : String}
    (h : Effect.reboot reason ∈
      (maybeReboot host rebootWorld directRestart deployment result).effects) :
    result = .success ∧ host.activationEnabled = true ∧
      computeRebootReason host rebootWorld directRestart deployment.seedDeployments =
        .ok (some reason) := by
  unfold maybeReboot at h
  split at h
  · split at h
    · exact absurd h writeRebootDecision_requests
    · rename_i hsuccess
      rcases Run.mem_effects_bind.mp h with hraise | ⟨computed, hcomputed, h⟩
      · simp at hraise
      · have hcompute := orRaise_ending_ok.mp hcomputed
        cases computed with
        | none => exact absurd h writeRebootDecision_requests
        | some why =>
          dsimp only at h
          split at h
          · rename_i henabled
            rcases Run.mem_effects_bind.mp h with hwrite | ⟨_, _, h⟩
            · exact absurd hwrite writeRebootDecision_requests
            · rw [Run.effects_perform_bind, List.mem_cons, await_effects] at h
              rcases h with hreason | hnone
              · cases hreason
                exact ⟨not_not.mp hsuccess, henabled, hcompute⟩
              · cases hnone
          · cases h
  · cases h

/-- A reason is a direct restart, or a boot-critical change that a scheduled
seed may restart for. -/
theorem computeRebootReason_cases {rebootWorld : RebootWorld} {directRestart : Bool}
    {seedDeployments : List SeedDeployment} {reason : String}
    (h : computeRebootReason host rebootWorld directRestart seedDeployments = .ok (some reason)) :
    directRestart = true ∨
      (rebootableSeeds seedDeployments).anyM (restartPermitted host rebootWorld) = .ok true ∧
        detectBootCriticalChangeReason host.home rebootWorld.readLink = some reason := by
  unfold computeRebootReason at h
  split at h
  · rename_i hdirect
    exact Or.inl hdirect
  · right
    rcases hany : (rebootableSeeds seedDeployments).anyM (restartPermitted host rebootWorld) with
      e | permitted
    · simp [hany, bind, Except.bind] at h
    · cases permitted with
      | false => simp [hany, bind, Except.bind, pure, Except.pure] at h
      | true => exact ⟨rfl, by simpa [hany, bind, Except.bind, pure, Except.pure] using h⟩

/-- The empty subscription that stands for an unknown one permits no restart. -/
theorem PermitsRestart.subscribed {rebootWorld : RebootWorld} {seedDeploy : SeedDeployment}
    (h : PermitsRestart host rebootWorld seedDeploy) : ∃ subscription,
      findSubscription rebootWorld.subscriptions seedDeploy.subscriptionSid = some subscription := by
  obtain ⟨_, hpermitted⟩ := h
  rcases hfind : findSubscription rebootWorld.subscriptions seedDeploy.subscriptionSid with
    _ | subscription
  · unfold permittedAtDecision at hpermitted
    rw [hfind] at hpermitted
    have hnothing : highestPermittedAction host.tzdb (.map []) rebootWorld.now none none =
        .ok none := rfl
    exact absurd (hnothing.symm.trans hpermitted) (by simp)
  · exact ⟨subscription, rfl⟩

/-- A scheduled seed authorizes a reboot: its subscription permits a restart at
the decision, and the links show a boot-critical change. -/
structure RestartsOnSchedule (host : Host) (world : RebootWorld) (seedDeploy : SeedDeployment) :
    Prop where
  rebootable : seedDeploy.seed.seedType = "nixos"
  subscribed : ∃ subscription,
    findSubscription world.subscriptions seedDeploy.subscriptionSid = some subscription
  permitted : PermitsRestart host world seedDeploy
  changed : detectBootCriticalChangeReason host.home world.readLink ≠ none

/-- The run succeeded with every seed, and one of them authorizes the reboot. -/
structure RebootAuthorized (host : Host) (world : RunWorld) (deployment : Deployment) : Prop where
  success : ∃ upgrades, (upgradeWithActions host world.seeds deployment).ending = .ok upgrades ∧
    deploymentResult upgrades = .success
  cause : ∃ i seedDeploy, deployment.seedDeployments[i]? = some seedDeploy ∧
    (RestartsDirectly host (world.seeds i) seedDeploy ∨
      RestartsOnSchedule host world.reboot seedDeploy)

/-- A run requests a reboot only when a seed of it authorizes one. -/
theorem requestsReboot_authorized (h : RequestsReboot host world deployment) :
    RebootAuthorized host world deployment := by
  obtain ⟨reason, hreason⟩ := h
  obtain ⟨upgrades, hupgrades⟩ : ∃ upgrades,
      (upgradeWithActions host world.seeds deployment).ending = .ok upgrades := by
    unfold runWithOpts at hreason
    rcases Run.mem_effects_bind.mp hreason with hseeds | ⟨upgrades, hupgrades, _⟩
    · obtain ⟨i, seedDeploy, _, htask⟩ := mem_effects_upgradeWithActions.mp hseeds
      exact absurd htask upgradeSeed_requests
    · exact ⟨upgrades, hupgrades⟩
  obtain ⟨why, hwhy⟩ := (requestsReboot_iff hupgrades).mp ⟨reason, hreason⟩
  obtain ⟨hsuccess, henabled, hcompute⟩ := reboot_mem_maybeReboot hwhy
  refine ⟨⟨upgrades, hupgrades, hsuccess⟩, ?_⟩
  rcases computeRebootReason_cases hcompute with hdirect | ⟨hscheduled, hchange⟩
  · obtain ⟨upgrade, hmem, hrestart⟩ := List.any_eq_true.mp hdirect
    obtain ⟨task, htask, hitem⟩ := (Search.mem_of_mapM_eq_ok hupgrades).mp hmem
    obtain ⟨i, seedDeploy, hentry, rfl⟩ := mem_seedTasks.mp htask
    exact ⟨i, seedDeploy, hentry, Or.inl (upgradeSeed_directRestart hitem hrestart henabled)⟩
  · obtain ⟨before, seedDeploy, after, hsplit, hpermits, _⟩ := anyM_restartPermitted.mp hscheduled
    have hmem : seedDeploy ∈ rebootableSeeds deployment.seedDeployments := by
      rw [hsplit]
      simp
    obtain ⟨hentry, htype⟩ := List.mem_filter.mp hmem
    obtain ⟨i, hi⟩ := List.mem_iff_getElem?.mp hentry
    refine ⟨i, seedDeploy, hi, Or.inr ⟨?_, hpermits.subscribed, hpermits, ?_⟩⟩
    · simpa [Deployer.rebootable] using htype
    · rw [hchange]
      exact Option.some_ne_none why

/-- The evening run that decides in time requests its reboot under its
subscription. -/
theorem requestsReboot_authorized_evening :
    RebootAuthorized eveningHost (eveningRun false) eveningDeployment :=
  requestsReboot_authorized ⟨"system_changed", by decide⟩

end Request

end Sower.Garden.Deployer
