import Sower.Garden.SeedResults

/-!
# Which runs account for all their seeds

A garden reports a result for the whole deployment after it has reported one
for each seed. Here both are compared: every seed has exactly one result, and
the result of the deployment says whether all or none of them are successes.
-/

namespace Sower.Garden.Deployer

open Sower.Calendar Sower.Policy Sower.Wire Traced

section Accounts

/-- Result that the garden reports for the deployment: a run that crashed has
failed. -/
def reportedResult (run : Step DeploymentResult) : DeploymentResult :=
  match run.ending with
  | .ok result => result
  | .error _ => .failure

/-- Each seed has exactly one terminal result, and the result of the deployment
says whether all of them, or none, are successes. -/
structure AccountsForSeeds (host : Host) (world : RunWorld) (deployment : Deployment) : Prop where
  once : ∀ sid, (sentResults (runWithOpts host world deployment).effects).countP (·.1 = sid) =
    deployment.seedDeployments.countP (·.seed.sid = sid)
  success : reportedResult (runWithOpts host world deployment) = .success ↔
    ∀ sent ∈ sentResults (runWithOpts host world deployment).effects, sent.2 = .success
  failure : reportedResult (runWithOpts host world deployment) = .failure ↔
    deployment.seedDeployments ≠ [] ∧
      ∀ sent ∈ sentResults (runWithOpts host world deployment).effects, sent.2 ≠ .success

end Accounts

section Overall

variable {host : Host} {world : RunWorld} {deployment : Deployment}

theorem writeRebootDecision_sends {rebootWorld : RebootWorld} {message : String} :
    sentResults (writeRebootDecision rebootWorld deployment message).effects = [] := by
  unfold writeRebootDecision
  split
  · rfl
  · rw [Run.effects_perform_bind, await_effects]
    rfl

/-- The decision about a reboot only appends to logs. -/
theorem maybeReboot_sends {rebootWorld : RebootWorld} {directRestart : Bool}
    {result : DeploymentResult} :
    sentResults (maybeReboot host rebootWorld directRestart deployment result).effects = [] := by
  unfold maybeReboot
  split
  · split
    · exact writeRebootDecision_sends
    · refine sentResults_bind (congrArg sentResults (orRaise_effects _)) fun reason _ => ?_
      cases reason with
      | none => exact writeRebootDecision_sends
      | some reason =>
        dsimp only
        split
        · refine sentResults_bind writeRebootDecision_sends fun _ _ => ?_
          rw [Run.effects_perform_bind, await_effects]
          rfl
        · rfl
  · rfl

/-- All terminal results of a run are those of its tasks. -/
theorem sentResults_runWithOpts : sentResults (runWithOpts host world deployment).effects =
    sentResults (upgradeWithActions host world.seeds deployment).effects := by
  unfold runWithOpts
  rcases hending : (upgradeWithActions host world.seeds deployment).ending with stop | upgrades
  · rw [Run.bind_of_error hending]
  · rw [Run.bind_of_ok hending, sentResults_append]
    have hrest : sentResults (maybeReboot host world.reboot (upgrades.any Upgrade.directRestart)
        deployment (deploymentResult upgrades) >>= fun _ =>
          (pure (deploymentResult upgrades) : Step DeploymentResult)).effects = [] :=
      sentResults_bind maybeReboot_sends fun _ _ => rfl
    rw [hrest, List.append_nil]

/-- The tasks send the results their answers settle. -/
theorem mem_sentResults {sid : Sid} {result : SeedResult} :
    (sid, result) ∈ sentResults (runWithOpts host world deployment).effects ↔ ∃ i seedDeploy,
      deployment.seedDeployments[i]? = some seedDeploy ∧ seedDeploy.seed.sid = sid ∧
        Settles host (world.seeds i) seedDeploy result := by
  have htask : ∀ i seedDeploy, (sid, result) ∈
      sentResults (upgradeSeed host (world.seeds i) seedDeploy).effects ↔
        seedDeploy.seed.sid = sid ∧ Settles host (world.seeds i) seedDeploy result := by
    intro i seedDeploy
    by_cases hsettled : ∃ result, Settles host (world.seeds i) seedDeploy result
    · obtain ⟨result', hresult'⟩ := hsettled
      obtain ⟨_, _, hsettling⟩ := upgradeSeed_settles hresult'
      rw [hsettling.sent, List.mem_singleton, Prod.mk.injEq]
      constructor
      · rintro ⟨rfl, rfl⟩
        exact ⟨rfl, hresult'⟩
      · rintro ⟨rfl, hresult⟩
        exact ⟨rfl, hresult.unique hresult'⟩
    · rw [upgradeSeed_unsettled fun result hresult => hsettled ⟨result, hresult⟩]
      constructor
      · intro h
        cases h
      · rintro ⟨_, hresult⟩
        exact absurd ⟨result, hresult⟩ hsettled
  rw [sentResults_runWithOpts]
  unfold sentResults at htask ⊢
  rw [List.mem_filterMap]
  constructor
  · rintro ⟨e, he, hterminal⟩
    obtain ⟨i, seedDeploy, hentry, hmem⟩ := mem_effects_upgradeWithActions.mp he
    have hsent := (htask i seedDeploy).mp (List.mem_filterMap.mpr ⟨e, hmem, hterminal⟩)
    exact ⟨i, seedDeploy, hentry, hsent⟩
  · rintro ⟨i, seedDeploy, hentry, hsent⟩
    obtain ⟨e, hmem, hterminal⟩ := List.mem_filterMap.mp ((htask i seedDeploy).mpr hsent)
    exact ⟨e, mem_effects_upgradeWithActions.mpr ⟨i, seedDeploy, hentry, hmem⟩, hterminal⟩

/-- The answers to every task settle its seed. -/
def AllSettle (host : Host) (world : RunWorld) (deployment : Deployment) : Prop :=
  ∀ i seedDeploy, deployment.seedDeployments[i]? = some seedDeploy →
    ∃ result, Settles host (world.seeds i) seedDeploy result

/-- The answers to every task settle its seed with a success. -/
def AllSucceed (host : Host) (world : RunWorld) (deployment : Deployment) : Prop :=
  ∀ i seedDeploy, deployment.seedDeployments[i]? = some seedDeploy →
    Settles host (world.seeds i) seedDeploy .success

/-- The answers to some task settle its seed with a success. -/
def SomeSucceeds (host : Host) (world : RunWorld) (deployment : Deployment) : Prop :=
  ∃ i seedDeploy, deployment.seedDeployments[i]? = some seedDeploy ∧
    Settles host (world.seeds i) seedDeploy .success

theorem allSucceed_iff (hsettled : AllSettle host world deployment) :
    (∀ sent ∈ sentResults (runWithOpts host world deployment).effects, sent.2 = .success) ↔
      AllSucceed host world deployment := by
  constructor
  · intro h i seedDeploy hentry
    obtain ⟨result, hresult⟩ := hsettled i seedDeploy hentry
    have hsent : result = .success :=
      h (seedDeploy.seed.sid, result) (mem_sentResults.mpr ⟨i, seedDeploy, hentry, rfl, hresult⟩)
    exact hsent ▸ hresult
  · rintro h ⟨sid, result⟩ hsent
    obtain ⟨i, seedDeploy, hentry, _, hresult⟩ := mem_sentResults.mp hsent
    exact hresult.unique (h i seedDeploy hentry)

theorem noneSucceeds_iff :
    (∀ sent ∈ sentResults (runWithOpts host world deployment).effects, sent.2 ≠ .success) ↔
      ¬ SomeSucceeds host world deployment := by
  constructor
  · rintro h ⟨i, seedDeploy, hentry, hresult⟩
    exact h (seedDeploy.seed.sid, .success)
      (mem_sentResults.mpr ⟨i, seedDeploy, hentry, rfl, hresult⟩) rfl
  · rintro h ⟨sid, result⟩ hsent hsuccess
    obtain ⟨i, seedDeploy, hentry, _, hresult⟩ := mem_sentResults.mp hsent
    have hsuccess : result = .success := hsuccess
    exact h ⟨i, seedDeploy, hentry, hsuccess ▸ hresult⟩

/-- Item of a settled seed: it counts as a success when the seed succeeded and
the socket answered to its report; a killed report ends the stream. -/
theorem streamItem_settles {seedWorld : SeedWorld} {seedDeploy : SeedDeployment} {result : SeedResult}
    (h : Settles host seedWorld seedDeploy result) :
    (seedWorld.reported = .killed ∧
      streamItem (upgradeSeed host seedWorld seedDeploy).ending = .error .killed) ∨
    (seedWorld.reported ≠ .killed ∧
      ∃ upgrade, streamItem (upgradeSeed host seedWorld seedDeploy).ending = .ok upgrade ∧
        (upgrade.succeeded = true ↔ result = .success ∧ seedWorld.reported = .returned ())) := by
  obtain ⟨upgrade, hsucceeded, hsettling⟩ := upgradeSeed_settles h
  rw [hsettling.ending]
  rcases hreported : seedWorld.reported with _ | _ | _
  · exact Or.inr ⟨by simp, upgrade, rfl, by simpa using hsucceeded⟩
  · exact Or.inr ⟨by simp, .exited, rfl, by simp [Upgrade.succeeded]⟩
  · exact Or.inl ⟨rfl, rfl⟩

/-- A run whose seeds are all settled ends its stream early exactly when a
report is killed. -/
theorem upgradeWithActions_ending (hsettled : AllSettle host world deployment) :
    (∀ i seedDeploy, deployment.seedDeployments[i]? = some seedDeploy →
        (world.seeds i).reported ≠ .killed) ↔
      ∃ upgrades, (upgradeWithActions host world.seeds deployment).ending = .ok upgrades := by
  unfold upgradeWithActions
  dsimp only
  constructor
  · intro halive
    rcases hmapM : (seedTasks host world.seeds deployment).mapM fun task => streamItem task.ending
      with stop | upgrades
    · obtain ⟨task, htask, hstop⟩ := Search.exists_of_mapM_eq_error hmapM
      obtain ⟨i, seedDeploy, hentry, rfl⟩ := mem_seedTasks.mp htask
      obtain ⟨result, hresult⟩ := hsettled i seedDeploy hentry
      rcases streamItem_settles hresult with ⟨hkilled, _⟩ | ⟨_, upgrade, hitem, _⟩
      · exact absurd hkilled (halive i seedDeploy hentry)
      · rw [hitem] at hstop
        cases hstop
    · exact ⟨upgrades, hmapM⟩
  · rintro ⟨upgrades, hupgrades⟩ i seedDeploy hentry hkilled
    obtain ⟨result, hresult⟩ := hsettled i seedDeploy hentry
    obtain ⟨upgrade, _, hitem⟩ := Search.exists_of_mapM_eq_ok hupgrades
      (mem_seedTasks.mpr ⟨i, seedDeploy, hentry, rfl⟩)
    rcases streamItem_settles hresult with ⟨_, hstop⟩ | ⟨halive, _⟩
    · rw [hstop] at hitem
      cases hitem
    · exact halive hkilled

/-- The socket answered to the report of a success. -/
def HeardSuccess (host : Host) (seedWorld : SeedWorld) (seedDeploy : SeedDeployment) : Prop :=
  Settles host seedWorld seedDeploy .success ∧ seedWorld.reported = .returned ()

/-- The overall result counts the successes that were heard. -/
theorem deploymentResult_settled (hsettled : AllSettle host world deployment)
    {upgrades : List Upgrade}
    (h : (upgradeWithActions host world.seeds deployment).ending = .ok upgrades) :
    (upgrades.all Upgrade.succeeded = true ↔
      ∀ i seedDeploy, deployment.seedDeployments[i]? = some seedDeploy →
        HeardSuccess host (world.seeds i) seedDeploy) ∧
    (upgrades.any Upgrade.succeeded = true ↔
      ∃ i seedDeploy, deployment.seedDeployments[i]? = some seedDeploy ∧
        HeardSuccess host (world.seeds i) seedDeploy) := by
  have hitem : ∀ {i seedDeploy upgrade}, deployment.seedDeployments[i]? = some seedDeploy →
      streamItem (upgradeSeed host (world.seeds i) seedDeploy).ending = .ok upgrade →
      (upgrade.succeeded = true ↔ HeardSuccess host (world.seeds i) seedDeploy) := by
    intro i seedDeploy upgrade hentry hupgrade
    obtain ⟨result, hresult⟩ := hsettled i seedDeploy hentry
    rcases streamItem_settles hresult with ⟨_, hstop⟩ | ⟨_, upgrade', hupgrade', hsucceeded⟩
    · rw [hstop] at hupgrade
      cases hupgrade
    · rw [hupgrade'] at hupgrade
      cases hupgrade
      rw [hsucceeded]
      constructor
      · rintro ⟨rfl, hreported⟩
        exact ⟨hresult, hreported⟩
      · rintro ⟨hsuccess, hreported⟩
        exact ⟨hresult.unique hsuccess, hreported⟩
  rw [List.all_eq_true, List.any_eq_true]
  constructor
  · constructor
    · intro hall i seedDeploy hentry
      obtain ⟨upgrade, hmem, hupgrade⟩ := Search.exists_of_mapM_eq_ok h
        (mem_seedTasks.mpr ⟨i, seedDeploy, hentry, rfl⟩)
      exact (hitem hentry hupgrade).mp (hall upgrade hmem)
    · intro hall upgrade hmem
      obtain ⟨task, htask, hupgrade⟩ := (Search.mem_of_mapM_eq_ok h).mp hmem
      obtain ⟨i, seedDeploy, hentry, rfl⟩ := mem_seedTasks.mp htask
      exact (hitem hentry hupgrade).mpr (hall i seedDeploy hentry)
  · constructor
    · rintro ⟨upgrade, hmem, hsucceeded⟩
      obtain ⟨task, htask, hupgrade⟩ := (Search.mem_of_mapM_eq_ok h).mp hmem
      obtain ⟨i, seedDeploy, hentry, rfl⟩ := mem_seedTasks.mp htask
      exact ⟨i, seedDeploy, hentry, (hitem hentry hupgrade).mp hsucceeded⟩
    · rintro ⟨i, seedDeploy, hentry, hheard⟩
      obtain ⟨upgrade, hmem, hupgrade⟩ := Search.exists_of_mapM_eq_ok h
        (mem_seedTasks.mpr ⟨i, seedDeploy, hentry, rfl⟩)
      exact ⟨upgrade, hmem, (hitem hentry hupgrade).mpr hheard⟩

/-- There is a reason to reboot a machine whose seeds all succeeded. -/
def RebootDue (host : Host) (world : RunWorld) (deployment : Deployment) : Prop :=
  ResolvesDirectRestart host world deployment ∨
    RestartPermittedAtDecision host world.reboot deployment ∧
      detectBootCriticalChangeReason host.home world.reboot.readLink ≠ none

/-- Every policy needed for the decision can be read, and there is no reason. -/
def NoRebootDue (host : Host) (world : RunWorld) (deployment : Deployment) : Prop :=
  ¬ ResolvesDirectRestart host world deployment ∧
    ((∀ seedDeploy ∈ rebootableSeeds deployment.seedDeployments,
        Readable host world.reboot seedDeploy ∧ ¬ PermitsRestart host world.reboot seedDeploy) ∨
      RestartPermittedAtDecision host world.reboot deployment ∧
        detectBootCriticalChangeReason host.home world.reboot.readLink = none)

/-- The calls that the decision about a reboot makes come back. -/
inductive DecisionReturns (host : Host) (world : RunWorld) (deployment : Deployment) : Prop
  | notRebootable (seedTypes : deployment.seedDeployments.any
      (fun seedDeploy => rebootable seedDeploy.seed.seedType) = false)
  | skipped (failed : ¬ AllSucceed host world deployment)
      (heard : world.reboot.reported = .returned ())
  | unneeded (all : AllSucceed host world deployment) (reason : NoRebootDue host world deployment)
      (heard : world.reboot.reported = .returned ())
  | disabled (all : AllSucceed host world deployment) (reason : RebootDue host world deployment)
      (noop : host.activationEnabled = false)
  | requested (all : AllSucceed host world deployment) (reason : RebootDue host world deployment)
      (enabled : host.activationEnabled = true) (heard : world.reboot.reported = .returned ())
      (rebooted : world.reboot.rebooted = .returned ())

/-- Reasons computed for a run all of whose seeds succeeded. -/
theorem computeRebootReason_due {directRestart : Bool}
    (hdirect : directRestart = true ↔ ResolvesDirectRestart host world deployment) :
    ((∃ reason, computeRebootReason host world.reboot directRestart deployment.seedDeployments =
        .ok (some reason)) ↔ RebootDue host world deployment) ∧
    (computeRebootReason host world.reboot directRestart deployment.seedDeployments = .ok none ↔
      NoRebootDue host world deployment) := by
  unfold RebootDue NoRebootDue
  rw [← hdirect, ← anyM_restartPermitted]
  have hfalse : (rebootableSeeds deployment.seedDeployments).anyM
      (restartPermitted host world.reboot) = .ok false ↔
        ∀ seedDeploy ∈ rebootableSeeds deployment.seedDeployments,
          Readable host world.reboot seedDeploy ∧ ¬ PermitsRestart host world.reboot seedDeploy := by
    rw [Search.anyM_eq_ok_false]
    simp only [restartPermitted_false]
  rw [← hfalse]
  unfold computeRebootReason
  cases directRestart with
  | true => simp
  | false =>
    rcases (rebootableSeeds deployment.seedDeployments).anyM (restartPermitted host world.reboot) with
      e | _ | _
    · simp [bind, Except.bind]
    · simp [bind, Except.bind, pure, Except.pure]
    · rcases detectBootCriticalChangeReason host.home world.reboot.readLink with _ | reason <;>
        simp [bind, Except.bind, pure, Except.pure]

/-- The decision comes to an end exactly when its calls come back. -/
theorem maybeReboot_ending {directRestart : Bool} {result : DeploymentResult}
    (hresult : result = .success ↔ AllSucceed host world deployment)
    (hdirect : result = .success →
      (directRestart = true ↔ ResolvesDirectRestart host world deployment)) :
    (maybeReboot host world.reboot directRestart deployment result).ending = .ok () ↔
      DecisionReturns host world deployment := by
  unfold maybeReboot
  rcases hany : deployment.seedDeployments.any
    (fun seedDeploy => rebootable seedDeploy.seed.seedType) with _ | _
  · rw [if_neg (by simp)]
    exact ⟨fun _ => .notRebootable hany, fun _ => rfl⟩
  · have hne : deployment.seedDeployments ≠ [] := by
      rintro hnil
      rw [hnil] at hany
      cases hany
    rw [if_pos rfl]
    by_cases hsuccess : result = .success
    · rw [if_neg (not_not.mpr hsuccess)]
      have hall := hresult.mp hsuccess
      obtain ⟨hdue, hnotdue⟩ := computeRebootReason_due (hdirect hsuccess)
      constructor
      · intro hending
        obtain ⟨reason, hreason, hrest⟩ := Run.ending_bind_ok.mp hending
        have hcompute := orRaise_ending_ok.mp hreason
        cases reason with
        | none =>
          exact .unneeded hall (hnotdue.mp hcompute) ((writeRebootDecision_ending hne).mp hrest)
        | some reason =>
          dsimp only at hrest
          split at hrest
          · rename_i henabled
            obtain ⟨_, hwritten, hrest⟩ := Run.ending_bind_ok.mp hrest
            rw [Run.ending_perform_bind] at hrest
            exact .requested hall (hdue.mp ⟨reason, hcompute⟩) henabled
              ((writeRebootDecision_ending hne).mp hwritten) (await_ending_ok.mp hrest)
          · rename_i hdisabled
            exact .disabled hall (hdue.mp ⟨reason, hcompute⟩) (by simpa using hdisabled)
      · intro hreturns
        cases hreturns with
        | notRebootable seedTypes =>
          rw [hany] at seedTypes
          cases seedTypes
        | skipped failed heard => exact absurd hall failed
        | unneeded _ reason heard =>
          refine Run.ending_bind_ok.mpr ⟨none, orRaise_ending_ok.mpr (hnotdue.mpr reason), ?_⟩
          exact (writeRebootDecision_ending hne).mpr heard
        | disabled _ reason noop =>
          obtain ⟨why, hwhy⟩ := hdue.mpr reason
          refine Run.ending_bind_ok.mpr ⟨some why, orRaise_ending_ok.mpr hwhy, ?_⟩
          dsimp only
          rw [noop]
          rfl
        | requested _ reason enabled heard rebooted =>
          obtain ⟨why, hwhy⟩ := hdue.mpr reason
          refine Run.ending_bind_ok.mpr ⟨some why, orRaise_ending_ok.mpr hwhy, ?_⟩
          dsimp only
          rw [if_pos enabled]
          refine Run.ending_bind_ok.mpr ⟨(), (writeRebootDecision_ending hne).mpr heard, ?_⟩
          rw [Run.ending_perform_bind]
          exact await_ending_ok.mpr rebooted
    · rw [if_pos hsuccess, writeRebootDecision_ending hne]
      have hfailed : ¬ AllSucceed host world deployment := fun hall => hsuccess (hresult.mpr hall)
      constructor
      · exact fun heard => .skipped hfailed heard
      · intro hreturns
        cases hreturns with
        | notRebootable seedTypes =>
          rw [hany] at seedTypes
          cases seedTypes
        | skipped _ heard => exact heard
        | unneeded all _ _ => exact absurd all hfailed
        | disabled all _ _ => exact absurd all hfailed
        | requested all _ _ _ _ => exact absurd all hfailed

/-- Result of a run whose stream ended: the one of its seeds when the decision
comes to an end, and a failure otherwise. -/
theorem reportedResult_of_ok {upgrades : List Upgrade}
    (h : (upgradeWithActions host world.seeds deployment).ending = .ok upgrades) :
    ((maybeReboot host world.reboot (upgrades.any Upgrade.directRestart) deployment
        (deploymentResult upgrades)).ending = .ok () ∧
      reportedResult (runWithOpts host world deployment) = deploymentResult upgrades) ∨
    ((maybeReboot host world.reboot (upgrades.any Upgrade.directRestart) deployment
        (deploymentResult upgrades)).ending ≠ .ok () ∧
      reportedResult (runWithOpts host world deployment) = .failure) := by
  unfold reportedResult runWithOpts
  rw [Run.bind_of_ok h]
  dsimp only
  rcases hmaybe : (maybeReboot host world.reboot (upgrades.any Upgrade.directRestart) deployment
    (deploymentResult upgrades)).ending with stop | _
  · rw [Run.bind_of_error hmaybe]
    exact Or.inr ⟨by simp, rfl⟩
  · rw [Run.bind_of_ok hmaybe]
    exact Or.inl ⟨rfl, rfl⟩

/-- A run whose stream ended early has failed. -/
theorem reportedResult_of_error {stop : Stop}
    (h : (upgradeWithActions host world.seeds deployment).ending = .error stop) :
    reportedResult (runWithOpts host world deployment) = .failure := by
  unfold reportedResult runWithOpts
  rw [Run.bind_of_error h]

/-- What a run with a success needs of the socket and the machine for its
result to say so. -/
structure Delivers (host : Host) (world : RunWorld) (deployment : Deployment) : Prop where
  alive : ∀ i seedDeploy, deployment.seedDeployments[i]? = some seedDeploy →
    (world.seeds i).reported ≠ .killed
  heard : ∃ i seedDeploy, deployment.seedDeployments[i]? = some seedDeploy ∧
    HeardSuccess host (world.seeds i) seedDeploy
  all : AllSucceed host world deployment → ∀ i seedDeploy,
    deployment.seedDeployments[i]? = some seedDeploy → (world.seeds i).reported = .returned ()
  decided : DecisionReturns host world deployment

theorem deploymentResult_success {upgrades : List Upgrade} :
    deploymentResult upgrades = .success ↔ upgrades.all Upgrade.succeeded = true := by
  unfold deploymentResult
  split
  · simp [*]
  · split <;> simp [*]

theorem deploymentResult_failure {upgrades : List Upgrade} :
    deploymentResult upgrades = .failure ↔
      ¬ upgrades.all Upgrade.succeeded = true ∧ ¬ upgrades.any Upgrade.succeeded = true := by
  unfold deploymentResult
  split
  · simp [*]
  · split <;> simp [*]

/-- The result of a run whose seeds are all settled and none of which succeeds. -/
theorem reportedResult_of_none (hsettled : AllSettle host world deployment)
    (hnone : ¬ SomeSucceeds host world deployment) (hne : deployment.seedDeployments ≠ []) :
    reportedResult (runWithOpts host world deployment) = .failure := by
  rcases hending : (upgradeWithActions host world.seeds deployment).ending with stop | upgrades
  · exact reportedResult_of_error hending
  · rcases reportedResult_of_ok hending with ⟨_, hresult⟩ | ⟨_, hresult⟩
    · obtain ⟨hall, hany⟩ := deploymentResult_settled hsettled hending
      rw [hresult, deploymentResult_failure, hall, hany]
      constructor
      · intro h
        obtain ⟨seedDeploy, rest, hentries⟩ := List.exists_cons_of_ne_nil hne
        have hentry : deployment.seedDeployments[0]? = some seedDeploy := by
          rw [hentries]
          rfl
        exact hnone ⟨0, seedDeploy, hentry, (h 0 seedDeploy hentry).1⟩
      · rintro ⟨i, seedDeploy, hentry, hheard⟩
        exact hnone ⟨i, seedDeploy, hentry, hheard.1⟩
    · exact hresult

/-- A run without seeds succeeds. -/
theorem reportedResult_of_nil (h : deployment.seedDeployments = []) :
    reportedResult (runWithOpts host world deployment) = .success := by
  unfold reportedResult runWithOpts upgradeWithActions seedTasks maybeReboot
  rw [h]
  rfl

/-- The result of a run with a success: its stream ended, and the decision too. -/
theorem reportedResult_of_delivers (hsettled : AllSettle host world deployment)
    (h : Delivers host world deployment) :
    (reportedResult (runWithOpts host world deployment) = .success ↔
        AllSucceed host world deployment) ∧
      reportedResult (runWithOpts host world deployment) ≠ .failure := by
  obtain ⟨upgrades, hending⟩ := (upgradeWithActions_ending hsettled).mp h.alive
  obtain ⟨hall, hany⟩ := deploymentResult_settled hsettled hending
  have hsuccess : deploymentResult upgrades = .success ↔ AllSucceed host world deployment := by
    rw [deploymentResult_success, hall]
    constructor
    · exact fun hheard i seedDeploy hentry => (hheard i seedDeploy hentry).1
    · exact fun hsucceed i seedDeploy hentry =>
        ⟨hsucceed i seedDeploy hentry, h.all hsucceed i seedDeploy hentry⟩
  have hdecided := (maybeReboot_ending hsuccess fun hsuccess =>
    directRestart_of_success hending hsuccess).mpr h.decided
  rcases reportedResult_of_ok hending with ⟨_, hresult⟩ | ⟨hundecided, _⟩
  · rw [hresult]
    refine ⟨hsuccess, ?_⟩
    rw [Ne, deploymentResult_failure]
    exact fun hfailed => hfailed.2 (hany.mpr h.heard)
  · exact absurd hdecided hundecided

/-- A run with a success whose result says so delivered everything. -/
theorem delivers_of_accounts (hsettled : AllSettle host world deployment)
    (hsome : SomeSucceeds host world deployment)
    (hsuccess : reportedResult (runWithOpts host world deployment) = .success ↔
      AllSucceed host world deployment)
    (hfailure : reportedResult (runWithOpts host world deployment) ≠ .failure) :
    Delivers host world deployment := by
  rcases hending : (upgradeWithActions host world.seeds deployment).ending with stop | upgrades
  · exact absurd (reportedResult_of_error hending) hfailure
  · obtain ⟨hall, hany⟩ := deploymentResult_settled hsettled hending
    rcases reportedResult_of_ok hending with ⟨hdecided, hresult⟩ | ⟨_, hresult⟩
    · rw [hresult] at hsuccess hfailure
      refine ⟨(upgradeWithActions_ending hsettled).mpr ⟨upgrades, hending⟩, ?_, ?_, ?_⟩
      · rw [← hany]
        by_contra hnone
        refine hfailure (deploymentResult_failure.mpr ⟨fun hsucceeded => ?_, hnone⟩)
        obtain ⟨i, seedDeploy, hentry, _⟩ := hsome
        exact hnone (hany.mpr ⟨i, seedDeploy, hentry, hall.mp hsucceeded i seedDeploy hentry⟩)
      · intro hsucceed i seedDeploy hentry
        have hheard := hall.mp (deploymentResult_success.mp (hsuccess.mpr hsucceed))
        exact (hheard i seedDeploy hentry).2
      · exact (maybeReboot_ending hsuccess fun hsuccess =>
          directRestart_of_success hending hsuccess).mp hdecided
    · exact absurd hresult hfailure

/-- A run accounts for its seeds exactly when the answers to every task settle
its seed, and a run with a success delivers what it reports. -/
theorem accountsForSeeds_iff : AccountsForSeeds host world deployment ↔
    AllSettle host world deployment ∧
      (SomeSucceeds host world deployment → Delivers host world deployment) := by
  have honce : (∀ sid, (sentResults (runWithOpts host world deployment).effects).countP
      (·.1 = sid) = deployment.seedDeployments.countP (·.seed.sid = sid)) ↔
        AllSettle host world deployment := by
    rw [sentResults_runWithOpts]
    exact sentFor_eq_iff world.seeds deployment.seedDeployments
  constructor
  · rintro ⟨once, success, failure⟩
    have hsettled := honce.mp once
    rw [allSucceed_iff hsettled] at success
    rw [noneSucceeds_iff] at failure
    refine ⟨hsettled, fun hsome => delivers_of_accounts hsettled hsome success ?_⟩
    exact fun hfailed => (failure.mp hfailed).2 hsome
  · rintro ⟨hsettled, hdelivers⟩
    refine ⟨honce.mpr hsettled, ?_, ?_⟩
    · rw [allSucceed_iff hsettled]
      by_cases hsome : SomeSucceeds host world deployment
      · exact (reportedResult_of_delivers hsettled (hdelivers hsome)).1
      · by_cases hne : deployment.seedDeployments = []
        · simp [reportedResult_of_nil hne, AllSucceed, hne]
        · rw [reportedResult_of_none hsettled hsome hne]
          obtain ⟨seedDeploy, rest, hentries⟩ := List.exists_cons_of_ne_nil hne
          have hentry : deployment.seedDeployments[0]? = some seedDeploy := by
            rw [hentries]
            rfl
          refine ⟨fun h => (by cases h), fun hall => ?_⟩
          exact absurd ⟨0, seedDeploy, hentry, hall 0 seedDeploy hentry⟩ hsome
    · rw [noneSucceeds_iff]
      by_cases hsome : SomeSucceeds host world deployment
      · have hresult := (reportedResult_of_delivers hsettled (hdelivers hsome)).2
        exact ⟨fun h => absurd h hresult, fun h => absurd hsome h.2⟩
      · by_cases hne : deployment.seedDeployments = []
        · rw [reportedResult_of_nil hne]
          exact ⟨fun h => (by cases h), fun h => absurd hne h.1⟩
        · exact ⟨fun _ => ⟨hne, hsome⟩, fun _ => reportedResult_of_none hsettled hsome hne⟩

/-- A machine whose activator refuses the connection. -/
def refusedRun : RunWorld where
  seeds := fun _ => {
    subscriptions := [eveningRestarts]
    now := 81000 * 1000000
    activated := .returned (.error "connection_refused") }
  reboot := { subscriptions := [eveningRestarts], now := 81300 * 1000000, readLink := newProfile }

/-- No result is reported for a seed whose activator refuses the connection. -/
theorem accountsForSeeds_fails_when_refused :
    ¬ AccountsForSeeds eveningHost refusedRun eveningDeployment := by
  intro h
  have hnone : sentResults (runWithOpts eveningHost refusedRun eveningDeployment).effects = [] := by
    decide
  have honce := h.once 2
  rw [hnone] at honce
  exact absurd honce (by decide)

end Overall

end Sower.Garden.Deployer
