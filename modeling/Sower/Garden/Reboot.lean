import Sower.PolicyMeaning
import Sower.Garden.Effects

/-!
# From a staged boot to its reboot

The permission to restart is read twice, once when the action of a seed is
resolved and again for the decision at the end of the run. Here the reboot
requests of a run are traced to both readings.
-/

namespace Sower.Garden.Deployer

open Sower.Calendar Sower.Policy Sower.Wire Traced

section Decision

variable {host : Host} {world : RebootWorld} {deployment : Deployment}

/-- Writing the decision succeeds exactly when the socket answers. -/
theorem writeRebootDecision_ending {message : String} (hne : deployment.seedDeployments ≠ []) :
    (writeRebootDecision world deployment message).ending = .ok () ↔
      world.reported = .returned () := by
  unfold writeRebootDecision
  rw [List.getLast?_eq_getLast_of_ne_nil hne]
  rw [Run.ending_perform_bind, await_ending_ok]

/-- Writing the decision requests no reboot. -/
theorem writeRebootDecision_requests {message reason : String} :
    Effect.reboot reason ∉ (writeRebootDecision world deployment message).effects := by
  unfold writeRebootDecision
  split
  · simp
  · simp

/-- What the seed's subscription, looked up at the decision, permits then. -/
def permittedAtDecision (host : Host) (world : RebootWorld) (seedDeploy : SeedDeployment) :
    Except Raise (Option Action) :=
  let subscription := (findSubscription world.subscriptions seedDeploy.subscriptionSid).getD {}
  highestPermittedAction host.tzdb subscription.policy world.now subscription.seedType
    subscription.timezone

/-- The seed is scheduled and its subscription permits a restart. -/
def PermitsRestart (host : Host) (world : RebootWorld) (seedDeploy : SeedDeployment) : Prop :=
  seedDeploy.action = none ∧ permittedAtDecision host world seedDeploy = .ok (some .restart)

/-- The seed's subscription can be read, or is not needed. -/
def Readable (host : Host) (world : RebootWorld) (seedDeploy : SeedDeployment) : Prop :=
  seedDeploy.action = none → ∃ action, permittedAtDecision host world seedDeploy = .ok action

theorem restartPermitted_nil {seedDeploy : SeedDeployment} (h : seedDeploy.action = none) :
    restartPermitted host world seedDeploy =
      (permittedAtDecision host world seedDeploy).map fun p => decide (p = some .restart) := by
  unfold restartPermitted permittedAtDecision
  rw [h]
  rfl

theorem restartPermitted_true {seedDeploy : SeedDeployment} :
    restartPermitted host world seedDeploy = .ok true ↔ PermitsRestart host world seedDeploy := by
  unfold PermitsRestart
  by_cases hnil : seedDeploy.action = none
  · rw [restartPermitted_nil hnil]
    rcases permittedAtDecision host world seedDeploy with e | permitted <;>
      simp [hnil, Except.map]
  · obtain ⟨action, haction⟩ := Option.ne_none_iff_exists'.mp hnil
    simp [restartPermitted, haction]

theorem restartPermitted_false {seedDeploy : SeedDeployment} :
    restartPermitted host world seedDeploy = .ok false ↔
      Readable host world seedDeploy ∧ ¬ PermitsRestart host world seedDeploy := by
  unfold PermitsRestart Readable
  by_cases hnil : seedDeploy.action = none
  · rw [restartPermitted_nil hnil]
    rcases permittedAtDecision host world seedDeploy with e | permitted <;>
      simp [hnil, Except.map]
  · obtain ⟨action, haction⟩ := Option.ne_none_iff_exists'.mp hnil
    simp [restartPermitted, haction]

/-- Among the rebootable seeds a first one permits a restart, and all before it
can be read. -/
def RestartPermittedAtDecision (host : Host) (world : RebootWorld) (deployment : Deployment) :
    Prop :=
  ∃ before seedDeploy after,
    rebootableSeeds deployment.seedDeployments = before ++ seedDeploy :: after ∧
      PermitsRestart host world seedDeploy ∧
      ∀ earlier ∈ before, Readable host world earlier ∧ ¬ PermitsRestart host world earlier

theorem anyM_restartPermitted :
    (rebootableSeeds deployment.seedDeployments).anyM (restartPermitted host world) = .ok true ↔
      RestartPermittedAtDecision host world deployment := by
  rw [Search.anyM_eq_ok_true]
  unfold RestartPermittedAtDecision
  simp only [restartPermitted_true, restartPermitted_false]

/-- Whether a reboot is requested behind a successful run whose system links
show a change. -/
theorem maybeReboot_requests {directRestart : Bool}
    (hrebootable : ∃ seedDeploy ∈ deployment.seedDeployments,
      rebootable seedDeploy.seed.seedType = true)
    (henabled : host.activationEnabled = true)
    (hchange : detectBootCriticalChangeReason host.home world.readLink ≠ none) :
    (∃ reason, Effect.reboot reason ∈
        (maybeReboot host world directRestart deployment .success).effects) ↔
      world.reported = .returned () ∧
        (directRestart = true ∨ RestartPermittedAtDecision host world deployment) := by
  have hany : deployment.seedDeployments.any
      (fun seedDeploy => rebootable seedDeploy.seed.seedType) = true :=
    List.any_eq_true.mpr hrebootable
  have hne : deployment.seedDeployments ≠ [] := by
    obtain ⟨seedDeploy, hmem, _⟩ := hrebootable
    exact List.ne_nil_of_mem hmem
  obtain ⟨change, hdetect⟩ := Option.ne_none_iff_exists'.mp hchange
  have hreason : (∃ reason, computeRebootReason host world directRestart
        deployment.seedDeployments = .ok (some reason)) ↔
      directRestart = true ∨ RestartPermittedAtDecision host world deployment := by
    rw [← anyM_restartPermitted]
    unfold computeRebootReason
    cases directRestart with
    | true => simp
    | false =>
      rcases (rebootableSeeds deployment.seedDeployments).anyM (restartPermitted host world) with
        e | _ | _ <;> simp [bind, Except.bind, pure, Except.pure, hdetect]
  rw [← hreason]
  unfold maybeReboot
  rw [if_pos hany, if_neg (by simp)]
  constructor
  · rintro ⟨reason, he⟩
    rcases Run.mem_effects_bind.mp he with hraise | ⟨outcome, houtcome, he⟩
    · simp at hraise
    · have hcompute := orRaise_ending_ok.mp houtcome
      cases outcome with
      | none => exact absurd he writeRebootDecision_requests
      | some why =>
        dsimp only at he
        rw [if_pos henabled] at he
        rcases Run.mem_effects_bind.mp he with hwrite | ⟨_, hwritten, _⟩
        · exact absurd hwrite writeRebootDecision_requests
        · exact ⟨(writeRebootDecision_ending hne).mp hwritten, why, hcompute⟩
  · rintro ⟨hreported, reason, hcompute⟩
    refine ⟨reason, Run.mem_effects_bind.mpr (Or.inr ⟨some reason, ?_, ?_⟩)⟩
    · exact orRaise_ending_ok.mpr hcompute
    · dsimp only
      rw [if_pos henabled]
      refine Run.mem_effects_bind.mpr (Or.inr ⟨(), ?_, ?_⟩)
      · exact (writeRebootDecision_ending hne).mpr hreported
      · rw [Run.effects_perform_bind]
        exact List.mem_cons_self

end Decision

section Run

variable {host : Host} {world : RunWorld} {deployment : Deployment}

/-- The run requests a reboot. -/
def RequestsReboot (host : Host) (world : RunWorld) (deployment : Deployment) : Prop :=
  ∃ reason, Effect.reboot reason ∈ (runWithOpts host world deployment).effects

/-- No task of a seed requests a reboot. -/
theorem upgradeSeed_requests {seedWorld : SeedWorld} {seedDeploy : SeedDeployment}
    {reason : String} : Effect.reboot reason ∉ (upgradeSeed host seedWorld seedDeploy).effects := by
  intro h
  have hall : (upgradeSeed host seedWorld seedDeploy).All fun e => e ≠ .reboot reason := by
    refine upgradeSeed_all ⟨?_, ?_⟩ ?_
    · intro sid status h
      cases h
    · intro sid result log h
      cases h
    · intro sid mode h
      cases h
  exact hall _ h rfl

/-- The requests of a run are those of its final decision. -/
theorem requestsReboot_iff {upgrades : List Upgrade}
    (h : (upgradeWithActions host world.seeds deployment).ending = .ok upgrades) :
    RequestsReboot host world deployment ↔ ∃ reason, Effect.reboot reason ∈
      (maybeReboot host world.reboot (upgrades.any Upgrade.directRestart) deployment
        (deploymentResult upgrades)).effects := by
  unfold RequestsReboot runWithOpts
  refine exists_congr fun reason => ?_
  rw [Run.mem_effects_bind]
  constructor
  · rintro (hseeds | ⟨upgrades', hupgrades', he⟩)
    · obtain ⟨i, seedDeploy, _, htask⟩ := mem_effects_upgradeWithActions.mp hseeds
      exact absurd htask upgradeSeed_requests
    · rw [h] at hupgrades'
      cases hupgrades'
      rcases Run.mem_effects_bind.mp he with hmaybe | ⟨_, _, hpure⟩
      · exact hmaybe
      · cases hpure
  · intro he
    exact Or.inr ⟨upgrades, h, Run.mem_effects_bind.mpr (Or.inl he)⟩

/-- A run that stages a boot: every seed succeeded, some rebootable seed without
a direct action was activated in boot mode because its policy permitted a
restart, and the links show a boot-critical change. -/
structure StagesBoot (host : Host) (world : RunWorld) (deployment : Deployment) : Prop where
  success : ∃ upgrades, (upgradeWithActions host world.seeds deployment).ending = .ok upgrades ∧
    deploymentResult upgrades = .success
  staged : ∃ i seedDeploy, deployment.seedDeployments[i]? = some seedDeploy ∧
    seedDeploy.seed.seedType = "nixos" ∧ seedDeploy.action = none ∧
    resolveAction host.tzdb (world.seeds i).config (world.seeds i).now seedDeploy
      (governing (world.seeds i) seedDeploy) = .ok (.action (some .restart)) ∧
    Effect.activate seedDeploy.seed.sid "boot" ∈
      (upgradeSeed host (world.seeds i) seedDeploy).effects
  enabled : host.activationEnabled = true
  changed : detectBootCriticalChangeReason host.home world.reboot.readLink ≠ none

/-- The action of some rebootable seed of a direct deployment is a restart. -/
def ResolvesDirectRestart (host : Host) (world : RunWorld) (deployment : Deployment) : Prop :=
  ∃ i seedDeploy, deployment.seedDeployments[i]? = some seedDeploy ∧ seedDeploy.action ≠ none ∧
    rebootable seedDeploy.seed.seedType = true ∧
    resolveAction host.tzdb (world.seeds i).config (world.seeds i).now seedDeploy
      (governing (world.seeds i) seedDeploy) = .ok (.action (some .restart))

/-- A staged boot is followed by its reboot exactly when the socket answers to
the decision, and either a direct seed was restarted or the policy of some
scheduled seed still permits a restart at the decision. -/
theorem requestsReboot_of_stagesBoot (h : StagesBoot host world deployment) :
    RequestsReboot host world deployment ↔
      world.reboot.reported = .returned () ∧
        (ResolvesDirectRestart host world deployment ∨
          RestartPermittedAtDecision host world.reboot deployment) := by
  obtain ⟨upgrades, hupgrades, hsuccess⟩ := h.success
  obtain ⟨i, seedDeploy, hentry, htype, _⟩ := h.staged
  have hrebootable : ∃ sd ∈ deployment.seedDeployments, rebootable sd.seed.seedType = true :=
    ⟨seedDeploy, List.mem_of_getElem? hentry, by simp [rebootable, htype]⟩
  rw [requestsReboot_iff hupgrades, hsuccess,
    maybeReboot_requests hrebootable h.enabled h.changed,
    directRestart_of_success hupgrades hsuccess]
  rfl

end Run

section Example

/-- Restarts between ten and eleven in the evening. -/
def eveningRestarts : Subscription where
  sid := some 1
  seedType := some "nixos"
  policy := .map [("evening",
    { actions := ["restart"], window := some { timeStart := "22:00", timeEnd := "23:00" } })]

def eveningHost : Host := { tzdb := .utcOnly }

def eveningDeployment : Deployment where
  sid := 7
  seedDeployments :=
    [{ seed := ⟨2, "host", "nixos", "/nix/store/new", []⟩, subscriptionSid := some 1 }]

/-- Links of a machine whose profile is newer than the running system. -/
def newProfile (path : Path) : LinkReading :=
  if path = ["nix", "var", "nix", "profiles", "system"] then
    .target ⟨true, ["nix", "store", "new"]⟩
  else .target ⟨true, ["nix", "store", "old"]⟩

/-- A run that resolves its seed at half past ten and decides five minutes
later, or late at half past eleven. -/
def eveningRun (late : Bool) : RunWorld where
  seeds := fun _ => { subscriptions := [eveningRestarts], now := 81000 * 1000000 }
  reboot := {
    subscriptions := [eveningRestarts]
    now := if late then 84600 * 1000000 else 81300 * 1000000
    readLink := newProfile }

/-- The run stages a boot, whenever it decides. -/
theorem eveningRun_stagesBoot (late : Bool) :
    StagesBoot eveningHost (eveningRun late) eveningDeployment where
  success := ⟨[.resolved (.ok []) none], by decide +revert, by decide⟩
  staged := ⟨0, _, rfl, rfl, rfl, by decide +revert, by decide +revert⟩
  enabled := rfl
  changed := by decide +revert

/-- Five minutes later the window is still open. -/
theorem requestsReboot_within_window :
    RequestsReboot eveningHost (eveningRun false) eveningDeployment ↔
      (eveningRun false).reboot.reported = .returned () ∧
        (ResolvesDirectRestart eveningHost (eveningRun false) eveningDeployment ∨
          RestartPermittedAtDecision eveningHost (eveningRun false).reboot eveningDeployment) :=
  requestsReboot_of_stagesBoot (eveningRun_stagesBoot false)

/-- A run that decides late leaves the machine staged. -/
theorem stagesBoot_without_reboot :
    ¬ (StagesBoot eveningHost (eveningRun true) eveningDeployment →
        RequestsReboot eveningHost (eveningRun true) eveningDeployment) := by
  intro h
  obtain ⟨reason, hreason⟩ := h (eveningRun_stagesBoot true)
  have heffects : (runWithOpts eveningHost (eveningRun true) eveningDeployment).effects.all
      (fun e => match e with | .reboot _ => false | _ => true) = true := by
    decide
  have hnone := List.all_eq_true.mp heffects _ hreason
  cases hnone

end Example

end Sower.Garden.Deployer
