import Sower.PolicyMeaning
import Sower.Garden.Effects

/-!
# What a garden activates against what its policies permit

The deployer resolves an action for each seed and turns it into a mode. Here
the activations of a run are compared with the actions that the subscription's
policy, the dispatching evaluation and the garden's own policy permit.
-/

namespace Sower.Garden.Deployer

open Sower.Calendar Sower.Policy Sower.Wire

section DefaultDeny

/-- Entry `i` of a deployment carries no action, and the subscription it names
is stored with a seed type. -/
structure Scheduled (worlds : ℕ → SeedWorld) (deployment : Deployment) (i : ℕ)
    (seedDeploy : SeedDeployment) (subscription : Subscription) : Prop where
  entry : deployment.seedDeployments[i]? = some seedDeploy
  nilAction : seedDeploy.action = none
  stored : findSubscription (worlds i).subscriptions seedDeploy.subscriptionSid = some subscription
  typed : subscription.seedType ≠ none

/-- Every scheduled seed of the run is activated only in the mode of an action
that its policy grants at the time the garden looks. -/
def ActivatesAsGranted (host : Host) (worlds : ℕ → SeedWorld) (deployment : Deployment) : Prop :=
  ∀ i seedDeploy subscription, Scheduled worlds deployment i seedDeploy subscription →
    ∀ sid mode, Effect.activate sid mode ∈ (upgradeSeed host (worlds i) seedDeploy).effects →
      ∃ action, Grants host.tzdb subscription.policy (worlds i).now subscription.seedType
          subscription.timezone action ∧
        actionToMode (some action) seedDeploy.seed.seedType = some mode

variable {host : Host} {worlds : ℕ → SeedWorld} {deployment : Deployment}

/-- The garden resolves a scheduled seed to what its subscription permits. -/
theorem Scheduled.resolveAction {i : ℕ} {seedDeploy : SeedDeployment} {subscription : Subscription}
    (h : Scheduled worlds deployment i seedDeploy subscription) (tzdb : TimeZoneDatabase)
    {action : Option Action} :
    Deployer.resolveAction tzdb (worlds i).config (worlds i).now seedDeploy
        (governing (worlds i) seedDeploy) = .ok (.action action) ↔
      highestPermittedAction tzdb subscription.policy (worlds i).now subscription.seedType
        subscription.timezone = .ok action := by
  have hgoverning : governing (worlds i) seedDeploy = subscription := by
    simp only [governing, h.stored, Option.getD_some]
  rw [hgoverning]
  unfold Deployer.resolveAction
  rw [h.nilAction]
  dsimp only
  rcases highestPermittedAction tzdb subscription.policy (worlds i).now subscription.seedType
    subscription.timezone with e | permitted <;>
    simp [bind, Except.bind, pure, Except.pure]

/-- Scheduled seeds are activated as granted exactly when each one that the
activator is called for has a rule for a supported action that is not closed. -/
theorem activatesAsGranted_iff :
    ActivatesAsGranted host worlds deployment ↔
      ∀ i seedDeploy subscription, Scheduled worlds deployment i seedDeploy subscription →
        (∃ output, (worlds i).realized = .returned (.ok output)) →
        Activatable host seedDeploy.seed →
        ∃ action ∈ actionsBySeedType subscription.seedType,
          ∃ rule ∈ subscription.policy.effective, actionMatches rule action = true ∧
            ¬ Closed host.tzdb (worlds i).now subscription.timezone rule := by
  constructor
  · intro h i seedDeploy subscription hscheduled hrealized hcan
    by_contra hnone
    push Not at hnone
    have hpermitted := highestPermittedAction_none.mpr hnone
    have hresolved := (hscheduled.resolveAction host.tzdb).mpr hpermitted
    obtain ⟨action, ⟨hsupported, rule, hrule, hmatch, hopen⟩, -⟩ :=
      h i seedDeploy subscription hscheduled seedDeploy.seed.sid "switch"
        (activate_mem_upgradeSeed.mpr ⟨hrealized, hcan, rfl, none, hresolved, rfl⟩)
    exact hopen.not_closed (hnone action hsupported rule hrule hmatch)
  · intro h i seedDeploy subscription hscheduled sid mode heffect
    obtain ⟨hrealized, hcan, -, action, hresolved, hmode⟩ := activate_mem_upgradeSeed.mp heffect
    have hpermitted := (hscheduled.resolveAction host.tzdb).mp hresolved
    cases action with
    | some action => exact ⟨action, (highestPermittedAction_some hpermitted).1, hmode⟩
    | none =>
      obtain ⟨action, hsupported, rule, hrule, hmatch, hnot⟩ :=
        h i seedDeploy subscription hscheduled hrealized hcan
      exact absurd (highestPermittedAction_none.mp hpermitted action hsupported rule hrule hmatch)
        hnot

/-- A subscription that may be activated at night only. -/
def nightly : Subscription where
  sid := some 1
  seedType := some "nixos"
  policy := .map [("night",
    { actions := ["activate"], window := some { timeStart := "22:00", timeEnd := "06:00" } })]

/-- A scheduled deployment of one machine. -/
def scheduledDeployment : Deployment where
  sid := 7
  seedDeployments :=
    [{ seed := ⟨2, "host", "nixos", "/nix/store/host", []⟩, subscriptionSid := some 1 }]

/-- A host without a time zone database. -/
def plainHost : Host := { tzdb := .utcOnly }

/-- Noon of a Thursday, at which the garden handles each seed. -/
def atNoon : ℕ → SeedWorld := fun _ => { subscriptions := [nightly], now := 12 * 3600 * 1000000 }

/-- At noon nothing is permitted, and the garden switches to the new system. -/
theorem activatesAsGranted_fails_at_noon :
    ¬ ActivatesAsGranted plainHost atNoon scheduledDeployment := by
  intro h
  have hscheduled : Scheduled atNoon scheduledDeployment 0
      { seed := ⟨2, "host", "nixos", "/nix/store/host", []⟩, subscriptionSid := some 1 } nightly :=
    ⟨rfl, rfl, rfl, by decide⟩
  obtain ⟨action, ⟨hsupported, rule, hrule, hmatch, hopen⟩, -⟩ :=
    h 0 _ nightly hscheduled 2 "switch" (by decide)
  have hclosed : highestPermittedAction TimeZoneDatabase.utcOnly nightly.policy
      (12 * 3600 * 1000000) nightly.seedType nightly.timezone = .ok none := by
    decide
  exact hopen.not_closed (highestPermittedAction_none.mp hclosed action hsupported rule hrule hmatch)

end DefaultDeny

section Dispatch

variable {tzdb : TimeZoneDatabase} {config : Config} {now : DateTime} {seedDeploy : SeedDeployment}
  {subscription : Subscription} {trigger : Trigger}

end Dispatch

section Direct

variable {tzdb : TimeZoneDatabase} {config : Config} {now : DateTime} {seedDeploy : SeedDeployment}
  {subscription : Subscription}

/-- The garden's policy would have let the server dispatch the action directly. -/
def AllowsDirect (tzdb : TimeZoneDatabase) (config : Config) (now : DateTime) (seedType : String)
    (action : Action) : Prop :=
  evaluateAction tzdb config.policy action.name .direct now (some seedType) config.timezone =
    .ok (.allow action)

theorem allowsDirect_iff {seedType : String} {action : Action} :
    AllowsDirect tzdb config now seedType action ↔
      Authorizes tzdb config.policy now (some seedType) config.timezone .direct action := by
  unfold AllowsDirect
  rw [evaluateAction_allow]
  exact and_iff_right rfl

/-- What is executed stays below an action the local policy allows directly,
is itself allowed unless it only stages, and only stages where nothing is
allowed. -/
structure Clamped (tzdb : TimeZoneDatabase) (config : Config) (now : DateTime) (seedType : String)
    (executed : Action) : Prop where
  bounded : (∃ action, AllowsDirect tzdb config now seedType action) →
    ∃ action, AllowsDirect tzdb config now seedType action ∧ executed ≤ action
  staged : (∀ action, ¬ AllowsDirect tzdb config now seedType action) → executed = .stage
  allowed : executed ≠ .stage → AllowsDirect tzdb config now seedType executed

/-- All that matters is whether an action above staging is itself allowed. -/
theorem clamped_iff {seedType : String} {executed : Action} :
    Clamped tzdb config now seedType executed ↔
      (executed ≠ .stage → AllowsDirect tzdb config now seedType executed) := by
  refine ⟨fun h => h.allowed, fun h => ?_⟩
  by_cases hstage : executed = .stage
  · subst hstage
    exact ⟨fun ⟨action, haction⟩ => ⟨action, haction, action.stage_le⟩, fun _ => rfl, h⟩
  · have hallowed := h hstage
    exact ⟨fun _ => ⟨executed, hallowed, le_rfl⟩, fun hnone => absurd hallowed (hnone executed), h⟩

/-- What the rules in force make of a delivered action, whatever their
triggers: the action itself below a granted one, else the greatest granted. -/
def LocallyGranted (tzdb : TimeZoneDatabase) (config : Config) (now : DateTime) (seedType : String)
    (delivered executed : Action) : Prop :=
  (executed = delivered ∧
    ∃ granted, Grants tzdb config.policy now (some seedType) config.timezone granted ∧
      delivered ≤ granted) ∨
  (executed < delivered ∧
    IsGreatest {a | Grants tzdb config.policy now (some seedType) config.timezone a} executed)

/-- A delivered action and the greatest granted one leave their minimum. -/
theorem locallyGranted_iff {seedType : String} {delivered permitted executed : Action}
    (h : IsGreatest {a | Grants tzdb config.policy now (some seedType) config.timezone a}
      permitted) :
    LocallyGranted tzdb config now seedType delivered executed ↔
      executed = min delivered permitted := by
  constructor
  · rintro (⟨rfl, granted, hgranted, hle⟩ | ⟨hlt, hgreatest⟩)
    · exact (min_eq_left (hle.trans (h.2 hgranted))).symm
    · have heq : executed = permitted := hgreatest.unique h
      subst heq
      exact (min_eq_right hlt.le).symm
  · rintro rfl
    rcases le_or_gt delivered permitted with hle | hlt
    · rw [min_eq_left hle]
      exact Or.inl ⟨rfl, permitted, h.1, hle⟩
    · rw [min_eq_right hlt.le]
      exact Or.inr ⟨hlt, h⟩

/-- Every action a delivered one without override can resolve to is clamped. -/
def ClampsDirect (tzdb : TimeZoneDatabase) (config : Config) (now : DateTime)
    (seedDeploy : SeedDeployment) (subscription : Subscription) : Prop :=
  ∀ executed, resolveAction tzdb config now seedDeploy subscription =
    .ok (.action (some executed)) → Clamped tzdb config now seedDeploy.seed.seedType executed

/-- A direct action without override resolves to its clamped value, else it is
only staged. -/
theorem resolveAction_direct {action : String} (haction : seedDeploy.action = some action)
    (hoverride : seedDeploy.override = false) {executed : Action} :
    resolveAction tzdb config now seedDeploy subscription = .ok (.action (some executed)) ↔
      ∃ permitted, highestPermittedAction tzdb config.policy now (some seedDeploy.seed.seedType)
        config.timezone = .ok permitted ∧
        executed = (clampAction (some action) permitted).getD .stage := by
  unfold resolveAction
  rw [haction]
  dsimp only
  rw [hoverride]
  rcases highestPermittedAction tzdb config.policy now (some seedDeploy.seed.seedType)
    config.timezone with e | permitted <;>
    simp [bind, Except.bind, pure, Except.pure, eq_comm]

/-- Direct actions are clamped exactly when the local policy cannot be read, or
whatever its rules in force make of the action only stages or is authorized
under the direct trigger. -/
theorem clampsDirect_iff {action : String} (haction : seedDeploy.action = some action)
    (hoverride : seedDeploy.override = false) :
    ClampsDirect tzdb config now seedDeploy subscription ↔
      (∃ e, highestPermittedAction tzdb config.policy now (some seedDeploy.seed.seedType)
        config.timezone = .error e) ∨
      ∀ delivered executed, Action.ofName? action = some delivered →
        LocallyGranted tzdb config now seedDeploy.seed.seedType delivered executed →
        executed = .stage ∨ Authorizes tzdb config.policy now (some seedDeploy.seed.seedType)
          config.timezone .direct executed := by
  unfold ClampsDirect
  simp only [resolveAction_direct haction hoverride, clamped_iff, allowsDirect_iff]
  rcases hpermitted : highestPermittedAction tzdb config.policy now
      (some seedDeploy.seed.seedType) config.timezone with e | _ | permitted
  · simp
  · have hnone := highestPermittedAction_none.mp hpermitted
    have hstaged : (clampAction (some action) none).getD .stage = .stage := rfl
    simp only [Except.ok.injEq, exists_eq_left', hstaged, reduceCtorEq, exists_false, false_or]
    constructor
    · intro _ delivered executed _ hgranted
      have hgrants : ∃ a, Grants tzdb config.policy now (some seedDeploy.seed.seedType)
          config.timezone a := by
        rcases hgranted with ⟨_, granted, h, _⟩ | ⟨_, h⟩
        · exact ⟨granted, h⟩
        · exact ⟨executed, h.1⟩
      obtain ⟨a, hsupported, rule, hrule, hmatch, hopen⟩ := hgrants
      exact absurd (hnone a hsupported rule hrule hmatch) hopen.not_closed
    · rintro _ executed rfl hstage
      exact absurd rfl hstage
  · have hgreatest := highestPermittedAction_some hpermitted
    simp only [Except.ok.injEq, exists_eq_left', reduceCtorEq, exists_false, false_or,
      locallyGranted_iff hgreatest]
    rcases hname : Action.ofName? action with _ | delivered
    · simp [clampAction, hname]
    · simp only [clampAction, hname, Option.map_some, Option.getD_some, Option.some.injEq]
      constructor
      · rintro h _ executed rfl rfl
        by_cases hstage : min delivered permitted = .stage
        · exact Or.inl hstage
        · exact Or.inr (h _ rfl hstage)
      · rintro h executed rfl hstage
        exact (h delivered _ rfl rfl).resolve_left hstage

/-- A machine whose policy allows direct actions activates the delivered one. -/
def directAllowed : Config where
  policy := .map [("direct", { actions := ["activate"], triggers := some ["direct"] })]

/-- A direct activation of one machine. -/
def directActivation : SeedDeployment where
  seed := ⟨2, "host", "nixos", "/nix/store/host", []⟩
  action := some "activate"

theorem clampsDirect_iff_directAllowed :
    ClampsDirect .utcOnly directAllowed 0 directActivation {} ↔
      (∃ e, highestPermittedAction .utcOnly directAllowed.policy 0 (some "nixos") none =
        .error e) ∨
      ∀ delivered executed, Action.ofName? "activate" = some delivered →
        LocallyGranted .utcOnly directAllowed 0 "nixos" delivered executed →
        executed = .stage ∨
          Authorizes .utcOnly directAllowed.policy 0 (some "nixos") none .direct executed :=
  clampsDirect_iff (show directActivation.action = some "activate" from rfl) rfl

/-- A garden without a policy activates, although its policy allows no direct
action at all. -/
theorem clampsDirect_fails_without_policy : ¬ ClampsDirect .utcOnly {} 0 directActivation {} := by
  intro h
  have hallowed := (h .activate (by decide)).allowed (by decide)
  have hdenied : evaluateAction .utcOnly ({} : Config).policy "activate" .direct 0 (some "nixos")
      none = .ok .deny := by
    decide
  have hboth : (.ok .deny : Except Raise Decision) = .ok (.allow .activate) :=
    hdenied.symm.trans hallowed
  simp at hboth

end Direct

end Sower.Garden.Deployer
