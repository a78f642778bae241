import Sower.Garden.Reboot

/-!
# Results that a run reports for its seeds

The task of a seed has many ways to end. Here the result it reports is derived
from what the store, the policies and the activator answered to it: some
answers settle the seed with one result, and the others leave it without.
-/

namespace Sower.Garden.Deployer

open Sower.Calendar Sower.Policy Sower.Wire Traced

section Sent

/-- Terminal result of a seed that the effect reports. -/
def Effect.terminal? : Effect → Option (Sid × SeedResult)
  | .result seed (some outcome) _ => some (seed, outcome)
  | _ => none

/-- The terminal results among the effects, in order. -/
def sentResults (effects : List Effect) : List (Sid × SeedResult) :=
  effects.filterMap Effect.terminal?

@[simp] theorem sentResults_nil : sentResults [] = [] := rfl

@[simp] theorem sentResults_append (first second : List Effect) :
    sentResults (first ++ second) = sentResults first ++ sentResults second :=
  List.filterMap_append

@[simp] theorem sentResults_result (seed : Sid) (result : SeedResult) (log : List String)
    (rest : List Effect) :
    sentResults (.result seed (some result) log :: rest) = (seed, result) :: sentResults rest := rfl

@[simp] theorem sentResults_log (seed : Sid) (log : List String) (rest : List Effect) :
    sentResults (.result seed none log :: rest) = sentResults rest := rfl

@[simp] theorem sentResults_status (seed : Sid) (status : SeedStatus) (rest : List Effect) :
    sentResults (.status seed status :: rest) = sentResults rest := rfl

@[simp] theorem sentResults_activate (seed : Sid) (mode : String) (rest : List Effect) :
    sentResults (.activate seed mode :: rest) = sentResults rest := rfl

@[simp] theorem sentResults_reboot (reason : String) (rest : List Effect) :
    sentResults (.reboot reason :: rest) = sentResults rest := rfl

end Sent

section Settled

variable {host : Host} {world : SeedWorld} {seedDeploy : SeedDeployment}

/-- The answer of the activator to a call in any mode is reported as this
result. -/
inductive ActivationSettles (host : Host) (world : SeedWorld) : SeedResult → Prop
  | noop (disabled : host.activationEnabled = false) : ActivationSettles host world .success
  | activated {output : List String} (enabled : host.activationEnabled = true)
      (answer : world.activated = .returned (.ok output)) : ActivationSettles host world .success
  | failed {code : ℤ} {output : List String} (enabled : host.activationEnabled = true)
      (answer : world.activated = .returned (.failed code output)) :
      ActivationSettles host world .failure
  /-- The activator or its command is missing. -/
  | missing {reason : String} (enabled : host.activationEnabled = true)
      (answer : world.activated = .returned (.error reason))
      (known : reason = "activator_unavailable" ∨ reason = "cmd_not_found") :
      ActivationSettles host world .failure

/-- The answers to the task of a seed lead to a report of this result. -/
inductive Settles (host : Host) (world : SeedWorld) (seedDeploy : SeedDeployment) :
    SeedResult → Prop
  | notRealized {output : List String} (answer : world.realized = .returned (.failed output)) :
      Settles host world seedDeploy .failure
  | unsupported {output : List String} (realized : world.realized = .returned (.ok output))
      (resolved : resolveAction host.tzdb world.config world.now seedDeploy
        (governing world seedDeploy) = .ok .unsupportedAction) :
      Settles host world seedDeploy .failure
  | staged {output : List String} {action : Option Action}
      (realized : world.realized = .returned (.ok output))
      (resolved : resolveAction host.tzdb world.config world.now seedDeploy
        (governing world seedDeploy) = .ok (.action action))
      (unneeded : actionToMode action seedDeploy.seed.seedType = none) :
      Settles host world seedDeploy .success
  | activated {output : List String} {action : Option Action} {mode : String}
      {result : SeedResult} (realized : world.realized = .returned (.ok output))
      (resolved : resolveAction host.tzdb world.config world.now seedDeploy
        (governing world seedDeploy) = .ok (.action action))
      (needed : actionToMode action seedDeploy.seed.seedType = some mode)
      (seedType : seedDeploy.seed.seedType = "home-manager" ∨ seedDeploy.seed.seedType = "nixos")
      (answer : ActivationSettles host world result) : Settles host world seedDeploy result

/-- The program reports one result for the seed and then waits for the socket;
the value is there once the socket has answered. -/
structure Settling {α : Type} (sid : Sid) (result : SeedResult) (reported : Answer Unit) (value : α)
    (run : Step α) : Prop where
  sent : sentResults run.effects = [(sid, result)]
  ending : run.ending = (await reported).ending.map fun _ => value

section Settling

variable {α β : Type} {sid : Sid} {result : SeedResult} {reported : Answer Unit} {value : α}

/-- A step before the report that sends nothing and has a value. -/
theorem Settling.after {first : Step β} {b : β} {next : β → Step α}
    (hsilent : sentResults first.effects = []) (hfirst : first.ending = .ok b)
    (h : Settling sid result reported value (next b)) :
    Settling sid result reported value (first >>= next) := by
  rw [Run.bind_of_ok hfirst]
  refine ⟨?_, h.ending⟩
  rw [sentResults_append, hsilent, List.nil_append]
  exact h.sent

/-- One effect other than a result before the report. -/
theorem Settling.perform {effect : Effect} {next : PUnit → Step α}
    (hsilent : sentResults [effect] = []) (h : Settling sid result reported value (next ⟨⟩)) :
    Settling sid result reported value (Run.perform effect >>= next) :=
  .after hsilent rfl h

/-- A value computed behind the report. -/
theorem Settling.returning {run : Step α} (h : Settling sid result reported value run) (f : α → β) :
    Settling sid result reported (f value) (run >>= fun a => pure (f a)) := by
  have hending := h.ending
  rcases hreported : await reported with ⟨_, _ | _⟩
  · rw [hreported] at hending
    rw [Run.bind_of_error hending]
    exact ⟨h.sent, by rw [hreported]; rfl⟩
  · rw [hreported] at hending
    rw [Run.bind_of_ok hending]
    refine ⟨?_, by rw [hreported]; rfl⟩
    rw [sentResults_append, h.sent]
    rfl

theorem settling_report (world : SeedWorld) (seed : Seed) (result : SeedResult) (log : List String) :
    Settling seed.sid result world.reported () (reportSeedResult world seed result log) := by
  unfold reportSeedResult
  refine ⟨?_, ?_⟩
  · rw [Run.effects_perform_bind, await_effects]
    rfl
  · rw [Run.ending_perform_bind]
    cases world.reported <;> rfl

end Settling

theorem settling_stageOnly (world : SeedWorld) (seed : Seed) (preamble : List String) :
    Settling seed.sid .success world.reported (.ok ["staged"]) (stageOnly world seed preamble) :=
  .perform rfl ((settling_report world seed _ _).returning fun _ => _)

/-- The activator is asked and answers, or is not needed. -/
theorem activateSeed_settles {seed : Seed} (mode : String) {result : SeedResult}
    (htype : seed.seedType = "home-manager" ∨ seed.seedType = "nixos")
    (h : ActivationSettles host world result) :
    ∃ answer, (activateSeed host world seed mode).ending = .ok answer ∧
      ((∃ output, answer = .ok output) ↔ result = .success) ∧
      ∀ preamble, Settling seed.sid result world.reported ()
        (reportActivation world seed preamble answer) := by
  unfold activateSeed runActivation
  rw [if_pos htype]
  have hsuccess : ∀ output preamble, Settling seed.sid .success world.reported ()
      (reportActivation world seed preamble (.ok output)) := fun output preamble =>
    .perform rfl (settling_report world seed _ _)
  cases h with
  | noop disabled =>
    rw [disabled]
    exact ⟨.ok ["noop"], rfl, by simp, fun preamble => hsuccess _ preamble⟩
  | @activated output enabled answer =>
    rw [if_pos enabled, Run.ending_perform_bind, answer]
    exact ⟨.ok output, rfl, by simp, fun preamble => hsuccess _ preamble⟩
  | @failed code output enabled answer =>
    rw [if_pos enabled, Run.ending_perform_bind, answer]
    exact ⟨.failed code output, rfl, by simp, fun preamble => settling_report world seed _ _⟩
  | @missing reason enabled answer known =>
    rw [if_pos enabled, Run.ending_perform_bind, answer]
    refine ⟨.error reason, rfl, by simp, fun preamble => ?_⟩
    rw [reportActivation, if_pos known]
    exact settling_report world seed _ _

/-- Activating a seed sends no result by itself. -/
theorem activateSeed_sends (host : Host) (world : SeedWorld) (seed : Seed) (mode : String) :
    sentResults (activateSeed host world seed mode).effects = [] := by
  unfold activateSeed runActivation
  split
  · split
    · rw [Run.effects_perform_bind, await_effects]
      rfl
    · rfl
  · rfl

/-- The second stage of a seed whose activator answers. -/
theorem settling_activateAndReport {seed : Seed} (mode : String) {result : SeedResult}
    (htype : seed.seedType = "home-manager" ∨ seed.seedType = "nixos")
    (h : ActivationSettles host world result) :
    ∃ answer, ((∃ output, answer = .ok output) ↔ result = .success) ∧
      ∀ preamble, Settling seed.sid result world.reported answer
        (activateAndReport host world seed mode preamble) := by
  obtain ⟨answer, hanswer, hsuccess, hreport⟩ := activateSeed_settles mode htype h
  refine ⟨answer, hsuccess, fun preamble => ?_⟩
  unfold activateAndReport
  refine .perform rfl ?_
  refine .after (activateSeed_sends host world seed mode) hanswer ?_
  exact (hreport preamble).returning fun _ => answer

/-- The second stage of a seed whose action is resolved and carried out. -/
theorem settling_activateTask {output : List String} {action : Option Action}
    {activation : Activation} {result : SeedResult}
    (hresolved : resolveAction host.tzdb world.config world.now seedDeploy
      (governing world seedDeploy) = .ok (.action action))
    (h : ∀ preamble, Settling seedDeploy.seed.sid result world.reported activation
      (executeAction host world seedDeploy.seed action preamble)) :
    Settling seedDeploy.seed.sid result world.reported
      (Upgrade.resolved activation
        (if seedDeploy.action ≠ none ∧ rebootable seedDeploy.seed.seedType then action else none))
      (activateTask host world seedDeploy output) := by
  unfold activateTask
  refine .after (congrArg sentResults (orRaise_effects _)) (orRaise_ending_ok.mpr hresolved) ?_
  exact (h _).returning fun activation => Upgrade.resolved activation _

/-- The second stage of a seed whose realisation answered. -/
def afterRealization (host : Host) (world : SeedWorld) (seedDeploy : SeedDeployment) :
    Realization → Step Upgrade
  | .ok output => activateTask host world seedDeploy output
  | .failed output => failTask world seedDeploy.seed output

/-- A task does what its second stage does, which is all it sends. -/
theorem settling_afterRealization {answer : Realization} {upgrade : Upgrade} {result : SeedResult}
    (hrealized : world.realized = .returned answer)
    (h : Settling seedDeploy.seed.sid result world.reported upgrade
      (afterRealization host world seedDeploy answer)) :
    Settling seedDeploy.seed.sid result world.reported upgrade
      (upgradeSeed host world seedDeploy) := by
  unfold upgradeSeed realizeTask
  dsimp only
  rw [Run.effects_perform_bind, Run.ending_perform_bind, await_effects, hrealized]
  cases answer with
  | ok output => exact ⟨h.sent, h.ending⟩
  | failed output => exact ⟨h.sent, h.ending⟩

/-- A task whose answers settle its seed reports that result, and has a value
once the socket has answered; the value counts as a success exactly when the
result is one. -/
theorem upgradeSeed_settles {result : SeedResult} (h : Settles host world seedDeploy result) :
    ∃ upgrade : Upgrade, (upgrade.succeeded = true ↔ result = .success) ∧
      Settling seedDeploy.seed.sid result world.reported upgrade
        (upgradeSeed host world seedDeploy) := by
  cases h with
  | @notRealized output answer =>
    refine ⟨.failedToRealize, by simp [Upgrade.succeeded], settling_afterRealization answer ?_⟩
    exact (settling_report world seedDeploy.seed _ _).returning fun _ => Upgrade.failedToRealize
  | @unsupported output realized resolved =>
    refine ⟨.unsupportedAction, by simp [Upgrade.succeeded], settling_afterRealization realized ?_⟩
    unfold afterRealization activateTask
    refine .after (congrArg sentResults (orRaise_effects _)) (orRaise_ending_ok.mpr resolved) ?_
    exact (settling_report world seedDeploy.seed _ _).returning fun _ => Upgrade.unsupportedAction
  | @staged output action realized resolved unneeded =>
    have hexecute : ∀ preamble, Settling seedDeploy.seed.sid .success world.reported
        (.ok ["staged"]) (executeAction host world seedDeploy.seed action preamble) := by
      intro preamble
      unfold executeAction
      rw [unneeded]
      exact settling_stageOnly world seedDeploy.seed preamble
    refine ⟨_, ?_, settling_afterRealization realized (settling_activateTask resolved hexecute)⟩
    simp [Upgrade.succeeded]
  | @activated output action mode result realized resolved needed seedType answer =>
    obtain ⟨activation, hsuccess, hsettling⟩ := settling_activateAndReport mode seedType answer
    have hexecute : ∀ preamble, Settling seedDeploy.seed.sid result world.reported activation
        (executeAction host world seedDeploy.seed action preamble) := by
      intro preamble
      unfold executeAction
      rw [needed]
      exact hsettling _
    refine ⟨_, ?_, settling_afterRealization realized (settling_activateTask resolved hexecute)⟩
    rw [← hsuccess]
    cases activation <;> simp [Upgrade.succeeded]

/-- A composition that sends nothing in its first part, and nothing behind its
value. -/
theorem sentResults_bind {α β : Type} {first : Step α} {next : α → Step β}
    (hfirst : sentResults first.effects = [])
    (hnext : ∀ value, first.ending = .ok value → sentResults (next value).effects = []) :
    sentResults (first >>= next).effects = [] := by
  rcases hending : first.ending with stop | value
  · rw [Run.bind_of_error hending]
    exact hfirst
  · rw [Run.bind_of_ok hending, sentResults_append, hfirst, List.nil_append]
    exact hnext value hending

/-- A task whose activator leaves the seed unsettled reports nothing. -/
theorem activateAndReport_unsettled {seed : Seed} {mode : String} {preamble : List String}
    (h : seed.seedType = "home-manager" ∨ seed.seedType = "nixos" →
      ∀ result, ¬ ActivationSettles host world result) :
    sentResults (activateAndReport host world seed mode preamble).effects = [] := by
  unfold activateAndReport
  rw [Run.effects_perform_bind, sentResults_status]
  refine sentResults_bind (activateSeed_sends host world seed mode) fun answer hanswer => ?_
  refine sentResults_bind ?_ fun _ _ => rfl
  have htype : seed.seedType = "home-manager" ∨ seed.seedType = "nixos" := by
    by_contra htype
    unfold activateSeed at hanswer
    rw [if_neg htype] at hanswer
    cases hanswer
  have henabled : host.activationEnabled = true := by
    by_contra hdisabled
    exact h htype .success (.noop (by simpa using hdisabled))
  have hreturned : world.activated = .returned answer := by
    unfold activateSeed runActivation at hanswer
    rw [if_pos htype, if_pos henabled, Run.ending_perform_bind] at hanswer
    exact await_ending_ok.mp hanswer
  cases answer with
  | ok output => exact absurd (.activated henabled hreturned) (h htype .success)
  | failed code output => exact absurd (.failed henabled hreturned) (h htype .failure)
  | error reason =>
    have hknown : ¬ (reason = "activator_unavailable" ∨ reason = "cmd_not_found") := fun hknown =>
      h htype .failure (.missing henabled hreturned hknown)
    rw [reportActivation, if_neg hknown]
    rfl

/-- A task whose answers leave the seed unsettled reports nothing. -/
theorem upgradeSeed_unsettled (h : ∀ result, ¬ Settles host world seedDeploy result) :
    sentResults (upgradeSeed host world seedDeploy).effects = [] := by
  unfold upgradeSeed realizeTask
  dsimp only
  rw [Run.effects_perform_bind, Run.ending_perform_bind, await_effects, List.cons_append,
    List.nil_append, sentResults_status]
  rcases hrealized : world.realized with (output | output) | _ | _
  · refine sentResults_bind (congrArg sentResults (orRaise_effects _)) fun resolved hresolved => ?_
    have hresolved := orRaise_ending_ok.mp hresolved
    cases resolved with
    | unsupportedAction => exact absurd (.unsupported hrealized hresolved) (h .failure)
    | action action =>
      refine sentResults_bind ?_ fun _ _ => rfl
      unfold executeAction
      rcases hmode : actionToMode action seedDeploy.seed.seedType with _ | mode
      · exact absurd (.staged hrealized hresolved hmode) (h .success)
      · refine activateAndReport_unsettled fun htype result hsettles => ?_
        exact h result (.activated hrealized hresolved hmode htype hsettles)
  · exact absurd (.notRealized hrealized) (h .failure)
  · rfl
  · rfl

/-- A seed is settled with one result only. -/
theorem Settles.unique {result result' : SeedResult} (h : Settles host world seedDeploy result)
    (h' : Settles host world seedDeploy result') : result = result' := by
  obtain ⟨_, _, hsettling⟩ := upgradeSeed_settles h
  obtain ⟨_, _, hsettling'⟩ := upgradeSeed_settles h'
  have hboth := hsettling.sent.symm.trans hsettling'.sent
  simpa using hboth

end Settled

section Count

variable {host : Host}

/-- The tasks of a list of entries, each in its own world. -/
abbrev entryTasks (host : Host) (worlds : ℕ → SeedWorld) (entries : List SeedDeployment) :
    List (Step Upgrade) :=
  entries.mapIdx fun i seedDeploy => upgradeSeed host (worlds i) seedDeploy

/-- Results sent for the seed by the tasks of the entries. -/
def sentFor (host : Host) (worlds : ℕ → SeedWorld) (entries : List SeedDeployment) (sid : Sid) : ℕ :=
  (sentResults ((entryTasks host worlds entries).flatMap (·.effects))).countP (·.1 = sid)

theorem sentFor_cons (worlds : ℕ → SeedWorld) (seedDeploy : SeedDeployment)
    (rest : List SeedDeployment) (sid : Sid) :
    sentFor host worlds (seedDeploy :: rest) sid =
      (sentResults (upgradeSeed host (worlds 0) seedDeploy).effects).countP (·.1 = sid) +
        sentFor host (fun i => worlds (i + 1)) rest sid := by
  unfold sentFor entryTasks
  rw [List.mapIdx_cons, List.flatMap_cons, sentResults_append, List.countP_append]

/-- A task sends one result for its seed at most, and one exactly when its
answers settle the seed. -/
theorem countP_upgradeSeed (host : Host) (world : SeedWorld) (seedDeploy : SeedDeployment) (sid : Sid) :
    ((∃ result, Settles host world seedDeploy result) ∧
      (sentResults (upgradeSeed host world seedDeploy).effects).countP (·.1 = sid) =
        if seedDeploy.seed.sid = sid then 1 else 0) ∨
    ((¬ ∃ result, Settles host world seedDeploy result) ∧
      (sentResults (upgradeSeed host world seedDeploy).effects).countP (·.1 = sid) = 0) := by
  by_cases hsettled : ∃ result, Settles host world seedDeploy result
  · obtain ⟨result, hresult⟩ := hsettled
    obtain ⟨_, _, hsettling⟩ := upgradeSeed_settles hresult
    refine Or.inl ⟨⟨result, hresult⟩, ?_⟩
    rw [hsettling.sent, List.countP_cons, List.countP_nil]
    simp
  · refine Or.inr ⟨hsettled, ?_⟩
    rw [upgradeSeed_unsettled fun result hresult => hsettled ⟨result, hresult⟩]
    rfl

theorem sentFor_le (host : Host) (worlds : ℕ → SeedWorld) (entries : List SeedDeployment) (sid : Sid) :
    sentFor host worlds entries sid ≤ entries.countP (·.seed.sid = sid) := by
  induction entries generalizing worlds with
  | nil => exact Nat.le_refl 0
  | cons seedDeploy rest ih =>
    have hrest := ih fun i => worlds (i + 1)
    rw [sentFor_cons, List.countP_cons]
    rcases countP_upgradeSeed host (worlds 0) seedDeploy sid with
      ⟨_, hcount⟩ | ⟨_, hcount⟩
    · rw [hcount]
      simp only [decide_eq_true_eq]
      omega
    · rw [hcount]
      omega

/-- Every seed has one result exactly when the answers to every task settle its
seed. -/
theorem sentFor_eq_iff (worlds : ℕ → SeedWorld) (entries : List SeedDeployment) :
    (∀ sid, sentFor host worlds entries sid = entries.countP (·.seed.sid = sid)) ↔
      ∀ i seedDeploy, entries[i]? = some seedDeploy →
        ∃ result, Settles host (worlds i) seedDeploy result := by
  induction entries generalizing worlds with
  | nil =>
    refine ⟨fun _ i seedDeploy h => by simp at h, fun _ sid => rfl⟩
  | cons seedDeploy rest ih =>
    have hrest := ih fun i => worlds (i + 1)
    constructor
    · intro h
      have hfirst : ∃ result, Settles host (worlds 0) seedDeploy result := by
        have hcount := h seedDeploy.seed.sid
        have hle := sentFor_le host (fun i => worlds (i + 1)) rest seedDeploy.seed.sid
        rw [sentFor_cons, List.countP_cons] at hcount
        rcases countP_upgradeSeed host (worlds 0) seedDeploy seedDeploy.seed.sid with
          ⟨hsettled, _⟩ | ⟨_, hzero⟩
        · exact hsettled
        · rw [hzero] at hcount
          simp only [decide_true, if_true] at hcount
          omega
      have hothers : ∀ sid, sentFor host (fun i => worlds (i + 1)) rest sid =
          rest.countP (·.seed.sid = sid) := by
        intro sid
        have hcount := h sid
        rw [sentFor_cons, List.countP_cons] at hcount
        rcases countP_upgradeSeed host (worlds 0) seedDeploy sid with
          ⟨_, hone⟩ | ⟨hnot, _⟩
        · rw [hone] at hcount
          simp only [decide_eq_true_eq] at hcount
          omega
        · exact absurd hfirst hnot
      intro i entry hentry
      cases i with
      | zero =>
        cases hentry
        exact hfirst
      | succ i => exact hrest.mp hothers i entry hentry
    · intro h sid
      have hothers := hrest.mpr (fun i entry hentry => h (i + 1) entry hentry) sid
      rw [sentFor_cons, List.countP_cons, hothers]
      rcases countP_upgradeSeed host (worlds 0) seedDeploy sid with ⟨_, hone⟩ | ⟨hnot, _⟩
      · rw [hone]
        simp only [decide_eq_true_eq]
        omega
      · exact absurd (h 0 seedDeploy rfl) hnot

end Count

end Sower.Garden.Deployer
