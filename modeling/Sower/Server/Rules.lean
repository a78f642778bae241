import Sower.Server.Steps

/-!
# Rules for the programs of the server

How a program is checked against a contract depends on a few of its steps only.
The rules ask for these steps and leave out whatever a contract ignores.
-/

namespace Sower.Server

open Sower.Calendar Sower.Policy Sower.Wire Process Proc Keyed Interleaving Contract

section Rules

variable {C : Contract Db Event} {i : ℕ} {platform : Platform} {P Q : World Db Event → Prop}

/-- Programs with steps of these kinds keep the contract and every stable assertion. -/
def Ignores (C : Contract Db Event) (kinds : Set Kind) : Prop :=
  ∀ {α : Type} {p : Program α}, p.Steps (Effect kinds) → C.Harmless p

/-- A contract ignores the kinds of steps that a process may cause and tolerates. -/
theorem ignores_of_effects {kinds : Set Kind}
    (h : ∀ i w es db, C.inv w → Effect kinds w.store es db →
      C.guar i w (w.extend i es db) ∧ C.rely i w (w.extend i es db)) : Ignores C kinds :=
  fun hp => harmless_of_steps hp h

theorem Ignores.mono {kinds kinds' : Set Kind} (h : Ignores C kinds) (hkinds : kinds' ⊆ kinds) :
    Ignores C kinds' := fun hp => h (hp.mono fun _ _ _ heffect => heffect.mono hkinds)

/-- How a dispatch ends: nothing to deploy, a violated constraint, or the payload of
an earlier or a new deployment. -/
def Dispatched (nothing raised : World Db Event → Prop) (earlier new : ℕ → World Db Event → Prop)
    (seedDeploys : List SeedDeployment) : Except DispatchError Wire.Deployment → World Db Event → Prop
  | .error .seedsNotFound, w => nothing w
  | .error .raised, w => raised w
  | .ok payload, w => payload.seedDeployments = seedDeploys ∧
      if payload.skipped then earlier payload.sid w else new payload.sid w

/-- A dispatch is checked through its search for a duplicate and its insertion. -/
theorem dispatch_rule {requestId : Sid} {gardenId : ℕ} {seedDeploys : List SeedDeployment}
    {subscriptions : List Subscription} {opts : DeployOpts} {free raised : World Db Event → Prop}
    {earlier new : ℕ → World Db Event → Prop} (hidle : Ignores C ∅)
    (hcancel : ∀ ids, C.Harmless (cancelStaleForSubscriptions ids))
    (hfree : C.Stable i free) (hnew : ∀ id, C.Stable i (new id))
    (hcheck : C.Sat i (findDuplicateDeployment gardenId
        (computeContentHash platform (seedDeploys.map fun seedDeploy => seedDeploy.seed.sid)) opts.force)
      P fun found w => found.elim (free w) fun existing => earlier existing.id w)
    (hcreate : ∀ now, C.Sat i (createDeployment (newDeployment platform gardenId
        (seedDeploys.map fun seedDeploy => seedDeploy.seed.sid) subscriptions opts now))
      free fun created w => created.elim (raised w) fun deployment => new deployment.id w) :
    C.Sat i (dispatchSeedDeploys platform requestId gardenId seedDeploys subscriptions opts) P
      (Dispatched P raised earlier new seedDeploys) := by
  unfold dispatchSeedDeploys
  dsimp only
  split
  · exact .done fun w hw => hw
  · refine hcheck.bind fun found => ?_
    cases found with
    | some existing => exact .done fun w hw => ⟨rfl, hw⟩
    | none =>
      refine (hidle steps_utcNow i _ hfree).bind fun now => (hcreate now).bind fun created => ?_
      cases created with
      | none => exact .done fun w hw => hw
      | some deployment =>
        refine (hidle (steps_recordCreated _ _) i _ (hnew _)).bind fun _ => ?_
        refine (hcancel _ i _ (hnew _)).bind fun _ => .done fun w hw => ⟨rfl, hw⟩

/-- The outcome of a job is broadcast to its garden. -/
theorem announce_rule {garden : Garden} {requestId : Sid} {raised : World Db Event → Prop}
    {earlier new : ℕ → World Db Event → Prop} {seedDeploys : List SeedDeployment} (hidle : Ignores C ∅)
    (hP : C.Stable i P) (hnothing : ∀ w, P w → Q w) (hraised : ∀ w, raised w → Q w)
    (hsend : ∀ payload, C.Sat i (Proc.emit (.dispatched garden.id payload))
      (Dispatched P raised earlier new seedDeploys (.ok payload)) fun _ => Q)
    (outcome : Except DispatchError Wire.Deployment) :
    C.Sat i (announce garden requestId outcome) (Dispatched P raised earlier new seedDeploys outcome)
      fun _ => Q := by
  rcases outcome with (_ | _) | payload
  · have hfailed : (Proc.emit (Event.failed garden.id requestId "seeds_not_found") :
        Program PUnit).Steps (Effect ∅) := steps_emit trivial
    exact (hidle hfailed i P hP).conseq (fun w hw => hw) fun _ w hw => hnothing w hw
  · exact .done hraised
  · exact hsend payload

/-- A job is checked through its dispatch and its broadcast. -/
theorem job_rule {job : Job} {raised : World Db Event → Prop}
    {earlier new : List SeedDeployment → ℕ → World Db Event → Prop} (hidle : Ignores C ∅)
    (hP : C.Stable i P) (hnothing : ∀ w, P w → Q w) (hraised : ∀ w, raised w → Q w)
    (hdispatch : ∀ gardenId seedDeploys, C.Sat i
      (dispatchSeedDeploys platform job.requestId gardenId seedDeploys job.subscriptions job.opts) P
      (Dispatched P raised (earlier seedDeploys) (new seedDeploys) seedDeploys))
    (hsend : ∀ seedDeploys payload, C.Sat i (Proc.emit (.dispatched job.garden.id payload))
      (Dispatched P raised (earlier seedDeploys) (new seedDeploys) seedDeploys (.ok payload))
      fun _ => Q) :
    C.Sat i (job.program platform) P fun _ => Q := by
  unfold Job.program
  split
  · exact .done hnothing
  · rename_i first rest hsubscriptions
    unfold doDeployment
    rw [bind_assoc, ← hsubscriptions]
    refine (hidle (steps_collectSeeds _ _ _) i P hP).bind fun seedDeploys => ?_
    refine (hdispatch first.gardenId seedDeploys).bind fun outcome => ?_
    exact announce_rule hidle hP hnothing hraised (hsend seedDeploys) outcome

/-- A direct deployment is checked through its dispatch and its broadcast. -/
theorem deployDirect_rule {garden : Garden} {seed : Seed} {opts : DirectOpts}
    {raised : World Db Event → Prop}
    {earlier new : List SeedDeployment → ℕ → World Db Event → Prop} (hidle : Ignores C ∅)
    (hP : C.Stable i P) (hnothing : ∀ w, P w → Q w)
    (hraised : ∀ w, raised w → Q w)
    (hdispatch : ∀ requestId seedDeploys subscriptions action override, C.Sat i
      (dispatchSeedDeploys platform requestId garden.id seedDeploys subscriptions
        (opts.dispatch action override)) P
      (Dispatched P raised (earlier seedDeploys) (new seedDeploys) seedDeploys))
    (hsend : ∀ seedDeploys payload, C.Sat i (Proc.emit (.dispatched garden.id payload))
      (Dispatched P raised (earlier seedDeploys) (new seedDeploys) seedDeploys (.ok payload))
      fun _ => Q) :
    C.Sat i (deployDirect platform garden seed opts) P fun _ => Q := by
  refine (hidle (steps_authorizeDirect _ _ _) i P hP).bind ?_
  rintro (reason | ⟨action, override⟩)
  · exact .done hnothing
  · refine (hidle (steps_read _) i P hP).bind fun subscription => ?_
    refine (hidle steps_newRequestId i P hP).bind fun requestId => ?_
    refine (hdispatch requestId _ _ action override).bind ?_
    rintro ((_ | _) | payload)
    · exact .done hnothing
    · exact .done hraised
    · exact (hsend _ payload).bind fun _ => .done fun w hw => hw

/-- The deployments that are replayed are among the unresolved ones. -/
theorem filterReplayable_rule {garden : Garden} (hidle : Ignores C ∅) (hP : C.Stable i P)
    (deployments : List Loaded) :
    C.Sat i (filterReplayable garden deployments) P fun replayable w =>
      P w ∧ replayable ⊆ deployments := by
  induction deployments with
  | nil => exact .done fun w hw => ⟨hw, List.Subset.refl _⟩
  | cons loaded rest ih =>
    have hauthorize : (authorizeReplay garden loaded).Steps (Effect ∅) := by
      unfold authorizeReplay
      split
      · exact steps_read _
      · exact steps_done _
    refine (hidle hauthorize i P hP).bind fun replayable => ih.bind fun others => .done ?_
    rintro w ⟨hw, hothers⟩
    refine ⟨hw, ?_⟩
    split
    · exact List.cons_subset_cons loaded hothers
    · exact List.Subset.trans hothers (List.subset_cons_self loaded rest)

/-- A reconnect is checked through its listing, its cancellations, the marking and
the broadcasts. -/
theorem reconcile_rule {garden : Garden} {now : DateTime}
    (listed marked : List Loaded → World Db Event → Prop) (hidle : Ignores C ∅)
    (hP : C.Stable i P) (hQ : C.Stable i Q) (hlisted : ∀ deployments, C.Stable i (listed deployments))
    (hnothing : ∀ w, P w → Q w) (hmarked : ∀ deployments w, marked deployments w → Q w)
    (hlist : C.Sat i (listUnresolved platform garden) P listed)
    (hcancel : ∀ unresolved, ∀ loaded ∈ unresolved, C.Sat i (cancelSuperseded garden loaded)
      (listed unresolved) fun _ => listed unresolved)
    (hmark : ∀ unresolved toReplay, toReplay ⊆ unresolved →
      C.Sat i (markDeploymentsDispatched toReplay now) (listed unresolved) fun _ => marked toReplay)
    (hreplay : ∀ toReplay, ∀ loaded ∈ toReplay, C.Sat i (replay garden loaded) (marked toReplay)
      fun _ => marked toReplay) :
    C.Sat i (reconcileDeploymentsOnConnect platform garden now) P fun _ => Q := by
  refine (hidle (steps_catchUpOverdueSchedules _ _) i P hP).bind ?_
  rintro (reason | overdue)
  · exact .done hnothing
  · refine hlist.bind fun unresolved => ?_
    refine (Sat.forM fun loaded hloaded =>
      hcancel unresolved loaded (List.mem_filter.mp hloaded).1).bind fun _ => ?_
    refine (filterReplayable_rule hidle (hlisted unresolved) _).bind fun toReplay => ?_
    refine Sat.assume fun hsubset => ?_
    have hreplayable := List.Subset.trans hsubset (List.filter_subset_self _)
    refine (hmark unresolved toReplay hreplayable).bind fun _ => ?_
    refine (Sat.forM fun loaded hloaded => hreplay toReplay loaded hloaded).bind fun _ => ?_
    have hrest := hidle (steps_deployOverdue platform garden overdue) i Q hQ
    exact hrest.conseq (fun w hw => hmarked toReplay w hw) fun _ _ hw => hw

/-- A transaction asks for its lock until it has it or gives up. -/
theorem harmless_lockDeployment {id : ℕ}
    (h : C.Harmless (Proc.atomic fun db : Db => db.tryLock id)) (patience : ℕ) :
    C.Harmless (lockDeployment id patience) := by
  induction patience with
  | zero => exact harmless_done _
  | succ patience ih =>
    refine h.bind fun answer => ?_
    cases answer with
    | held => exact ih
    | missing => exact harmless_done _
    | acquired deployment => exact harmless_done _

end Rules

end Sower.Server
