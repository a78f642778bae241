import Sower.Lib.Interleaving
import Sower.Server.RetryTransaction

/-!
# What a step of an operation can do

Every step that an operation takes on the database is one of a few kinds, and
each operation takes steps of some kinds only. Whatever holds of all steps of
these kinds holds of every operation, in every interleaving.
-/

namespace Sower.Server

open Sower.Calendar Sower.Policy Sower.Wire Process Proc Keyed Interleaving

section Kinds

/-- Kinds of steps that matter to deployments. -/
inductive Kind where
  /-- Rows are read in order to be rewritten. -/
  | selects
  /-- A row is rewritten under its lock. -/
  | updates
  /-- Rows are marked as dispatched. -/
  | marks
  /-- A duplicate is looked for. -/
  | checks
  /-- A deployment is inserted that is no retry. -/
  | creates
  /-- A retry is inserted. -/
  | retries
  /-- A report looks for its deployment. -/
  | looks
  /-- A new or skipped deployment is broadcast. -/
  | dispatches
  /-- An unresolved deployment is broadcast again. -/
  | replays
  /-- The transaction of a retry takes a step. -/
  | transacts
  deriving DecidableEq, Repr

/-- The event belongs to no kind of step. -/
def Event.Plain : Event → Prop
  | .audit .. => True
  | .failed .. => True
  | _ => False

/-- One step of the given kinds, with the events it logs. -/
inductive Effect (kinds : Set Kind) (db : Db) : List Event → Db → Prop
  | idle {es : List Event} {db' : Db} (deployments : db'.deployments = db.deployments)
      (locks : db'.locks = db.locks) (plain : ∀ e ∈ es, e.Plain) : Effect kinds db es db'
  | selected (kind : .selects ∈ kinds) (ids : List ℕ) : Effect kinds db [.selected ids] db
  | updated (kind : .updates ∈ kinds) {id : ℕ} {attrs : Attrs} {locked : Deployment}
      (found : db.deployments.find? id = some locked)
      (kept : locked.state.terminal = true → attrs.state.terminal = true) :
      Effect kinds db [.updated id attrs] (db.setDeployment id attrs)
  | marked (kind : .marks ∈ kinds) (ids : List ℕ) (dispatchedAt : DateTime) :
      Effect kinds db [.marked ids (db.unresolvedAmong ids)] (db.markDispatched ids dispatchedAt)
  | checked (kind : .checks ∈ kinds) (gardenId : ℕ) (contentHash : String) :
      Effect kinds db [.checked gardenId contentHash] db
  | created (kind : .creates ∈ kinds) {new : NewDeployment}
      (parentless : new.parentDeploymentId = none) :
      Effect kinds db [.created db.deployments.next] (db.insertDeployment new)
  | retried (kind : .retries ∈ kinds) {loaded : Loaded} {ordinal : ℕ} {now : DateTime} {actor : Sid} :
      Effect kinds db (db.tick.insertRetry loaded ordinal now actor).1.2
        (db.tick.insertRetry loaded ordinal now actor).1.1
  | looked (kind : .looks ∈ kinds) (sid : Sid) :
      Effect kinds db [.looked sid (db.deployments.find? sid).isSome] db
  | dispatched (kind : .dispatches ∈ kinds) (garden : Sid) (payload : Wire.Deployment) :
      Effect kinds db [.dispatched garden payload] db
  | replayed (kind : .replays ∈ kinds) (garden : Sid) (payload : Wire.Deployment) :
      Effect kinds db [.replayed garden payload] db
  | locked (kind : .transacts ∈ kinds) {id : ℕ} (free : id ∉ db.locks) :
      Effect kinds db [.locked id] (db.lock id)
  | reserved (kind : .transacts ∈ kinds) : Effect kinds db [] db.reserveDeployment
  | announced (kind : .transacts ∈ kinds) (parent : ℕ) (garden : Sid) (payload : Wire.Deployment) :
      Effect kinds db [.retried parent garden payload] db
  | committed (kind : .transacts ∈ kinds) (id : ℕ) (retry : Deployment) (actor : Sid) :
      Effect kinds db [.created retry.id, .audit retry.id .created .userRetry (some actor) none,
        .unlocked id] (db.commitRetry id retry)
  | unlocked (kind : .transacts ∈ kinds) (id : ℕ) : Effect kinds db [.unlocked id] (db.unlock id)
  | rolledBack (kind : .transacts ∈ kinds) (id retry : ℕ) :
      Effect kinds db [.rolledBack retry, .unlocked id] (db.unlock id)

/-- Steps of some kinds are steps of more kinds. -/
theorem Effect.mono {kinds kinds' : Set Kind} (hkinds : kinds ⊆ kinds') {db db' : Db}
    {es : List Event} (h : Effect kinds db es db') : Effect kinds' db es db' := by
  cases h with
  | idle deployments locks plain => exact .idle deployments locks plain
  | selected kind ids => exact .selected (hkinds kind) ids
  | updated kind found kept => exact .updated (hkinds kind) found kept
  | marked kind ids dispatchedAt => exact .marked (hkinds kind) ids dispatchedAt
  | checked kind gardenId contentHash => exact .checked (hkinds kind) gardenId contentHash
  | created kind parentless => exact .created (hkinds kind) parentless
  | retried kind => exact .retried (hkinds kind)
  | looked kind sid => exact .looked (hkinds kind) sid
  | dispatched kind garden payload => exact .dispatched (hkinds kind) garden payload
  | replayed kind garden payload => exact .replayed (hkinds kind) garden payload
  | locked kind free => exact .locked (hkinds kind) free
  | reserved kind => exact .reserved (hkinds kind)
  | announced kind parent garden payload => exact .announced (hkinds kind) parent garden payload
  | committed kind id retry actor => exact .committed (hkinds kind) id retry actor
  | unlocked kind id => exact .unlocked (hkinds kind) id
  | rolledBack kind id retry => exact .rolledBack (hkinds kind) id retry

end Kinds

section Programs

variable {kinds : Set Kind} {platform : Platform} {α : Type}

/-- A step that touches neither deployments nor locks. -/
theorem steps_idle {f : Db → (Db × List Event) × α}
    (h : ∀ db, (f db).1.1.deployments = db.deployments ∧ (f db).1.1.locks = db.locks ∧
      ∀ e ∈ (f db).1.2, e.Plain) : (Proc.atomic f).Steps (Effect kinds) :=
  steps_atomic fun db => .idle (h db).1 (h db).2.1 (h db).2.2

theorem steps_read (f : Db → α) : (Proc.read f).Steps (Effect kinds) :=
  steps_idle fun _ => ⟨rfl, rfl, by simp⟩

theorem steps_emit {e : Event} (h : e.Plain) : (Proc.emit e).Steps (Effect kinds) :=
  steps_idle fun _ => ⟨rfl, rfl, by simpa using h⟩

theorem steps_dispatched (hdispatches : .dispatches ∈ kinds) (garden : Sid)
    (payload : Wire.Deployment) :
    (Proc.emit (Event.dispatched garden payload) : Program PUnit).Steps (Effect kinds) :=
  steps_atomic fun _ => .dispatched hdispatches garden payload

theorem steps_utcNow : utcNow.Steps (Effect kinds) := steps_idle fun _ => ⟨rfl, rfl, by simp⟩

theorem steps_newRequestId : newRequestId.Steps (Effect kinds) :=
  steps_idle fun _ => ⟨rfl, rfl, by simp⟩

theorem steps_discard {program : Program α} (h : program.Steps (Effect kinds)) :
    (discard program).Steps (Effect kinds) := h.bind fun _ => steps_done _

theorem steps_select (hselects : .selects ∈ kinds) (ids : α → List ℕ) (query : Db → α) :
    (select ids query).Steps (Effect kinds) :=
  steps_atomic fun _ => .selected hselects _

/-- An update either is rolled back or rewrites a row that it does not reopen. -/
theorem steps_updateDeployment (hupdates : .updates ∈ kinds) (id : ℕ) (attrs : Attrs) :
    (updateDeployment id attrs).Steps (Effect kinds) := by
  refine steps_atomic fun db => ?_
  rcases lockedUpdate_cases db id attrs with ⟨reason, h⟩ | ⟨locked, hfound, hkept, h⟩
  · rw [h]
    exact .idle rfl rfl (by simp)
  · rw [h]
    exact .updated hupdates hfound hkept

theorem steps_cancelStaleForSubscriptions (hselects : .selects ∈ kinds) (hupdates : .updates ∈ kinds)
    (subscriptionIds : List ℕ) : (cancelStaleForSubscriptions subscriptionIds).Steps (Effect kinds) := by
  refine (steps_select hselects _ _).bind fun stale => steps_forM fun deployment _ => ?_
  refine (steps_updateDeployment hupdates _ _).bind ?_
  rintro (reason | updated)
  · exact steps_done _
  · exact steps_emit trivial

theorem steps_finalizeStaleDeployments (hselects : .selects ∈ kinds) (hupdates : .updates ∈ kinds)
    (now : DateTime) (age batchSize : ℤ) :
    (finalizeStaleDeployments now age batchSize).Steps (Effect kinds) := by
  unfold finalizeStaleDeployments
  split
  · exact steps_done _
  · refine (steps_select hselects _ _).bind fun stale => steps_forM fun deployment _ => ?_
    refine (steps_select hselects _ _).bind fun unresolved => ?_
    cases unresolved with
    | none => exact steps_done _
    | some unresolved =>
      refine (steps_updateDeployment hupdates _ _).bind ?_
      rintro (reason | updated)
      · exact steps_done _
      · exact steps_emit trivial

theorem steps_recordReport (hlooks : .looks ∈ kinds) (hupdates : .updates ∈ kinds) (sid : Sid)
    (attrs : Attrs) : (recordReport sid attrs).Steps (Effect kinds) := by
  have hlook : (getDeploymentSid sid).Steps (Effect kinds) :=
    steps_atomic fun _ => .looked hlooks sid
  refine hlook.bind fun found => ?_
  cases found with
  | none => exact steps_done _
  | some deployment =>
    refine (steps_updateDeployment hupdates _ _).bind ?_
    rintro (reason | updated)
    · exact steps_done _
    · exact steps_done _

theorem steps_recordCreated (id : ℕ) (opts : DeployOpts) :
    (recordCreated id opts).Steps (Effect kinds) := by
  unfold recordCreated
  split
  · exact steps_emit trivial
  · exact steps_done _

theorem steps_findDuplicateDeployment (hchecks : .checks ∈ kinds) (gardenId : ℕ)
    (contentHash : String) (force : Bool) :
    (findDuplicateDeployment gardenId contentHash force).Steps (Effect kinds) := by
  unfold findDuplicateDeployment
  split
  · exact steps_done _
  · exact steps_atomic fun _ => .checked hchecks gardenId contentHash

theorem steps_createDeployment (hcreates : .creates ∈ kinds) {new : NewDeployment}
    (h : new.parentDeploymentId = none) : (createDeployment new).Steps (Effect kinds) := by
  refine steps_atomic fun db => ?_
  split
  · exact .created hcreates h
  · exact .idle rfl rfl (by simp)

/-- The kinds of steps that a dispatch takes. -/
def dispatchKinds : Set Kind := {.checks, .creates, .selects, .updates}

theorem steps_dispatchSeedDeploys (hkinds : dispatchKinds ⊆ kinds) (requestId : Sid) (gardenId : ℕ)
    (seedDeploys : List SeedDeployment) (subscriptions : List Subscription) (opts : DeployOpts) :
    (dispatchSeedDeploys platform requestId gardenId seedDeploys subscriptions opts).Steps
      (Effect kinds) := by
  unfold dispatchSeedDeploys
  dsimp only
  split
  · exact steps_done _
  · refine (steps_findDuplicateDeployment (hkinds (by simp [dispatchKinds])) _ _ _).bind fun found => ?_
    cases found with
    | some existing => exact steps_done _
    | none =>
      refine steps_utcNow.bind fun now => ?_
      refine (steps_createDeployment (hkinds (by simp [dispatchKinds])) rfl).bind fun created => ?_
      cases created with
      | none => exact steps_done _
      | some deployment =>
        refine (steps_recordCreated _ _).bind fun _ => ?_
        refine (steps_cancelStaleForSubscriptions (hkinds (by simp [dispatchKinds]))
          (hkinds (by simp [dispatchKinds])) _).bind fun _ => ?_
        exact steps_done _

theorem steps_seedFor (opts : DeployOpts) (subscription : Subscription) :
    (seedFor opts subscription).Steps (Effect kinds) := by
  unfold seedFor
  split
  · exact steps_done _
  · exact steps_read _

theorem steps_collectSeeds (opts : DeployOpts) (entries : List SeedDeployment)
    (subscriptions : List Subscription) :
    (collectSeeds opts entries subscriptions).Steps (Effect kinds) := by
  induction subscriptions generalizing entries with
  | nil => exact steps_done _
  | cons subscription rest ih =>
    refine (steps_seedFor opts subscription).bind fun seed => ?_
    cases seed with
    | none => exact ih _
    | some seed => exact ih _

theorem steps_announce (hdispatches : .dispatches ∈ kinds) (garden : Garden) (requestId : Sid)
    (outcome : Except DispatchError Wire.Deployment) :
    (announce garden requestId outcome).Steps (Effect kinds) := by
  rcases outcome with (_ | _) | payload
  · exact steps_emit trivial
  · exact steps_done _
  · exact steps_dispatched hdispatches _ _

theorem steps_job (hkinds : dispatchKinds ⊆ kinds) (hdispatches : .dispatches ∈ kinds) (job : Job) :
    (job.program platform).Steps (Effect kinds) := by
  unfold Job.program
  split
  · exact steps_done _
  · refine Steps.bind ?_ fun outcome => steps_announce hdispatches _ _ outcome
    refine (steps_collectSeeds _ _ _).bind fun seedDeploys => ?_
    exact steps_dispatchSeedDeploys hkinds _ _ _ _ _

theorem steps_deployForGarden (garden : Garden) (subscription : Subscription) (opts : DeployOpts)
    (seedSid : Option Sid) :
    (deployForGarden platform garden subscription opts seedSid).Steps (Effect kinds) := by
  unfold deployForGarden
  split
  · exact steps_done _
  · refine steps_utcNow.bind fun now => ?_
    split
    · exact steps_done _
    · exact steps_done _
    · exact steps_done _
    · split
      · exact steps_newRequestId.bind fun _ => steps_done _
      · refine (steps_read _).bind fun seed => ?_
        cases seed with
        | none => exact steps_done _
        | some seed => exact steps_newRequestId.bind fun _ => steps_done _

theorem steps_deploySubscription (subscription : Subscription) (opts : DeployOpts)
    (seedSid : Option Sid) :
    (deploySubscription platform subscription opts seedSid).Steps (Effect kinds) := by
  refine (steps_read _).bind fun garden => ?_
  cases garden with
  | none => exact steps_done _
  | some garden => exact steps_deployForGarden _ _ _ _

theorem steps_authorizeDirect (garden : Garden) (seed : Seed) (opts : DirectOpts) :
    (authorizeDirect platform garden seed opts).Steps (Effect kinds) := by
  unfold authorizeDirect
  dsimp only
  split
  · exact steps_done _
  · split
    · exact steps_done _
    · split
      · exact steps_done _
      · split
        · refine (steps_read _).bind fun supported => ?_
          split
          · exact steps_done _
          · exact steps_done _
        · refine steps_utcNow.bind fun now => ?_
          split <;> exact steps_done _

theorem steps_deployDirect (hkinds : dispatchKinds ⊆ kinds) (hdispatches : .dispatches ∈ kinds)
    (garden : Garden) (seed : Seed) (opts : DirectOpts) :
    (deployDirect platform garden seed opts).Steps (Effect kinds) := by
  refine (steps_authorizeDirect _ _ _).bind ?_
  rintro (reason | ⟨action, override⟩)
  · exact steps_done _
  · refine (steps_read _).bind fun subscription => steps_newRequestId.bind fun requestId => ?_
    refine (steps_dispatchSeedDeploys hkinds _ _ _ _ _).bind ?_
    rintro ((_ | _) | payload)
    · exact steps_done _
    · exact steps_done _
    · exact (steps_dispatched hdispatches _ _).bind fun _ => steps_done _

theorem steps_retryDeployment (hretries : .retries ∈ kinds) (id userId : ℕ) :
    (retryDeployment platform id userId).Steps (Effect kinds) := by
  refine steps_atomic fun db => ?_
  have hnothing : Effect kinds db [] db := .idle rfl rfl (by simp)
  split
  · exact hnothing
  · split
    · exact hnothing
    · split
      · exact hnothing
      · split
        · exact hnothing
        · split
          · exact hnothing
          · exact .retried hretries

theorem steps_lockDeployment (htransacts : .transacts ∈ kinds) (id patience : ℕ) :
    (lockDeployment id patience).Steps (Effect kinds) := by
  induction patience with
  | zero => exact steps_done _
  | succ patience ih =>
    refine (steps_atomic fun db => ?_).bind fun answer => ?_
    · rcases tryLock_cases db id with ⟨answer, h, _⟩ | ⟨deployment, _, hfree, h⟩
      · rw [h]
        exact .idle rfl rfl (by simp)
      · rw [h]
        exact .locked htransacts hfree
    · cases answer with
      | held => exact ih
      | missing => exact steps_done _
      | acquired deployment => exact steps_done _

theorem steps_rollback (htransacts : .transacts ∈ kinds) (id : ℕ) (reason : RetryError) :
    (rollback id reason).Steps (Effect kinds) :=
  steps_atomic fun _ => .unlocked htransacts id

theorem steps_endRetry (htransacts : .transacts ∈ kinds) (id : ℕ) (retry : Deployment) (actor : Sid)
    (commits : Bool) : (endRetry id retry actor commits).Steps (Effect kinds) := by
  cases commits with
  | false => exact steps_atomic fun _ => .rolledBack htransacts id retry.id
  | true => exact steps_atomic fun _ => .committed htransacts id retry actor

theorem steps_retryLocked (htransacts : .transacts ∈ kinds) (parent : Loaded) (actor : Sid)
    (commits : Bool) : (retryLocked parent actor commits).Steps (Effect kinds) := by
  refine (steps_read _).bind fun busy => ?_
  split
  · exact steps_rollback htransacts _ _
  · refine (steps_read _).bind fun maxRetryOrdinal => steps_utcNow.bind fun now => ?_
    refine (steps_atomic fun db => ?_).bind fun retry => ?_
    · split
      · exact .reserved htransacts
      · exact .idle rfl rfl (by simp)
    · cases retry with
      | none => exact steps_rollback htransacts _ _
      | some retry =>
        refine steps_newRequestId.bind fun requestId => ?_
        refine (steps_atomic fun _ => ?_).bind fun _ => steps_endRetry htransacts _ _ _ _
        exact .announced htransacts _ _ _

theorem steps_retryTransaction (htransacts : .transacts ∈ kinds) (id userId patience : ℕ)
    (commits : Bool) : (retryTransaction platform id userId patience commits).Steps (Effect kinds) := by
  refine (steps_read _).bind fun user => ?_
  cases user with
  | none => exact steps_done _
  | some user =>
    refine (steps_lockDeployment htransacts _ _).bind fun answer => ?_
    cases answer with
    | held => exact steps_done _
    | missing => exact steps_done _
    | acquired deployment =>
      refine (steps_read _).bind fun parent => ?_
      split
      · exact steps_rollback htransacts _ _
      · split
        · exact steps_rollback htransacts _ _
        · exact steps_retryLocked htransacts _ _ _

theorem steps_scheduleIsOverdue (now : DateTime) (subscription : Subscription) :
    (scheduleIsOverdue platform now subscription).Steps (Effect kinds) := by
  unfold scheduleIsOverdue
  split
  · exact steps_done _
  · split
    · exact steps_done _
    · exact steps_done _
    · dsimp only
      split
      · exact steps_done _
      · refine (steps_read _).bind fun last => ?_
        split <;> exact steps_done _

theorem steps_filterOverdue (now : DateTime) (subscriptions : List Subscription) :
    (filterOverdue platform now subscriptions).Steps (Effect kinds) := by
  induction subscriptions with
  | nil => exact steps_done _
  | cons subscription rest ih =>
    refine (steps_scheduleIsOverdue _ _).bind ?_
    rintro (reason | overdue)
    · exact steps_done _
    · refine ih.bind ?_
      rintro (reason | others)
      · exact steps_done _
      · exact steps_done _

theorem steps_catchUpOverdueSchedules (garden : Garden) (now : DateTime) :
    (catchUpOverdueSchedules platform garden now).Steps (Effect kinds) :=
  (steps_read _).bind fun _ => steps_filterOverdue _ _

theorem steps_filterReplayable (garden : Garden) (deployments : List Loaded) :
    (filterReplayable garden deployments).Steps (Effect kinds) := by
  induction deployments with
  | nil => exact steps_done _
  | cons loaded rest ih =>
    have hauthorize : (authorizeReplay garden loaded).Steps (Effect kinds) := by
      unfold authorizeReplay
      split
      · exact steps_read _
      · exact steps_done _
    exact hauthorize.bind fun _ => ih.bind fun _ => steps_done _

theorem steps_cancelSuperseded (hupdates : .updates ∈ kinds) (garden : Garden) (loaded : Loaded) :
    (cancelSuperseded garden loaded).Steps (Effect kinds) :=
  (steps_updateDeployment hupdates _ _).bind fun _ => steps_emit trivial

theorem steps_markDeploymentsDispatched (hmarks : .marks ∈ kinds) (deployments : List Loaded)
    (dispatchedAt : DateTime) :
    (markDeploymentsDispatched deployments dispatchedAt).Steps (Effect kinds) := by
  unfold markDeploymentsDispatched
  split
  · exact steps_done _
  · exact steps_atomic fun _ => .marked hmarks _ dispatchedAt

theorem steps_replay (hreplays : .replays ∈ kinds) (garden : Garden) (loaded : Loaded) :
    (replay garden loaded).Steps (Effect kinds) :=
  steps_newRequestId.bind fun _ => steps_atomic fun _ => .replayed hreplays _ _

theorem steps_deployOverdue (platform : Platform) (garden : Garden) (subscriptions : List Subscription) :
    (deployOverdue platform garden subscriptions).Steps (Effect kinds) := by
  induction subscriptions with
  | nil => exact steps_done _
  | cons subscription rest ih =>
    refine (steps_deployForGarden _ _ _ _).bind ?_
    rintro (reason | job)
    · cases reason <;> first | exact steps_done _ | exact ih
    · exact ih.bind fun _ => steps_done _

theorem steps_reconcile (hselects : .selects ∈ kinds) (hupdates : .updates ∈ kinds)
    (hmarks : .marks ∈ kinds) (hreplays : .replays ∈ kinds) (garden : Garden) (now : DateTime) :
    (reconcileDeploymentsOnConnect platform garden now).Steps (Effect kinds) := by
  refine (steps_catchUpOverdueSchedules _ _).bind ?_
  rintro (reason | overdue)
  · exact steps_done _
  · refine (steps_select hselects _ _).bind fun unresolved => ?_
    refine (steps_forM fun loaded _ => steps_cancelSuperseded hupdates _ loaded).bind fun _ => ?_
    refine (steps_filterReplayable _ _).bind fun toReplay => ?_
    refine (steps_markDeploymentsDispatched hmarks _ _).bind fun _ => ?_
    refine (steps_forM fun loaded _ => steps_replay hreplays _ loaded).bind fun _ => ?_
    exact steps_deployOverdue _ _ _

end Programs

section Operations

variable {platform : Platform}

/-- The kinds of steps that an operation takes. -/
def Operation.kinds : Operation → Set Kind
  | .createSeed .. => ∅
  | .createSubscription .. => ∅
  | .removeSubscriptions .. => ∅
  | .track .. => ∅
  | .recordDeploymentStatus .. => {.looks, .updates}
  | .recordDeployment .. => {.looks, .updates}
  | .finalizeStaleDeployments .. => {.selects, .updates}
  | .cancelStaleForSubscriptions .. => {.selects, .updates}
  | .reconcileDeploymentsOnConnect .. => {.selects, .updates, .marks, .replays}
  | .deploySubscription .. => ∅
  | .processDeployment .. => {.checks, .creates, .selects, .updates, .dispatches}
  | .deployDirect .. => {.checks, .creates, .selects, .updates, .dispatches}
  | .retryDeployment .. => {.retries}

/-- Every step of an operation is of its kinds. -/
theorem steps_operation (operation : Operation) :
    (operation.program platform).Steps (Effect operation.kinds) := by
  have hdispatch : dispatchKinds ⊆ {.checks, .creates, .selects, .updates, .dispatches} := by
    intro kind hkind
    rcases hkind with rfl | rfl | rfl | rfl <;> simp
  cases operation with
  | createSeed name seedType artifact tags rename =>
    refine steps_idle fun db => ?_
    dsimp only [Db.registerSeed]
    split <;> exact ⟨rfl, rfl, by simp⟩
  | createSubscription gardenId name seedName seedType rules schedule timezone policy =>
    refine steps_idle fun db => ?_
    dsimp only [Db.registerSubscription]
    split <;> exact ⟨rfl, rfl, by simp⟩
  | removeSubscriptions gardenId kept => exact steps_idle fun db => ⟨rfl, rfl, by simp⟩
  | track garden metas => exact steps_idle fun db => ⟨rfl, rfl, by simp⟩
  | recordDeploymentStatus sid =>
    exact steps_discard (steps_recordReport (by simp [Operation.kinds]) (by simp [Operation.kinds]) _ _)
  | recordDeployment sid result deployedAt =>
    exact steps_discard (steps_recordReport (by simp [Operation.kinds]) (by simp [Operation.kinds]) _ _)
  | finalizeStaleDeployments now age batchSize =>
    exact steps_finalizeStaleDeployments (by simp [Operation.kinds]) (by simp [Operation.kinds]) _ _ _
  | cancelStaleForSubscriptions subscriptionIds =>
    exact steps_cancelStaleForSubscriptions (by simp [Operation.kinds]) (by simp [Operation.kinds]) _
  | reconcileDeploymentsOnConnect garden now =>
    exact steps_discard (steps_reconcile (by simp [Operation.kinds]) (by simp [Operation.kinds])
      (by simp [Operation.kinds]) (by simp [Operation.kinds]) _ _)
  | deploySubscription subscription opts seedSid =>
    exact steps_discard (steps_deploySubscription _ _ _)
  | processDeployment job => exact steps_job hdispatch (by simp) _
  | deployDirect garden seed opts =>
    exact steps_discard (steps_deployDirect hdispatch (by simp) _ _ _)
  | retryDeployment id userId =>
    exact steps_discard (steps_retryDeployment (by simp [Operation.kinds]) _ _)

/-- The programs that the server runs, with retries statement by statement. -/
inductive Concurrent (platform : Platform) (kinds : Set Kind) : Program PUnit → Prop
  | operation {operation : Operation} (allowed : operation.kinds ⊆ kinds) :
      Concurrent platform kinds (operation.program platform)
  | retry (allowed : .transacts ∈ kinds) (id userId patience : ℕ) (commits : Bool) :
      Concurrent platform kinds (discard (retryTransaction platform id userId patience commits))

/-- Every step of a running program is of the kinds that are allowed. -/
theorem steps_concurrent {kinds : Set Kind} {program : Program PUnit}
    (h : Concurrent platform kinds program) : program.Steps (Effect kinds) := by
  cases h with
  | @operation operation hallowed =>
    exact (steps_operation operation).mono fun _ _ _ heffect => heffect.mono hallowed
  | retry hallowed id userId patience commits =>
    exact steps_discard (steps_retryTransaction hallowed id userId patience commits)

end Operations

end Sower.Server
