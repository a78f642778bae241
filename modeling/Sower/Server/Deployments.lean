import Mathlib.Data.List.MinMax
import Sower.Server.Store

/-!
# Operations on deployments

Creating, dispatching, retrying, recording and finalizing deployments, as
programs over the database. A program is cut where the source sends a
statement or commits a transaction; between two cuts other programs may run.
-/

namespace Sower.Server

open Sower.Calendar Sower.Policy Sower.Wire Process Keyed

section Seeds

/-- Seeds of one name and type that carry all the tags. -/
def Db.matching (db : Db) (name seedType : String) (tags : List (String × String)) : List Seed :=
  db.seeds.rows.filter fun seed =>
    seed.name = name && seed.seedType = seedType && tags.all (· ∈ seed.tags)

/-- The one updated last; the later key decides between equal times. -/
def newest (seeds : List Seed) : Option Seed :=
  seeds.argmax fun seed => toLex (seed.updatedAt, seed.id)

/-- The latest seed for a subscription, or the one asked for. -/
def Db.matchSeed (db : Db) (subscription : Subscription) (seedSid : Option Sid) : Option Seed :=
  newest ((db.matching subscription.seedName subscription.seedType subscription.rules).filter
    fun seed => seedSid.all (seed.id = ·))

/-- `match_seed`. -/
def matchSeed (subscription : Subscription) (seedSid : Option Sid) : Program (Option Seed) :=
  .read fun db => db.matchSeed subscription seedSid

def Seed.toWire (seed : Seed) : Wire.Seed :=
  ⟨seed.id, seed.name, seed.seedType, seed.artifact, seed.tags⟩

/-- `Seed.create`: a registered artifact is registered again under its key,
with a fresh time and further tags. -/
def Db.registerSeed (db : Db) (name seedType artifact : String) (tags : List (String × String))
    (rename : Bool) : Db :=
  let now := db.clock db.reads
  let known : Seed → Bool := fun seed => seed.seedType = seedType && seed.artifact = artifact
  if db.seeds.rows.any known then
    { db with
      reads := db.reads + 1
      seeds := db.seeds.update known
        (fun seed => { seed with
          name := if rename then name else seed.name
          updatedAt := now
          tags := seed.tags ++ tags.filter (· ∉ seed.tags) })
        fun _ => rfl }
  else
    { db with
      reads := db.reads + 1
      seeds := db.seeds.insert (fun id => ⟨id, name, seedType, artifact, tags, now⟩) fun _ => rfl }

def createSeed (name seedType artifact : String) (tags : List (String × String))
    (rename : Bool) : Program PUnit :=
  .atomic fun db => ((db.registerSeed name seedType artifact tags rename, []), ⟨⟩)

end Seeds

section Subscriptions

/-- `create_subscription`: a name that the garden already has keeps its key. -/
def Db.registerSubscription (db : Db) (gardenId : ℕ) (name seedName seedType : String)
    (rules : List (String × String)) (schedule timezone : Option String) (policy : List Rule) : Db :=
  let now := db.clock db.reads
  let known : Subscription → Bool := fun s => s.gardenId = gardenId && s.name = name
  if db.subscriptions.rows.any known then
    { db with
      reads := db.reads + 1
      subscriptions := db.subscriptions.update known
        (fun s => { s with
          seedName := seedName
          seedType := seedType
          rules := rules
          schedule := schedule
          timezone := timezone
          policy := policy })
        fun _ => rfl }
  else
    { db with
      reads := db.reads + 1
      subscriptions := db.subscriptions.insert (fun id =>
        ⟨id, gardenId, name, seedName, seedType, rules, schedule, timezone, policy, now⟩)
        fun _ => rfl }

/-- Subscriptions of a garden that it no longer configures are deleted. -/
def Db.removeSubscriptions (db : Db) (gardenId : ℕ) (kept : List ℕ) : Db :=
  { db with
    subscriptions := db.subscriptions.delete fun s => s.gardenId = gardenId && s.id ∉ kept }

end Subscriptions

section Links

/-- A deployment with its preloaded links. -/
structure Loaded where
  deployment : Deployment
  seeds : List Seed
  subscriptions : List Subscription

/-- Preload the links; rows deleted meanwhile are missing. -/
def Db.load (db : Db) (platform : Platform) (deployment : Deployment) : Loaded where
  deployment := deployment
  seeds := (platform.arrange deployment.seeds).filterMap db.seeds.find?
  subscriptions := (platform.arrange deployment.subscriptions).filterMap db.subscriptions.find?

/-- The first linked subscription for the seed's name and type. -/
def linkedSubscription (subscriptions : List Subscription) (seed : Seed) : Option Subscription :=
  subscriptions.find? fun subscription =>
    subscription.seedName = seed.name && subscription.seedType = seed.seedType

/-- The entry of one linked seed. -/
def Loaded.entry (loaded : Loaded) (seed : Seed) : SeedDeployment where
  seed := seed.toWire
  subscriptionSid := (linkedSubscription loaded.subscriptions seed).map Subscription.id
  action := loaded.deployment.directAction
  override := loaded.deployment.directOverride

def buildSeedDeployments (loaded : Loaded) : List SeedDeployment := loaded.seeds.map loaded.entry

def deploymentEventPayload (loaded : Loaded) (requestId : Sid) : Wire.Deployment where
  requestId := some requestId
  sid := loaded.deployment.id
  seedDeployments := buildSeedDeployments loaded
  skipped := false

end Links

section Duplicates

/-- Identity of a deployment's content: a hash of the sorted seed keys. -/
def computeContentHash (platform : Platform) (seeds : List ℕ) : String :=
  platform.sha256 (":".intercalate ((seeds.insertionSort (· ≤ ·)).map toString))

/-- The deployment succeeded or is unresolved. -/
def Deployment.blocks (deployment : Deployment) : Bool :=
  deployment.result = some .success || !deployment.state.terminal

/-- Deployments of the garden that a new one with this content would repeat. -/
def Db.duplicates (db : Db) (gardenId : ℕ) (contentHash : String) : List Deployment :=
  db.deployments.rows.filter fun d =>
    d.gardenId = gardenId && d.contentHash = contentHash && d.blocks

/-- The one among them that was inserted last. -/
def Db.duplicate (db : Db) (gardenId : ℕ) (contentHash : String) : Option Deployment :=
  (db.duplicates gardenId contentHash).argmax Deployment.insertedAt

def findDuplicateDeployment (gardenId : ℕ) (contentHash : String) (force : Bool) :
    Program (Option Deployment) :=
  if force then pure none
  else .atomic fun db =>
    ((db, [.checked gardenId contentHash]), db.duplicate gardenId contentHash)

end Duplicates

section Finalize

/-- Cancel one stale deployment. -/
def cancelStale (deployment : Deployment) : Program PUnit := do
  match ← updateDeployment deployment.id { state := .canceled } with
  | .ok _ => .emit (.audit deployment.id .canceled .stale none none)
  | .error _ => pure ⟨⟩

/-- `cancel_stale_for_subscriptions`. -/
def cancelStaleForSubscriptions (subscriptionIds : List ℕ) : Program PUnit := do
  let stale ← select (·.map Deployment.id) fun db => db.deployments.rows.filter fun d =>
    d.subscriptions.any (· ∈ subscriptionIds) && d.state = .stale
  stale.forM cancelStale

/-- Time of the last dispatch, or of the insertion. -/
def Deployment.lastActive (deployment : Deployment) : DateTime :=
  deployment.lastDispatchedAt.getD deployment.insertedAt

/-- Those that have waited longest first. -/
def waitingFirst (deployments : List Deployment) : List Deployment :=
  deployments.insertionSort fun a b =>
    toLex (a.lastActive, a.insertedAt) ≤ toLex (b.lastActive, b.insertedAt)

/-- `finalize_stale_deployment`: read the row again and finalize it when it is
still unresolved. -/
def finalizeStaleDeployment (now : DateTime) (deployment : Deployment) : Program PUnit := do
  let unresolved ← select (·.toList.map Deployment.id) fun db =>
    (db.deployments.find? deployment.id).filter fun d => !d.state.terminal
  match unresolved with
  | none => pure ⟨⟩
  | some unresolved =>
    match ← updateDeployment unresolved.id
        { deployedAt := some now, result := some .failure, state := .stale } with
    | .ok _ => .emit (.audit unresolved.id .canceled .stale none none)
    | .error _ => pure ⟨⟩

/-- `finalize_stale_deployments`, with the age in seconds. -/
def finalizeStaleDeployments (now : DateTime) (staleAfterSeconds : ℤ) (batchSize : ℤ) :
    Program PUnit :=
  if staleAfterSeconds ≤ 0 ∨ batchSize ≤ 0 then pure ⟨⟩
  else do
    let cutoff := now - staleAfterSeconds * 1000000
    let stale ← select (·.map Deployment.id) fun db =>
      (waitingFirst (db.deployments.rows.filter fun d =>
        !d.state.terminal && d.lastActive ≤ cutoff)).take batchSize.toNat
    stale.forM (finalizeStaleDeployment now)

end Finalize

section Record

/-- Why a report of a garden was not recorded. -/
inductive RecordError where
  | deploymentNotFound
  | rejected (reason : UpdateError)
  deriving DecidableEq, Repr

/-- `get_deployment_sid` for a report. -/
def getDeploymentSid (sid : Sid) : Program (Option Deployment) :=
  .atomic fun db =>
    ((db, [.looked sid (db.deployments.find? sid).isSome]), db.deployments.find? sid)

/-- Look up the deployment of a report and update it. -/
def recordReport (sid : Sid) (attrs : Attrs) : Program (Except RecordError Deployment) := do
  match ← getDeploymentSid sid with
  | none => return .error .deploymentNotFound
  | some deployment =>
    match ← updateDeployment deployment.id attrs with
    | .ok updated => return .ok updated
    | .error reason => return .error (.rejected reason)

/-- `record_deployment_status`: a garden can only acknowledge. -/
def recordDeploymentStatus (sid : Sid) : Program (Except RecordError Deployment) :=
  recordReport sid { state := .acknowledged }

/-- `record_deployment`: store the garden's result. -/
def recordDeployment (sid : Sid) (result : DeploymentResult) (deployedAt : DateTime) :
    Program (Except RecordError Deployment) :=
  recordReport sid { deployedAt := some deployedAt, result := some result, state := .completed }

end Record

section Dispatch

/-- Options of a deployment request. -/
structure DeployOpts where
  force : Bool := false
  actorSid : Option Sid := none
  eventReason : Option Reason := none
  note : Option String := none
  /-- Seed to deploy instead of the matching one. -/
  seed : Option Seed := none
  directAction : Option String := none
  directOverride : Bool := false
  deriving DecidableEq, Repr

/-- Why a deployment was not dispatched. -/
inductive DispatchError where
  | seedsNotFound
  /-- A constraint of the database was violated and the process raised. -/
  | raised
  deriving DecidableEq, Repr

/-- The audit entry of a created deployment, when an actor and a reason are given. -/
def recordCreated (id : ℕ) (opts : DeployOpts) : Program PUnit :=
  match opts.actorSid, opts.eventReason with
  | some actor, some reason => .emit (.audit id .created reason (some actor) opts.note)
  | _, _ => pure ⟨⟩

/-- The row of a new deployment. -/
def newDeployment (platform : Platform) (gardenId : ℕ) (seeds : List ℕ)
    (subscriptions : List Subscription) (opts : DeployOpts) (now : DateTime) : NewDeployment where
  gardenId := gardenId
  contentHash := computeContentHash platform seeds
  lastDispatchedAt := some now
  state := .dispatched
  directAction := opts.directAction
  directOverride := opts.directOverride
  seeds := seeds
  subscriptions := subscriptions.map Subscription.id

/-- Answer with the deployment that already does the work, or create a new one. -/
def dispatchSeedDeploys (platform : Platform) (requestId : Sid) (gardenId : ℕ)
    (seedDeploys : List SeedDeployment) (subscriptions : List Subscription) (opts : DeployOpts) :
    Program (Except DispatchError Wire.Deployment) := do
  let seeds := seedDeploys.map fun seedDeploy => seedDeploy.seed.sid
  if seeds = [] then return .error .seedsNotFound
  else do
    let contentHash := computeContentHash platform seeds
    match ← findDuplicateDeployment gardenId contentHash opts.force with
    | some existing =>
      return .ok ⟨some requestId, existing.id, seedDeploys, true⟩
    | none => do
      let now ← utcNow
      match ← createDeployment (newDeployment platform gardenId seeds subscriptions opts now) with
      | none => return .error .raised
      | some deployment => do
        recordCreated deployment.id opts
        cancelStaleForSubscriptions (subscriptions.map Subscription.id)
        return .ok ⟨some requestId, deployment.id, seedDeploys, false⟩

/-- The seed of the request, or the latest one that matches. -/
def seedFor (opts : DeployOpts) (subscription : Subscription) : Program (Option Seed) :=
  match opts.seed with
  | some seed => pure (some seed)
  | none => matchSeed subscription none

/-- The entries for the subscriptions that have a seed, last subscription first. -/
def collectSeeds (opts : DeployOpts) :
    List SeedDeployment → List Subscription → Program (List SeedDeployment)
  | entries, [] => pure entries
  | entries, subscription :: rest => do
    match ← seedFor opts subscription with
    | none => collectSeeds opts entries rest
    | some seed =>
      let entry : SeedDeployment :=
        { seed := seed.toWire, subscriptionSid := some subscription.id }
      collectSeeds opts (entry :: entries) rest

/-- `do_deployment`. -/
def doDeployment (platform : Platform) (requestId : Sid) (gardenId : ℕ)
    (subscriptions : List Subscription) (opts : DeployOpts) :
    Program (Except DispatchError Wire.Deployment) := do
  let seedDeploys ← collectSeeds opts [] subscriptions
  dispatchSeedDeploys platform requestId gardenId seedDeploys subscriptions opts

/-- The background task of a deployment request. -/
structure Job where
  requestId : Sid
  garden : Garden
  subscriptions : List Subscription
  opts : DeployOpts
  deriving DecidableEq, Repr

/-- Broadcast the outcome of a request to the garden. -/
def announce (garden : Garden) (requestId : Sid) :
    Except DispatchError Wire.Deployment → Program PUnit
  | .ok payload => .emit (.dispatched garden.id payload)
  | .error .seedsNotFound => .emit (.failed garden.id requestId "seeds_not_found")
  | .error .raised => pure ⟨⟩

/-- `process_deployment`: deploy and broadcast the outcome. The garden of the
deployment is the one of the first subscription. -/
def Job.program (platform : Platform) (job : Job) : Program PUnit :=
  match job.subscriptions with
  | [] => pure ⟨⟩
  | first :: rest => do
    let outcome ← doDeployment platform job.requestId first.gardenId (first :: rest) job.opts
    announce job.garden job.requestId outcome

end Dispatch

section Deploy

/-- Why a subscription or a direct deployment was refused. -/
inductive DeployError where
  | gardenNotFound
  | seedNotMatching
  | confirmationRequired
  | policyDenied
  | overrideActionRequired
  | overrideReasonRequired
  | unsupportedAction
  | gardenUpgradeRequired
  | seedsNotFound
  /-- The process raised. -/
  | raised
  deriving DecidableEq, Repr

/-- Evaluate the policy of a subscription with its garden, and hand the request
to a job. -/
def deployForGarden (platform : Platform) (garden : Garden) (subscription : Subscription)
    (opts : DeployOpts) (seedSid : Option Sid) : Program (Except DeployError Job) := do
  match opts.eventReason.elim (some .manual) triggerForReason with
  | none => return .error .raised
  | some trigger => do
    let now ← utcNow
    match evaluate platform.tzdb (.list subscription.policy) trigger now
        (some subscription.seedType) subscription.timezone with
    | .error _ => return .error .raised
    | .ok (.confirm _) => return .error .confirmationRequired
    | .ok .deny => return .error .policyDenied
    | .ok (.allow _) =>
      match seedSid with
      | none => do
        let requestId ← newRequestId
        return .ok ⟨requestId, garden, [subscription], opts⟩
      | some seedSid => do
        match ← matchSeed subscription (some seedSid) with
        | none => return .error .seedNotMatching
        | some seed => do
          let requestId ← newRequestId
          return .ok ⟨requestId, garden, [subscription], { opts with seed := some seed }⟩

/-- `deploy_subscription` for a subscription whose garden is not preloaded. -/
def deploySubscription (platform : Platform) (subscription : Subscription) (opts : DeployOpts)
    (seedSid : Option Sid) : Program (Except DeployError Job) := do
  match ← Proc.read fun db : Db => db.gardens.find? subscription.gardenId with
  | none => return .error .gardenNotFound
  | some garden => deployForGarden platform garden subscription opts seedSid

/-- The oldest subscription for a garden and seed identity. -/
def findForGardenSeed (garden : Garden) (name seedType : String) : Program (Option Subscription) :=
  .read fun db => (db.subscriptions.rows.filter fun s =>
    s.gardenId = garden.id && s.seedName = name && s.seedType = seedType).argmin
      fun s => toLex (s.insertedAt, s.id)

/-- Options of a direct deployment. -/
structure DirectOpts where
  action : Option String := none
  override : Bool := false
  reason : Option String := none
  force : Bool := false
  actorSid : Option Sid := none
  deriving DecidableEq, Repr

/-- Every live connection of the garden supports overrides, and there is one. -/
def Db.supportsOverride (db : Db) (garden : Garden) : Bool :=
  db.presence garden.id ≠ [] && (db.presence garden.id).all id

/-- `authorize_direct_override`. -/
def authorizeDirectOverride (garden : Garden) : Program Bool :=
  .read fun db => db.supportsOverride garden

/-- `authorize_direct`: the action to dispatch and whether it is an override. -/
def authorizeDirect (platform : Platform) (garden : Garden) (seed : Seed) (opts : DirectOpts) :
    Program (Except DeployError (String × Bool)) := do
  let action := opts.action.getD "activate"
  if opts.override && opts.action.isNone then return .error .overrideActionRequired
  else if opts.override && opts.reason.isNone then return .error .overrideReasonRequired
  else if ¬ (Action.ofName? action).any (· ∈ actionsBySeedType (some seed.seedType)) then
    return .error .unsupportedAction
  else if opts.override then do
    if ← authorizeDirectOverride garden then return .ok (action, true)
    else return .error .gardenUpgradeRequired
  else do
    let now ← utcNow
    match evaluateAction platform.tzdb (.list garden.policy) action .direct now
        (some seed.seedType) garden.timezone with
    | .error _ => return .error .raised
    | .ok (.allow allowed) => return .ok (allowed.name, false)
    | .ok (.confirm _) => return .error .confirmationRequired
    | .ok .deny => return .error .policyDenied

/-- The one entry of a direct deployment. -/
def directEntry (seed : Seed) (subscription : Option Subscription) (action : String)
    (override : Bool) : SeedDeployment where
  seed := seed.toWire
  subscriptionSid := subscription.map Subscription.id
  action := some action
  override := override

/-- Options under which a direct deployment is dispatched. -/
def DirectOpts.dispatch (opts : DirectOpts) (action : String) (override : Bool) : DeployOpts where
  force := opts.force
  actorSid := opts.actorSid
  eventReason := some (if override then .directOverride else .directTriggered)
  note := opts.reason
  directAction := some action
  directOverride := override

/-- Deploy a seed straight at a garden, bypassing subscription matching. -/
def deployDirect (platform : Platform) (garden : Garden) (seed : Seed) (opts : DirectOpts) :
    Program (Except DeployError Wire.Deployment) := do
  match ← authorizeDirect platform garden seed opts with
  | .error reason => return .error reason
  | .ok (action, override) => do
    let subscription ← findForGardenSeed garden seed.name seed.seedType
    let requestId ← newRequestId
    match ← dispatchSeedDeploys platform requestId garden.id
        [directEntry seed subscription action override] subscription.toList
        (opts.dispatch action override) with
    | .ok payload => do
      .emit (.dispatched garden.id payload)
      return .ok payload
    | .error .seedsNotFound => return .error .seedsNotFound
    | .error .raised => return .error .raised

end Deploy

section Retry

/-- Why a retry was refused. -/
inductive RetryError where
  | unauthorized
  | deploymentNotFound
  | deploymentNotRetryable
  | retryInProgress
  | raised
  deriving DecidableEq, Repr

/-- The row a retry of the loaded deployment inserts. -/
def retryRow (parent : Loaded) (ordinal : ℕ) (now : DateTime) : NewDeployment where
  gardenId := parent.deployment.gardenId
  contentHash := parent.deployment.contentHash
  seeds := parent.seeds.map Seed.id
  subscriptions := parent.subscriptions.map Subscription.id
  parentDeploymentId := some parent.deployment.id
  retryOrdinal := some ordinal
  lastDispatchedAt := some now
  state := .dispatched

/-- The inserted retry with the links it was given. -/
def Db.retryOf (db : Db) (parent : Loaded) (ordinal : ℕ) (now : DateTime) : Loaded where
  deployment := db.newRow (retryRow parent ordinal now) db.deployments.next
  seeds := parent.seeds
  subscriptions := parent.subscriptions

/-- Highest ordinal among the retries of a deployment. -/
def Db.maxRetryOrdinal (db : Db) (id : ℕ) : ℕ :=
  ((db.deployments.rows.filter fun d => d.parentDeploymentId = some id).filterMap
    Deployment.retryOrdinal).foldl max 0

/-- Insert a retry, write its audit entry and broadcast it. -/
def Db.insertRetry (db : Db) (parent : Loaded) (ordinal : ℕ) (now : DateTime) (actor : Sid) :
    (Db × List Event) × Except RetryError Deployment :=
  if db.linkable (retryRow parent ordinal now) then
    let retry := db.retryOf parent ordinal now
    let inserted := db.insertDeployment (retryRow parent ordinal now)
    (({ inserted with requests := inserted.requests + 1 },
      [.created retry.deployment.id,
        .audit retry.deployment.id .created .userRetry (some actor) none,
        .retried parent.deployment.id retry.deployment.gardenId
          (deploymentEventPayload retry inserted.requests)]), .ok retry.deployment)
  else ((db, []), .error .raised)

/-- `retry_deployment`: one transaction behind the lock of the parent. -/
def retryDeployment (platform : Platform) (id : ℕ) (userId : ℕ) :
    Program (Except RetryError Deployment) :=
  .atomic fun db =>
    match db.users.find? userId with
    | none => ((db, []), .error .unauthorized)
    | some user =>
      match db.deployments.find? id with
      | none => ((db, []), .error .deploymentNotFound)
      | some deployment =>
        if user.orgId ≠ deployment.orgId then ((db, []), .error .unauthorized)
        else if deployment.result ≠ some .success ∧ deployment.result ≠ some .failure then
          ((db, []), .error .deploymentNotRetryable)
        else if db.deployments.rows.any fun d =>
            d.parentDeploymentId = some id && !d.state.terminal then
          ((db, []), .error .retryInProgress)
        else
          db.tick.insertRetry (db.load platform deployment) (db.maxRetryOrdinal id + 1)
            (db.clock db.reads) user.id

end Retry

section Reconcile

/-- `last_successful_deployment_time`; a missing time sorts first. -/
def Db.lastSuccessfulDeploymentTime (db : Db) (subscriptionId : ℕ) : Option DateTime :=
  let times := (db.deployments.rows.filter fun d =>
    subscriptionId ∈ d.subscriptions && d.state = .completed && d.result = some .success).map
      Deployment.deployedAt
  if none ∈ times then none else (times.filterMap id).max?

/-- `schedule_is_overdue?`. -/
def scheduleIsOverdue (platform : Platform) (now : DateTime) (subscription : Subscription) :
    Program (Except Raise Bool) :=
  match subscription.schedule with
  | none => return .ok false
  | some schedule =>
    match platform.crontab schedule with
    | .invalid => return .ok false
    | .reboot => return .ok false
    | .previousRun before =>
      let previous : Except Raise DateTime := do
        let naive ← toLocalNaive platform.tzdb now subscription.timezone
        match before naive with
        | none => .error (.noPreviousRun schedule)
        | some run => fromLocalNaive platform.tzdb run subscription.timezone
      match previous with
      | .error e => return .error e
      | .ok previous => do
        let last ← Proc.read fun db : Db => db.lastSuccessfulDeploymentTime subscription.id
        match last with
        | none => return .ok true
        | some deployedAt => return .ok (previous > deployedAt)

/-- Those of the subscriptions that are overdue. -/
def filterOverdue (platform : Platform) (now : DateTime) :
    List Subscription → Program (Except Raise (List Subscription))
  | [] => return .ok []
  | subscription :: rest => do
    match ← scheduleIsOverdue platform now subscription with
    | .error e => return .error e
    | .ok overdue => do
      match ← filterOverdue platform now rest with
      | .error e => return .error e
      | .ok others => return .ok (if overdue then subscription :: others else others)

/-- `catch_up_overdue_schedules`. -/
def catchUpOverdueSchedules (platform : Platform) (garden : Garden) (now : DateTime) :
    Program (Except Raise (List Subscription)) := do
  let scheduled ← Proc.read fun db : Db => db.subscriptions.rows.filter fun s =>
    s.gardenId = garden.id && s.schedule.isSome
  filterOverdue platform now scheduled

/-- `list_unresolved_deployments_for_garden`. -/
def listUnresolved (platform : Platform) (garden : Garden) : Program (List Loaded) :=
  select (·.map fun loaded => loaded.deployment.id) fun db =>
    (waitingFirst (db.deployments.rows.filter fun d =>
      d.gardenId = garden.id && !d.state.terminal)).map (db.load platform)

/-- Some linked subscription is overdue. -/
def Loaded.superseded (loaded : Loaded) (overdue : List Subscription) : Bool :=
  loaded.subscriptions.any fun s => s.id ∈ overdue.map Subscription.id

/-- Cancel a superseded deployment; the audit entry does not wait for success. -/
def cancelSuperseded (garden : Garden) (loaded : Loaded) : Program PUnit := do
  let _ ← updateDeployment loaded.deployment.id { state := .canceled, result := some .failure }
  .emit (.audit loaded.deployment.id .canceled .superseded (some garden.id) none)

/-- An override is replayed only to a garden that supports overrides. -/
def authorizeReplay (garden : Garden) (loaded : Loaded) : Program Bool :=
  if loaded.deployment.directOverride then authorizeDirectOverride garden else pure true

def filterReplayable (garden : Garden) : List Loaded → Program (List Loaded)
  | [] => pure []
  | loaded :: rest => do
    let replayable ← authorizeReplay garden loaded
    let others ← filterReplayable garden rest
    return if replayable then loaded :: others else others

/-- `mark_deployments_dispatched`. -/
def markDeploymentsDispatched (deployments : List Loaded) (dispatchedAt : DateTime) :
    Program PUnit :=
  if deployments.isEmpty then pure ⟨⟩
  else .atomic fun db =>
    let ids := deployments.map fun loaded => loaded.deployment.id
    ((db.markDispatched ids dispatchedAt, [.marked ids (db.unresolvedAmong ids)]), ⟨⟩)

def replay (garden : Garden) (loaded : Loaded) : Program PUnit := do
  let requestId ← newRequestId
  .emit (.replayed garden.id (deploymentEventPayload loaded requestId))

/-- Deploy the overdue subscriptions, preloaded with their garden. Refusals are
skipped; a policy that cannot be read raises and ends the reconcile with the
jobs started so far. -/
def deployOverdue (platform : Platform) (garden : Garden) : List Subscription → Program (List Job)
  | [] => pure []
  | subscription :: rest => do
    match ← deployForGarden platform garden subscription
        { actorSid := some garden.id, eventReason := some .scheduleTriggered } none with
    | .ok job => do
      let jobs ← deployOverdue platform garden rest
      return job :: jobs
    | .error .raised => return []
    | .error _ => deployOverdue platform garden rest

/-- `reconcile_deployments_on_connect`, up to the jobs it starts and then waits
for. Nothing happens when some schedule cannot be evaluated. -/
def reconcileDeploymentsOnConnect (platform : Platform) (garden : Garden) (now : DateTime) :
    Program (List Job) := do
  match ← catchUpOverdueSchedules platform garden now with
  | .error _ => return []
  | .ok overdue => do
    let unresolved ← listUnresolved platform garden
    let toCancel := unresolved.filter (·.superseded overdue)
    (toCancel.forM (cancelSuperseded garden) : Program PUnit)
    let toReplay ← filterReplayable garden (unresolved.filter (!·.superseded overdue))
    markDeploymentsDispatched toReplay now
    (toReplay.forM (replay garden) : Program PUnit)
    deployOverdue platform garden overdue

end Reconcile

section Operations

/-- What the server can be asked to do. -/
inductive Operation where
  | createSeed (name seedType artifact : String) (tags : List (String × String)) (rename : Bool)
  | createSubscription (gardenId : ℕ) (name seedName seedType : String)
      (rules : List (String × String)) (schedule timezone : Option String) (policy : List Rule)
  | removeSubscriptions (gardenId : ℕ) (kept : List ℕ)
  /-- Connections of a garden come and go. -/
  | track (garden : Sid) (metas : List Bool)
  | recordDeploymentStatus (sid : Sid)
  | recordDeployment (sid : Sid) (result : DeploymentResult) (deployedAt : DateTime)
  | finalizeStaleDeployments (now : DateTime) (staleAfterSeconds batchSize : ℤ)
  | cancelStaleForSubscriptions (subscriptionIds : List ℕ)
  | reconcileDeploymentsOnConnect (garden : Garden) (now : DateTime)
  | deploySubscription (subscription : Subscription) (opts : DeployOpts) (seedSid : Option Sid)
  | processDeployment (job : Job)
  | deployDirect (garden : Garden) (seed : Seed) (opts : DirectOpts)
  | retryDeployment (id userId : ℕ)

/-- Drop the result of a program. -/
def discard {α : Type} (program : Program α) : Program PUnit := do
  let _ ← program
  return ⟨⟩

/-- The program of an operation. Jobs run as operations of their own. -/
def Operation.program (platform : Platform) : Operation → Program PUnit
  | .createSeed name seedType artifact tags rename =>
    Server.createSeed name seedType artifact tags rename
  | .createSubscription gardenId name seedName seedType rules schedule timezone policy =>
    .atomic fun db =>
      ((db.registerSubscription gardenId name seedName seedType rules schedule timezone policy, []),
        ⟨⟩)
  | .removeSubscriptions gardenId kept =>
    .atomic fun db => ((db.removeSubscriptions gardenId kept, []), ⟨⟩)
  | .track garden metas =>
    .atomic fun db =>
      (({ db with presence := fun g => if g = garden then metas else db.presence g }, []), ⟨⟩)
  | .recordDeploymentStatus sid => discard (Server.recordDeploymentStatus sid)
  | .recordDeployment sid result deployedAt => discard (Server.recordDeployment sid result deployedAt)
  | .finalizeStaleDeployments now age batchSize => Server.finalizeStaleDeployments now age batchSize
  | .cancelStaleForSubscriptions subscriptionIds =>
    Server.cancelStaleForSubscriptions subscriptionIds
  | .reconcileDeploymentsOnConnect garden now =>
    discard (Server.reconcileDeploymentsOnConnect platform garden now)
  | .deploySubscription subscription opts seedSid =>
    discard (Server.deploySubscription platform subscription opts seedSid)
  | .processDeployment job => job.program platform
  | .deployDirect garden seed opts => discard (Server.deployDirect platform garden seed opts)
  | .retryDeployment id userId => discard (Server.retryDeployment platform id userId)

/-- The store after a history of operations, one after the other. -/
def Db.after (platform : Platform) (db : Db) (history : List Operation) : Db :=
  history.foldl (fun db operation => (operation.program platform).final db) db

end Operations

end Sower.Server
