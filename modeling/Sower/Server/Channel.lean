import Sower.Server.Deployments
import Sower.Server.LogPool

/-!
# Reports on a garden's channel

A channel process hands the reports of its garden to the deployments, their seeds
and their logs. Identifiers come from the payload: reports about seeds and logs are
checked against the garden, reports about a deployment are not. The pool of logs is
shared by all gardens.
-/

namespace Sower.Server

open Sower.Calendar Sower.Policy Sower.Wire Process Proc Keyed

section Nodes

/-- Progress of a seed of a deployment. -/
inductive SeedState where
  | pending
  | reported (status : SeedStatus)
  deriving DecidableEq, Repr

/-- A row of `seed_deployment`. -/
structure SeedDeploymentRow where
  id : ℕ
  deploymentId : ℕ
  seedId : ℕ
  log : Option String
  result : Option SeedResult
  state : SeedState
  deriving DecidableEq, Repr

/-- The server as its channels see it: the database, the progress of the seeds and
the logs in memory. -/
structure Node where
  db : Db
  seedDeployments : Table SeedDeploymentRow SeedDeploymentRow.id := .empty
  logs : Logs

/-- Reports that a joined garden can send. The one status of a deployment is that it
is acknowledged. -/
inductive ChannelMessage where
  | deploymentStatus (deploymentSid : Sid)
  | deploymentResult (deploymentSid : Sid) (result : DeploymentResult) (deployedAt : DateTime)
  | seedStatus (deploymentSid seedSid : Sid) (status : SeedStatus)
  | seedResult (deploymentSid seedSid : Sid) (result : Option SeedResult) (log : Option String)
  | seedLog (request : SeedDeploymentLog)

/-- Why a report was refused. -/
inductive ChannelError where
  | deploymentNotFound
  | unauthorized
  | seedNotInDeployment
  | rejected (reason : UpdateError)
  | log (reason : LogError)
  /-- The channel process raised. -/
  | raised
  deriving DecidableEq, Repr

end Nodes

section Deployments

/-- `update_deployment` with the log: it goes when the deployment becomes final. -/
def Node.updateDeployment (node : Node) (id : ℕ) (attrs : Attrs) :
    Node × Except UpdateError Deployment :=
  match node.db.lockedUpdate id attrs with
  | (_, .error reason) => (node, .error reason)
  | ((db, _), .ok updated) =>
    ({ node with
      db := db
      logs := if updated.state.terminal then node.logs.delete updated.orgId updated.id
        else node.logs }, .ok updated)

/-- Look up the deployment of a report and update it, whoever's it is. -/
def Node.recordReport (node : Node) (sid : Sid) (attrs : Attrs) : Node × Except ChannelError Unit :=
  match node.db.deployments.find? sid with
  | none => (node, .error .deploymentNotFound)
  | some deployment =>
    match node.updateDeployment deployment.id attrs with
    | (after, .ok _) => (after, .ok ())
    | (after, .error reason) => (after, .error (.rejected reason))

/-- All that a report about a deployment can do. -/
theorem recordReport_cases (node : Node) (sid : Sid) (attrs : Attrs) :
    (∃ reason, node.recordReport sid attrs = (node, .error reason)) ∨
      ∃ deployment, node.db.deployments.find? sid = some deployment ∧
        node.recordReport sid attrs =
          ({ node with
            db := node.db.setDeployment sid attrs
            logs := if attrs.state.terminal then node.logs.delete deployment.orgId sid
              else node.logs }, .ok ()) := by
  unfold Node.recordReport Node.updateDeployment
  rcases hfind : node.db.deployments.find? sid with _ | deployment
  · exact Or.inl ⟨_, rfl⟩
  · obtain rfl := find?_id hfind
    dsimp only
    rcases lockedUpdate_cases node.db deployment.id attrs with
      ⟨reason, h⟩ | ⟨locked, hlocked, _, h⟩
    · rw [h]
      exact Or.inl ⟨_, rfl⟩
    · rw [hfind, Option.some.injEq] at hlocked
      subst hlocked
      rw [h]
      exact Or.inr ⟨deployment, rfl, rfl⟩

/-- The database sees what the operation on it does. -/
theorem recordReport_db (node : Node) (sid : Sid) (attrs : Attrs) :
    (node.recordReport sid attrs).1.db = (Server.recordReport sid attrs).final node.db := by
  unfold Node.recordReport Node.updateDeployment Server.recordReport getDeploymentSid
    Server.updateDeployment
  rw [final_bind, result_atomic, final_atomic]
  rcases hfind : node.db.deployments.find? sid with _ | deployment
  · rfl
  · dsimp only
    rw [final_bind, result_atomic, final_atomic]
    rcases lockedUpdate_cases node.db deployment.id attrs with ⟨reason, h⟩ | ⟨locked, _, _, h⟩
    · rw [h]
      rfl
    · rw [h]
      rfl

end Deployments

section Seeds

/-- The row of the deployment's seed; nothing when several rows answer. -/
def Node.fetchSeedDeployment (node : Node) (deploymentId : ℕ) (seedSid : Sid) :
    Except ChannelError SeedDeploymentRow :=
  match node.seedDeployments.rows.filter fun row =>
      row.deploymentId = deploymentId && row.seedId = seedSid &&
        (node.db.seeds.find? row.seedId).isSome with
  | [] => .error .seedNotInDeployment
  | [row] => .ok row
  | _ :: _ :: _ => .error .raised

/-- Look up the seed of a report in a deployment of the garden and rewrite its row. -/
def Node.recordSeed (node : Node) (garden : Garden) (deploymentSid seedSid : Sid)
    (change : SeedDeploymentRow → SeedDeploymentRow) (hchange : ∀ row, (change row).id = row.id) :
    Node × Except ChannelError Unit :=
  match node.db.deployments.find? deploymentSid with
  | none => (node, .error .deploymentNotFound)
  | some deployment =>
    if deployment.gardenId ≠ garden.id then (node, .error .unauthorized)
    else
      match node.fetchSeedDeployment deployment.id seedSid with
      | .error reason => (node, .error reason)
      | .ok row =>
        ({ node with
          seedDeployments := node.seedDeployments.update (·.id == row.id) change hchange }, .ok ())

/-- `record_seed_status`. -/
def Node.recordSeedStatus (node : Node) (garden : Garden) (deploymentSid seedSid : Sid)
    (status : SeedStatus) : Node × Except ChannelError Unit :=
  node.recordSeed garden deploymentSid seedSid (fun row => { row with state := .reported status })
    fun _ => rfl

/-- `append_log`. -/
def appendLog : Option String → Option String → Option String
  | none, some "" => none
  | none, new => new
  | some _, none => none
  | some existing, some "" => some existing
  | some existing, some new => some (existing ++ "\n" ++ new)

/-- `record_seed_result`: a missing result only appends to the log. -/
def Node.recordSeedResult (node : Node) (garden : Garden) (deploymentSid seedSid : Sid)
    (result : Option SeedResult) (log : Option String) : Node × Except ChannelError Unit :=
  node.recordSeed garden deploymentSid seedSid
    (fun row => { row with
      log := appendLog row.log log
      result := result.or row.result }) fun _ => rfl

end Seeds

section Logs

/-- Keys of the linked seeds that still exist. -/
def Db.storedSeeds (db : Db) (deployment : Deployment) : List Sid :=
  deployment.seeds.filter fun id => (db.seeds.find? id).isSome

/-- The conditions under which `create_owner` starts an owner, and its deployment. -/
def Node.checkOwner (node : Node) (garden : Garden) (request : SeedDeploymentLog) :
    Except LogError Deployment :=
  match node.db.deployments.find? request.deploymentSid with
  | none => .error .deploymentNotFound
  | some deployment =>
    if deployment.gardenId ≠ garden.id then .error .unauthorized
    else if deployment.state.terminal then .error .deploymentTerminal
    else if request.seedSid ∈ node.db.storedSeeds deployment then .ok deployment
    else .error .seedNotInDeployment

/-- `find_owner`. -/
def Node.findOwner (node : Node) (garden : Garden) (request : SeedDeploymentLog) :
    Logs × Except LogError ℕ :=
  match node.logs.lookup node.db.orgId request.deploymentSid with
  | some owner => (node.logs, .ok owner.pid)
  | none =>
    match node.checkOwner garden request with
    | .error reason => (node.logs, .error reason)
    | .ok deployment => node.logs.ensure deployment (node.db.storedSeeds deployment)

/-- `DeploymentLog.record`. -/
def Node.recordLog (node : Node) (garden : Garden) (request : SeedDeploymentLog) :
    Node × Except ChannelError Unit :=
  if request.valid = false then (node, .error (.log .invalidLogChunk))
  else
    match node.findOwner garden request with
    | (logs, .error reason) => ({ node with logs := logs }, .error (.log reason))
    | (logs, .ok pid) =>
      match logs.append pid node.db.orgId garden request with
      | ((logs, _), .error reason) => ({ node with logs := logs }, .error (.log reason))
      | ((logs, _), .ok _) => ({ node with logs := logs }, .ok ())

end Logs

/-- `handle_in`, for a channel that the garden has joined. -/
def Node.handle (node : Node) (garden : Garden) :
    ChannelMessage → Node × Except ChannelError Unit
  | .deploymentStatus sid => node.recordReport sid { state := .acknowledged }
  | .deploymentResult sid result deployedAt =>
    node.recordReport sid
      { deployedAt := some deployedAt, result := some result, state := .completed }
  | .seedStatus deploymentSid seedSid status =>
    node.recordSeedStatus garden deploymentSid seedSid status
  | .seedResult deploymentSid seedSid result log =>
    node.recordSeedResult garden deploymentSid seedSid result log
  | .seedLog request => node.recordLog garden request

end Sower.Server
