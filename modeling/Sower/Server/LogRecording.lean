import Sower.Lib.Interleaving
import Sower.Server.Channel
import Sower.Server.RetryTransaction

/-!
# Recording and ending a log, step by step

A report about a log looks up the owner of the log, starts one under the lock of the
deployment's row when there is none, and then asks the owner to append. The update that
ends a deployment stops its owner under the same lock, before it commits. Everything
between two of these steps may belong to other processes. Undisturbed, both programs do
what the channel's single step does.
-/

namespace Sower.Server.Recording

open Sower.Wire Process Proc Keyed

section Programs

/-- What the processes do to the log of a deployment. -/
inductive LogTrace where
  /-- A transaction locked the deployment's row. -/
  | locked (sid : Sid)
  /-- The transaction that held the row's lock ended. -/
  | unlocked (sid : Sid)
  /-- An update that makes the deployment final was committed. -/
  | finished (sid : Sid)
  /-- The owner of the log accepted a chunk. -/
  | appended (sid : Sid)
  /-- The garden was told that its chunk was accepted. -/
  | acknowledged (sid : Sid)
  deriving DecidableEq, Repr

/-- An operation on the server as a program of atomic steps. -/
abbrev NodeProgram := Proc Node LogTrace

/-- How a call to the pool of owners ends. -/
inductive PoolCall where
  | answered
  /-- The pool started the owner and exited before it could answer. -/
  | lost
  /-- There is no pool to call. -/
  | down
  deriving DecidableEq, Repr

/-- Read the row and take its lock when it is free. -/
def tryLockRow (sid : Sid) (node : Node) : (Node × List LogTrace) × Lock :=
  match node.db.tryLock sid with
  | ((db, _), .acquired deployment) => (({ node with db := db }, [.locked sid]), .acquired deployment)
  | (_, answer) => ((node, []), answer)

/-- `lock: "FOR UPDATE"`, asked for as often as the patience allows. -/
def lockRow (sid : Sid) : ℕ → NodeProgram Lock
  | 0 => pure .held
  | patience + 1 => do
    match ← Proc.atomic (tryLockRow sid) with
    | .held => lockRow sid patience
    | .missing => pure .missing
    | .acquired deployment => pure (.acquired deployment)

/-- The transaction ends and leaves the row as it was. -/
def endTransaction {α : Type} (sid : Sid) (value : α) : NodeProgram α :=
  .atomic fun node => (({ node with db := node.db.unlock sid }, [.unlocked sid]), value)

/-- `Pool.ensure`: the owner is looked up before the pool is asked for it. -/
def ensureOwner (deployment : Deployment) (seeds : List Sid) (call : PoolCall) :
    NodeProgram (Except LogError ℕ) := do
  match ← Proc.read fun node : Node => node.logs.lookup deployment.orgId deployment.id with
  | some owner => pure (.ok owner.pid)
  | none =>
    if call = .down then pure (.error .bufferUnavailable)
    else
      .atomic fun node =>
        let started := node.logs.ensure deployment seeds
        (({ node with logs := started.1 }, []),
          if call = .lost then .error .bufferUnavailable else started.2)

/-- `create_owner`. Nothing while it still waits for the lock, or when the database
refuses the commit. -/
def createOwner (garden : Garden) (request : SeedDeploymentLog) (patience : ℕ) (call : PoolCall)
    (commits : Bool) : NodeProgram (Option (Except LogError ℕ)) := do
  let sid := request.deploymentSid
  match ← lockRow sid patience with
  | .held => return none
  | .missing => return some (.error .deploymentNotFound)
  | .acquired deployment =>
    if deployment.gardenId ≠ garden.id then endTransaction sid (some (.error .unauthorized))
    else if deployment.state.terminal then
      endTransaction sid (some (.error .deploymentTerminal))
    else do
      let seeds ← Proc.read fun node : Node => node.db.storedSeeds deployment
      if request.seedSid ∈ seeds then do
        let answer ← ensureOwner deployment seeds call
        endTransaction sid (if commits then some answer else none)
      else endTransaction sid (some (.error .seedNotInDeployment))

/-- `find_owner`. -/
def findOwner (garden : Garden) (request : SeedDeploymentLog) (patience : ℕ) (call : PoolCall)
    (commits : Bool) : NodeProgram (Option (Except LogError ℕ)) := do
  match ← Proc.read fun node : Node => node.logs.lookup node.db.orgId request.deploymentSid with
  | some owner => return some (.ok owner.pid)
  | none => createOwner garden request patience call commits

/-- `Buffer.append`, handled by the owner. -/
def appendChunk (pid : ℕ) (garden : Garden) (request : SeedDeploymentLog) :
    NodeProgram (Except LogError Unit) :=
  .atomic fun node =>
    match node.logs.append pid node.db.orgId garden request with
    | ((logs, _), .ok _) =>
      (({ node with logs := logs }, [.appended request.deploymentSid]), .ok ())
    | ((logs, _), .error reason) => (({ node with logs := logs }, []), .error reason)

/-- `record`. The caller gives up when the owner does not answer in time. -/
def record (garden : Garden) (request : SeedDeploymentLog) (patience : ℕ) (call : PoolCall)
    (commits answered : Bool) : NodeProgram (Option (Except LogError Unit)) := do
  if request.valid = false then return some (.error .invalidLogChunk)
  else
    match ← findOwner garden request patience call commits with
    | none => return none
    | some (.error reason) => return some (.error reason)
    | some (.ok pid) =>
      if answered then do
        let reply ← appendChunk pid garden request
        return some reply
      else return some (.error .bufferUnavailable)

/-- `handle_in` for a chunk: the reply to the garden follows the one of the owner. -/
def reportLog (garden : Garden) (request : SeedDeploymentLog) (patience : ℕ) (call : PoolCall)
    (commits answered : Bool) : NodeProgram PUnit := do
  match ← record garden request patience call commits answered with
  | some (.ok _) => .emit (.acknowledged request.deploymentSid)
  | _ => return ⟨⟩

/-- `delete_for_deployment`: the owner is looked up and stopped. -/
def deleteForDeployment (deployment : Deployment) : NodeProgram PUnit := do
  match ← Proc.read fun node : Node => node.logs.lookup deployment.orgId deployment.id with
  | none => return ⟨⟩
  | some owner =>
    .atomic fun node => (({ node with logs := node.logs.stop owner.pid }, []), ⟨⟩)

/-- The row as it is committed, with the lock given back. -/
def commitRow (id : ℕ) (attrs : Attrs) (node : Node) : Node :=
  { node with db := (node.db.setDeployment id attrs).unlock id }

/-- What is left of an update once the log is dealt with. -/
def endUpdate (locked : Deployment) (attrs : Attrs) (commits : Bool) :
    NodeProgram (Option (Except UpdateError Deployment)) :=
  if commits then
    .atomic fun node =>
      ((commitRow locked.id attrs node,
        if attrs.state.terminal then [.finished locked.id, .unlocked locked.id]
        else [.unlocked locked.id]), some (.ok (locked.apply attrs)))
  else endTransaction locked.id none

/-- `update_deployment`. Nothing while it still waits for the lock, or when the
database refuses what it has written. -/
def updateDeployment (id : ℕ) (attrs : Attrs) (patience : ℕ) (commits : Bool) :
    NodeProgram (Option (Except UpdateError Deployment)) := do
  match ← lockRow id patience with
  | .held => return none
  | .missing => return some (.error .notFound)
  | .acquired locked =>
    if locked.state.terminal && !attrs.state.terminal then
      endTransaction id (some (.error .deploymentTerminal))
    else if attrs.state.terminal then do
      deleteForDeployment (locked.apply attrs)
      endUpdate locked attrs commits
    else endUpdate locked attrs commits

/-- An update as the process that asked for it runs it. -/
def reportUpdate (id : ℕ) (attrs : Attrs) (patience : ℕ) (commits : Bool) : NodeProgram PUnit := do
  let _ ← updateDeployment id attrs patience commits
  return ⟨⟩

/-- An owner ends, for whatever reason. -/
def endOwner (pid : ℕ) : NodeProgram PUnit :=
  .atomic fun node => (({ node with logs := node.logs.stop pid }, []), ⟨⟩)

/-- A pool that starts again stops the owners that its predecessor has left. -/
def restartPool (pool : LogPool) (hpool : pool.Consistent) : NodeProgram PUnit :=
  .atomic fun node =>
    (({ node with logs := ⟨node.logs.live.delete fun _ => true, pool, hpool⟩ }, []), ⟨⟩)

/-- An owner gets to a chunk whose sender has given up. -/
def appendLate (pid : ℕ) (garden : Garden) (request : SeedDeploymentLog) : NodeProgram PUnit := do
  let _ ← appendChunk pid garden request
  return ⟨⟩

/-- The processes that work on logs and deployments. -/
inductive Operates : NodeProgram PUnit → Prop
  | reportLog (garden : Garden) (request : SeedDeploymentLog) (patience : ℕ) (call : PoolCall)
      (commits answered : Bool) :
      Operates (reportLog garden request patience call commits answered)
  | reportUpdate (id : ℕ) (attrs : Attrs) (patience : ℕ) (commits : Bool) :
      Operates (reportUpdate id attrs patience commits)
  | endOwner (pid : ℕ) : Operates (endOwner pid)
  | restartPool (pool : LogPool) (hpool : pool.Consistent) : Operates (restartPool pool hpool)
  | appendLate (pid : ℕ) (garden : Garden) (request : SeedDeploymentLog) :
      Operates (appendLate pid garden request)

end Programs

section Undisturbed

variable {node : Node} {sid : Sid}

/-- The node with the deployment's row locked. -/
abbrev lockedNode (node : Node) (sid : Sid) : Node := { node with db := node.db.lock sid }

/-- All that a request for a lock can do. -/
theorem tryLockRow_cases (sid : Sid) (node : Node) :
    (∃ answer, tryLockRow sid node = ((node, []), answer) ∧
      ∀ deployment, answer ≠ .acquired deployment) ∨
    ∃ deployment, node.db.deployments.find? sid = some deployment ∧ sid ∉ node.db.locks ∧
      tryLockRow sid node = ((lockedNode node sid, [.locked sid]), .acquired deployment) := by
  unfold tryLockRow
  rcases tryLock_cases node.db sid with ⟨answer, h, hanswer⟩ | ⟨deployment, hfind, hfree, h⟩
  · rw [h]
    cases answer with
    | held => exact Or.inl ⟨_, rfl, hanswer⟩
    | missing => exact Or.inl ⟨_, rfl, hanswer⟩
    | acquired deployment => exact absurd rfl (hanswer deployment)
  · rw [h]
    exact Or.inr ⟨deployment, hfind, hfree, rfl⟩

/-- A free row is locked at once. -/
theorem run_lockRow {deployment : Deployment} (patience : ℕ) (hfree : sid ∉ node.db.locks)
    (hfind : node.db.deployments.find? sid = some deployment) :
    (lockRow sid (patience + 1)).run node =
      (.acquired deployment, lockedNode node sid, [.locked sid]) := by
  have htry : tryLockRow sid node =
      ((lockedNode node sid, [.locked sid]), .acquired deployment) := by
    rcases tryLockRow_cases sid node with ⟨answer, h, hanswer⟩ | ⟨found, hfound, _, h⟩
    · unfold tryLockRow Db.tryLock at h
      simp only [hfind, hfree, if_false] at h
      have hanswered := congrArg Prod.snd h
      exact absurd hanswered.symm (hanswer deployment)
    · rw [hfind, Option.some.injEq] at hfound
      rw [h, hfound]
  have hstep : (Proc.atomic (tryLockRow sid)).run node =
      (.acquired deployment, lockedNode node sid, [.locked sid]) := by
    rw [run_atomic, htry]
  have hlast : (pure (Lock.acquired deployment) : NodeProgram Lock).run (lockedNode node sid) =
      (.acquired deployment, lockedNode node sid, []) := rfl
  exact run_bind_eq hstep hlast

/-- There is no row to lock. -/
theorem run_lockRow_missing (patience : ℕ) (hfind : node.db.deployments.find? sid = none) :
    (lockRow sid (patience + 1)).run node = (.missing, node, []) := by
  have hstep : (Proc.atomic (tryLockRow sid)).run node = (.missing, node, []) := by
    rw [run_atomic]
    unfold tryLockRow Db.tryLock
    simp only [hfind]
  have hlast : (pure Lock.missing : NodeProgram Lock).run node = (.missing, node, []) := rfl
  exact run_bind_eq hstep hlast

/-- A transaction that only had the lock leaves no trace. -/
theorem unlock_lockedNode (node : Node) (sid : Sid) :
    ({ lockedNode node sid with db := (lockedNode node sid).db.unlock sid } : Node) = node := by
  have hunlocked : (lockedNode node sid).db.unlock sid = node.db := unlock_lock
  rw [hunlocked]

/-- Ending the transaction undoes the lock, whatever became of the logs. -/
theorem run_endTransaction {α : Type} (logs : Logs) (value : α) :
    (endTransaction sid value).run { lockedNode node sid with logs := logs } =
      (value, { node with logs := logs }, [.unlocked sid]) := by
  have hunlocked := unlock_lockedNode { node with logs := logs } sid
  unfold endTransaction
  rw [run_atomic]
  exact congrArg (fun after : Node => (value, after, [LogTrace.unlocked sid])) hunlocked

/-- A pool that answers is the pool of the single step. -/
theorem run_ensureOwner (deployment : Deployment) (seeds : List Sid) (node : Node) :
    (ensureOwner deployment seeds .answered).run node =
      ((node.logs.ensure deployment seeds).2,
        { node with logs := (node.logs.ensure deployment seeds).1 }, []) := by
  unfold ensureOwner
  rw [run_bind]
  rcases hlookup : node.logs.lookup deployment.orgId deployment.id with _ | owner
  · simp [Proc.read, run_atomic, hlookup]
  · have hensure : node.logs.ensure deployment seeds = (node.logs, .ok owner.pid) := by
      unfold Logs.ensure
      rw [hlookup]
    simp [Proc.read, run_atomic, hlookup, hensure, Proc.run]

/-- Undisturbed, the owner is found or started as in the single step. -/
theorem run_findOwner (garden : Garden) (request : SeedDeploymentLog) (patience : ℕ)
    (hfree : request.deploymentSid ∉ node.db.locks) :
    ∃ es, (findOwner garden request (patience + 1) .answered true).run node =
      (some (node.findOwner garden request).2,
        { node with logs := (node.findOwner garden request).1 }, es) := by
  unfold findOwner Node.findOwner
  rw [run_bind]
  rcases hlookup : node.logs.lookup node.db.orgId request.deploymentSid with _ | owner
  · simp only [Proc.read, run_atomic, hlookup]
    unfold createOwner Node.checkOwner
    rw [run_bind]
    rcases hfind : node.db.deployments.find? request.deploymentSid with _ | deployment
    · simp [run_lockRow_missing patience hfind, Proc.run]
    · rw [run_lockRow patience hfree hfind]
      dsimp only
      by_cases hgarden : deployment.gardenId ≠ garden.id
      · rw [if_pos hgarden, if_pos hgarden, run_endTransaction node.logs]
        exact ⟨_, rfl⟩
      · rw [if_neg hgarden, if_neg hgarden]
        by_cases hterminal : deployment.state.terminal = true
        · rw [if_pos hterminal, if_pos hterminal, run_endTransaction node.logs]
          exact ⟨_, rfl⟩
        · rw [if_neg hterminal, if_neg hterminal, run_bind]
          have hseeds : (lockedNode node request.deploymentSid).db.storedSeeds deployment =
              node.db.storedSeeds deployment := rfl
          simp only [Proc.read, run_atomic, hseeds]
          by_cases hseed : request.seedSid ∈ node.db.storedSeeds deployment
          · rw [if_pos hseed, if_pos hseed, run_bind, run_ensureOwner]
            simp only [if_true]
            rw [run_endTransaction]
            exact ⟨_, rfl⟩
          · rw [if_neg hseed, if_neg hseed, run_endTransaction node.logs]
            exact ⟨_, rfl⟩
  · exact ⟨[], by simp [Proc.read, run_atomic, hlookup, Proc.run]⟩

/-- A report that is not disturbed, whose lock is free and whose calls are answered does
what the channel's single step does. -/
theorem record_refines (garden : Garden) (request : SeedDeploymentLog) (patience : ℕ)
    (hfree : request.deploymentSid ∉ node.db.locks) :
    ((record garden request (patience + 1) .answered true true).result node).map
        (Except.mapError ChannelError.log) = some (node.recordLog garden request).2 ∧
      (record garden request (patience + 1) .answered true true).final node =
        (node.recordLog garden request).1 := by
  obtain ⟨es, hfound⟩ := run_findOwner garden request patience hfree
  unfold record Node.recordLog
  by_cases hvalid : request.valid = false
  · rw [if_pos hvalid, if_pos hvalid]
    exact ⟨rfl, rfl⟩
  · rw [if_neg hvalid, if_neg hvalid]
    unfold result final
    rw [run_bind, hfound]
    rcases hanswer : node.findOwner garden request with ⟨logs, reason | pid⟩
    · exact ⟨rfl, rfl⟩
    · dsimp only
      rw [if_pos (rfl : true = true), run_bind]
      unfold appendChunk
      rw [run_atomic]
      dsimp only
      rcases happend : logs.append pid node.db.orgId garden request with
        ⟨⟨logs', sent⟩, reason | done⟩
      · exact ⟨rfl, rfl⟩
      · exact ⟨rfl, rfl⟩

/-- The log of the deployment is gone once its owner is stopped. -/
theorem run_deleteForDeployment (deployment : Deployment) (node : Node) :
    (deleteForDeployment deployment).run node =
      (⟨⟩, { node with logs := node.logs.delete deployment.orgId deployment.id }, []) := by
  unfold deleteForDeployment Logs.delete
  rw [run_bind]
  rcases hlookup : node.logs.lookup deployment.orgId deployment.id with _ | owner
  · simp [Proc.read, run_atomic, hlookup, Proc.run]
  · simp [Proc.read, run_atomic, hlookup]

/-- A committed row is the rewritten one, and its lock is free again. -/
theorem run_endUpdate (locked : Deployment) (attrs : Attrs) (logs : Logs) :
    ∃ es, (endUpdate locked attrs true).run { lockedNode node locked.id with logs := logs } =
      (some (.ok (locked.apply attrs)),
        { node with db := node.db.setDeployment locked.id attrs, logs := logs }, es) := by
  have hunlocked : ((node.db.lock locked.id).setDeployment locked.id attrs).unlock locked.id =
      node.db.setDeployment locked.id attrs := by
    change ((node.db.setDeployment locked.id attrs).lock locked.id).unlock locked.id = _
    exact unlock_lock
  unfold endUpdate commitRow
  rw [if_pos rfl, run_atomic]
  dsimp only
  rw [hunlocked]
  exact ⟨_, rfl⟩

/-- An update that is not disturbed, whose lock is free and which commits does what the
channel's single step does. -/
theorem updateDeployment_refines (id : ℕ) (attrs : Attrs) (patience : ℕ)
    (hfree : id ∉ node.db.locks) :
    (updateDeployment id attrs (patience + 1) true).result node =
        some (node.updateDeployment id attrs).2 ∧
      (updateDeployment id attrs (patience + 1) true).final node =
        (node.updateDeployment id attrs).1 := by
  unfold updateDeployment Node.updateDeployment Db.lockedUpdate result final
  rw [run_bind]
  rcases hfind : node.db.deployments.find? id with _ | locked
  · rw [run_lockRow_missing patience hfind]
    exact ⟨rfl, rfl⟩
  · obtain rfl := find?_id hfind
    rw [run_lockRow patience hfree hfind]
    dsimp only
    by_cases hreopened : (locked.state.terminal && !attrs.state.terminal) = true
    · have hended := @run_endTransaction node locked.id _ node.logs
        (some (.error .deploymentTerminal : Except UpdateError Deployment))
      rw [if_pos hreopened, if_pos hreopened]
      exact ⟨congrArg Prod.fst hended, congrArg (fun run => run.2.1) hended⟩
    · rw [if_neg hreopened, if_neg hreopened]
      dsimp only
      by_cases hterminal : attrs.state.terminal = true
      · obtain ⟨es, hended⟩ := @run_endUpdate node locked attrs
          (node.logs.delete (locked.apply attrs).orgId (locked.apply attrs).id)
        have happlied : (locked.apply attrs).state.terminal = true := hterminal
        rw [if_pos hterminal, if_pos happlied, run_bind, run_deleteForDeployment]
        exact ⟨congrArg Prod.fst hended, congrArg (fun run => run.2.1) hended⟩
      · obtain ⟨es, hended⟩ := @run_endUpdate node locked attrs node.logs
        have happlied : ¬ (locked.apply attrs).state.terminal = true := hterminal
        rw [if_neg hterminal, if_neg happlied]
        exact ⟨congrArg Prod.fst hended, congrArg (fun run => run.2.1) hended⟩

end Undisturbed

end Sower.Server.Recording
