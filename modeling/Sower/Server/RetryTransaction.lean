import Sower.Server.Deployments

/-!
# The transaction of a retry

A retry locks its parent, reads the tables statement by statement and inserts
a row that nobody else can see before the commit. The broadcast leaves the
transaction earlier. Undisturbed and committed, the transaction is the one
step of `retryDeployment`.
-/

namespace Sower.Server

open Sower.Calendar Sower.Policy Sower.Wire Process Proc Keyed

section Locks

/-- Answer to a request for the lock of a row. -/
inductive Lock where
  /-- Another transaction holds it. -/
  | held
  /-- There is no such row. -/
  | missing
  /-- The row as it stands under the lock. -/
  | acquired (deployment : Deployment)
  deriving DecidableEq, Repr

/-- Read the row and take its lock when it is free. -/
def Db.tryLock (db : Db) (id : ℕ) : (Db × List Event) × Lock :=
  match db.deployments.find? id with
  | none => ((db, []), .missing)
  | some deployment =>
    if id ∈ db.locks then ((db, []), .held)
    else (({ db with locks := id :: db.locks }, [.locked id]), .acquired deployment)

/-- Give the lock of the row back. -/
def Db.unlock (db : Db) (id : ℕ) : Db := { db with locks := db.locks.erase id }

/-- `lock: "FOR UPDATE"`: wait as long as another transaction holds the lock. The
patience bounds the requests; when it runs out, the process still waits. -/
def lockDeployment (id : ℕ) : ℕ → Program Lock
  | 0 => pure .held
  | patience + 1 => do
    match ← Proc.atomic fun db : Db => db.tryLock id with
    | .held => lockDeployment id patience
    | .missing => pure .missing
    | .acquired deployment => pure (.acquired deployment)

/-- All that a request for a lock can do. -/
theorem tryLock_cases (db : Db) (id : ℕ) :
    (∃ answer, db.tryLock id = ((db, []), answer) ∧ ∀ deployment, answer ≠ .acquired deployment) ∨
      ∃ deployment, db.deployments.find? id = some deployment ∧ id ∉ db.locks ∧
        db.tryLock id =
          (({ db with locks := id :: db.locks }, [.locked id]), .acquired deployment) := by
  unfold Db.tryLock
  rcases hfind : db.deployments.find? id with _ | deployment
  · exact Or.inl ⟨_, rfl, fun _ h => by cases h⟩
  · dsimp only
    split
    · exact Or.inl ⟨_, rfl, fun _ h => by cases h⟩
    · rename_i hfree
      exact Or.inr ⟨deployment, rfl, hfree, rfl⟩

end Locks

section Transaction

/-- What a transaction comes to; nothing while it still waits for its lock. -/
abbrev RetryOutcome := Option (Except RetryError Deployment)

/-- `Repo.rollback` before anything is inserted. -/
def rollback (id : ℕ) (reason : RetryError) : Program RetryOutcome :=
  .atomic fun db => ((db.unlock id, [.unlocked id]), some (.error reason))

/-- The store after a row is inserted that nobody else can see yet. -/
def Db.reserveDeployment (db : Db) : Db :=
  { db with deployments := db.deployments.reserve, reads := db.reads + 1 }

/-- `create_deployment` within the transaction. -/
def reserveRetry (parent : Loaded) (ordinal : ℕ) (now : DateTime) : Program (Option Loaded) :=
  .atomic fun db =>
    if db.linkable (retryRow parent ordinal now) then
      ((db.reserveDeployment, []), some (db.retryOf parent ordinal now))
    else ((db, []), none)

/-- The store after the retry has become visible and the parent is unlocked. -/
def Db.commitRetry (db : Db) (id : ℕ) (retry : Deployment) : Db :=
  { db with deployments := db.deployments.place retry, locks := db.locks.erase id }

/-- End the transaction: commit it, or lose everything it has written. -/
def endRetry (id : ℕ) (retry : Deployment) (actor : Sid) (commits : Bool) :
    Program RetryOutcome :=
  if commits then
    .atomic fun db =>
      ((db.commitRetry id retry,
        [.created retry.id, .audit retry.id .created .userRetry (some actor) none, .unlocked id]),
        some (.ok retry))
  else
    .atomic fun db =>
      ((db.unlock id, [.rolledBack retry.id, .unlocked id]), some (.error .raised))

/-- Insert the retry, broadcast it and end the transaction. -/
def insertRetry (parent : Loaded) (ordinal : ℕ) (now : DateTime) (actor : Sid) (commits : Bool) :
    Program RetryOutcome := do
  match ← reserveRetry parent ordinal now with
  | none => rollback parent.deployment.id .raised
  | some retry => do
    let requestId ← newRequestId
    .emit (.retried parent.deployment.id retry.deployment.gardenId
      (deploymentEventPayload retry requestId))
    endRetry parent.deployment.id retry.deployment actor commits

/-- Some retry of the deployment is unresolved. -/
def Db.retryInProgress (db : Db) (id : ℕ) : Bool :=
  db.deployments.rows.any fun d => d.parentDeploymentId = some id && !d.state.terminal

/-- What follows once the parent is locked and found to be retryable. -/
def retryLocked (parent : Loaded) (actor : Sid) (commits : Bool) : Program RetryOutcome := do
  let busy ← Proc.read fun db : Db => db.retryInProgress parent.deployment.id
  if busy then rollback parent.deployment.id .retryInProgress
  else do
    let maxRetryOrdinal ← Proc.read fun db : Db => db.maxRetryOrdinal parent.deployment.id
    let now ← utcNow
    insertRetry parent (maxRetryOrdinal + 1) now actor commits

/-- `retry_deployment`, statement by statement. A transaction that does not commit
is one whose commit the database refuses. -/
def retryTransaction (platform : Platform) (id userId patience : ℕ) (commits : Bool) :
    Program RetryOutcome := do
  let user ← Proc.read fun db : Db => db.users.find? userId
  match user with
  | none => return some (.error .unauthorized)
  | some user => do
    match ← lockDeployment id patience with
    | .held => return none
    | .missing => return some (.error .deploymentNotFound)
    | .acquired deployment => do
      let parent ← Proc.read fun db : Db => db.load platform deployment
      if user.orgId ≠ deployment.orgId then rollback id .unauthorized
      else if deployment.result ≠ some .success ∧ deployment.result ≠ some .failure then
        rollback id .deploymentNotRetryable
      else retryLocked parent user.id commits

end Transaction

section Undisturbed

variable {platform : Platform} {db : Db} {id : ℕ}

/-- The store with the parent locked. -/
abbrev Db.lock (db : Db) (id : ℕ) : Db := { db with locks := id :: db.locks }

theorem unlock_lock : (db.lock id).unlock id = db := by
  simp [Db.unlock]

/-- A commit behind the lock leaves what one insertion leaves. -/
theorem commitRetry_reserveDeployment (db : Db) (id : ℕ) (parent : Loaded) (ordinal : ℕ) (now : DateTime)
    (requests : Sid) :
    { (db.lock id).reserveDeployment with requests := requests }.commitRetry id
        ((db.lock id).retryOf parent ordinal now).deployment =
      { db.insertDeployment (retryRow parent ordinal now) with requests := requests } := by
  have hplace : db.deployments.reserve.place
      (db.newRow (retryRow parent ordinal now) db.deployments.next) =
        db.deployments.insert (db.newRow (retryRow parent ordinal now)) fun _ => rfl :=
    Table.place_reserve (db.newRow (retryRow parent ordinal now)) fun _ => rfl
  have hlocks : (id :: db.locks).erase id = db.locks := by simp
  change { db with
      deployments := db.deployments.reserve.place
        (db.newRow (retryRow parent ordinal now) db.deployments.next)
      locks := (id :: db.locks).erase id
      reads := db.reads + 1
      requests := requests } = _
  rw [hplace, hlocks]
  rfl

/-- Behind the lock the program ends with the outcome and the store of one step. -/
def EndsAs (program : Program RetryOutcome) (db : Db) (id : ℕ)
    (outcome : (Db × List Event) × Except RetryError Deployment) : Prop :=
  program.result (db.lock id) = some outcome.2 ∧ program.final (db.lock id) = outcome.1.1

/-- A refusal leaves no trace. -/
theorem rollback_endsAs (db : Db) (id : ℕ) (reason : RetryError) :
    EndsAs (rollback id reason) db id ((db, []), .error reason) :=
  ⟨rfl, unlock_lock⟩

/-- The insertion behind the lock is the one of the single step. -/
theorem insertRetry_endsAs (db : Db) (parent : Loaded) (ordinal : ℕ) (now : DateTime)
    (actor : Sid) :
    EndsAs (insertRetry parent ordinal now actor true) db parent.deployment.id
      (db.insertRetry parent ordinal now actor) := by
  have hlinkable : (db.lock parent.deployment.id).linkable (retryRow parent ordinal now) =
      db.linkable (retryRow parent ordinal now) := rfl
  unfold EndsAs
  rcases h : db.linkable (retryRow parent ordinal now) with _ | _
  · constructor
    · simp only [insertRetry, reserveRetry, Db.insertRetry, result_bind, result_atomic,
        final_atomic, hlinkable, h, Bool.false_eq_true, if_false, rollback]
    · simp only [insertRetry, reserveRetry, Db.insertRetry, final_bind, result_atomic,
        final_atomic, hlinkable, h, Bool.false_eq_true, if_false, rollback]
      exact unlock_lock
  · have hcommit := commitRetry_reserveDeployment db parent.deployment.id parent
      ordinal now (db.requests + 1)
    constructor
    · simp only [insertRetry, reserveRetry, Db.insertRetry, result_bind, result_atomic,
        final_atomic, hlinkable, h, if_true, endRetry]
      rfl
    · simp only [insertRetry, reserveRetry, Db.insertRetry, final_bind, result_atomic,
        final_atomic, hlinkable, h, if_true, endRetry]
      exact hcommit

/-- The reads behind the lock see what the single step sees. -/
theorem retryLocked_endsAs (db : Db) (parent : Loaded) (actor : Sid) :
    EndsAs (retryLocked parent actor true) db parent.deployment.id
      (if db.retryInProgress parent.deployment.id then ((db, []), .error .retryInProgress)
      else db.tick.insertRetry parent (db.maxRetryOrdinal parent.deployment.id + 1)
        (db.clock db.reads) actor) := by
  have hbusy : (db.lock parent.deployment.id).retryInProgress parent.deployment.id =
      db.retryInProgress parent.deployment.id := rfl
  unfold EndsAs retryLocked
  rw [result_bind, final_bind, result_read, final_read, hbusy]
  split
  · exact rollback_endsAs db _ _
  · exact insertRetry_endsAs db.tick parent _ _ actor

/-- A transaction that finds its parent unlocked, is not disturbed and commits does
what the single step does. -/
theorem retryTransaction_refines (platform : Platform) (db : Db) (id userId patience : ℕ)
    (hfree : id ∉ db.locks) :
    (retryTransaction platform id userId (patience + 1) true).result db =
        some ((retryDeployment platform id userId).result db) ∧
      (retryTransaction platform id userId (patience + 1) true).final db =
        (retryDeployment platform id userId).final db := by
  rcases huser : db.users.find? userId with _ | user
  · simp [retryTransaction, retryDeployment, huser]
  · rcases hfind : db.deployments.find? id with _ | deployment
    · simp [retryTransaction, retryDeployment, huser, lockDeployment, Db.tryLock, hfind]
    · have hlock : db.tryLock id = ((db.lock id, [.locked id]), .acquired deployment) := by
        unfold Db.tryLock
        simp only [hfind, hfree, if_false]
      have hid : deployment.id = id := find?_id hfind
      have hload : ((db.lock id).load platform deployment) = db.load platform deployment := rfl
      simp only [retryTransaction, retryDeployment, result_bind, final_bind, result_read, final_read,
        result_atomic, final_atomic, huser, lockDeployment, hlock, hfind, pure_eq, result_done,
        final_done, hload]
      by_cases horg : user.orgId ≠ deployment.orgId
      · rw [if_pos horg, if_pos horg]
        exact rollback_endsAs db id _
      · rw [if_neg horg, if_neg horg]
        by_cases hresult : deployment.result ≠ some .success ∧ deployment.result ≠ some .failure
        · rw [if_pos hresult, if_pos hresult]
          exact rollback_endsAs db id _
        · rw [if_neg hresult, if_neg hresult]
          have hlocked := retryLocked_endsAs db (db.load platform deployment) user.id
          subst hid
          exact hlocked

end Undisturbed

/-- The one user who retries deployments where a run is looked at. -/
def oneUser : Table User User.id := Table.empty.insert (fun id => ⟨id, 1⟩) fun _ => rfl

end Sower.Server
