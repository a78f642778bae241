import Mathlib.Data.List.Sort
import Mathlib.Data.Prod.Lex
import Sower.Lib.Process
import Sower.Lib.Table
import Sower.Wire

/-!
# The server's database

The tables behind deployments as one organisation sees them, and the steps
that operations take on them: a query or a locked transaction is one step.
Public identifiers are the keys of the rows. The clock is read like a table,
so that its readings are part of the store and otherwise arbitrary.
-/

namespace Sower.Server

open Sower.Calendar Sower.Policy Sower.Wire Process Keyed

section Rows

/-- A registered seed. -/
structure Seed where
  id : ℕ
  name : String
  seedType : String
  artifact : String
  tags : List (String × String)
  updatedAt : DateTime
  deriving DecidableEq, Repr

/-- A garden's subscription to seeds of one name and type. -/
structure Subscription where
  id : ℕ
  gardenId : ℕ
  name : String
  seedName : String
  seedType : String
  /-- Tags a seed must carry, as pairs of key and value. -/
  rules : List (String × String)
  /-- Cron expression. -/
  schedule : Option String
  timezone : Option String
  policy : List Rule
  insertedAt : DateTime
  deriving DecidableEq, Repr

structure Garden where
  id : ℕ
  /-- Policy for direct deployments. -/
  policy : List Rule
  timezone : Option String
  deriving DecidableEq, Repr

structure User where
  id : ℕ
  orgId : ℕ
  deriving DecidableEq, Repr

/-- States of a deployment. -/
inductive State where
  | created
  | dispatched
  | acknowledged
  | completed
  | stale
  | canceled
  deriving DecidableEq, Repr

/-- No operation works on the deployment any more. -/
def State.terminal : State → Bool
  | .created => false
  | .dispatched => false
  | .acknowledged => false
  | .completed => true
  | .stale => true
  | .canceled => true

/-- A deployment with the keys of its seeds and subscriptions. -/
structure Deployment where
  id : ℕ
  orgId : ℕ
  gardenId : ℕ
  /-- The deployment this one is a retry of. -/
  parentDeploymentId : Option ℕ
  seeds : List ℕ
  subscriptions : List ℕ
  deployedAt : Option DateTime
  result : Option DeploymentResult
  state : State
  lastDispatchedAt : Option DateTime
  contentHash : String
  retryOrdinal : Option ℕ
  /-- Action of a direct deployment. -/
  directAction : Option String
  directOverride : Bool
  insertedAt : DateTime
  deriving DecidableEq, Repr

end Rows

section Events

/-- Columns that an update sets; absent ones keep their value. -/
structure Attrs where
  deployedAt : Option DateTime := none
  result : Option DeploymentResult := none
  state : State
  deriving DecidableEq, Repr

inductive AuditEvent where
  | created
  | canceled
  deriving DecidableEq, Repr

/-- What operations do besides rewriting the tables. -/
inductive Event where
  /-- The rows that an operation read in order to rewrite them later. -/
  | selected (ids : List ℕ)
  /-- A deployment was inserted. -/
  | created (id : ℕ)
  /-- A locked update was committed. -/
  | updated (id : ℕ) (attrs : Attrs)
  /-- A row of the deployment's audit log; no actor stands for the system. -/
  | audit (id : ℕ) (event : AuditEvent) (reason : Reason) (actor : Option Sid)
      (note : Option String)
  /-- A new or skipped deployment was broadcast to its garden. -/
  | dispatched (garden : Sid) (payload : Wire.Deployment)
  /-- An unresolved deployment was broadcast again. -/
  | replayed (garden : Sid) (payload : Wire.Deployment)
  /-- The retry of a deployment was broadcast. -/
  | retried (parent : ℕ) (garden : Sid) (payload : Wire.Deployment)
  /-- A deployment request failed. -/
  | failed (garden : Sid) (requestId : Sid) (reason : String)
  /-- The garden's deployments were searched for one with the content. -/
  | checked (gardenId : ℕ) (contentHash : String)
  /-- The rows that were to be marked as dispatched, and those of them that were
  unresolved when the marking ran. -/
  | marked (ids unresolved : List ℕ)
  /-- A report looked for its deployment. -/
  | looked (sid : Sid) (found : Bool)
  /-- An open transaction locked the row. -/
  | locked (id : ℕ)
  /-- The transaction that held the row's lock ended. -/
  | unlocked (id : ℕ)
  /-- A transaction that had inserted the deployment was rolled back. -/
  | rolledBack (id : ℕ)
  deriving DecidableEq, Repr

end Events

/-- The tables, the presence tracker and what is yet to be drawn. -/
structure Db where
  /-- The organisation whose rows these are. -/
  orgId : ℕ := 1
  gardens : Table Garden Garden.id := .empty
  seeds : Table Seed Seed.id := .empty
  subscriptions : Table Subscription Subscription.id := .empty
  users : Table User User.id := .empty
  deployments : Table Deployment Deployment.id := .empty
  /-- Deployments whose rows are locked by an open transaction. -/
  locks : List ℕ := []
  /-- For each live connection of a garden, whether it supports overrides. -/
  presence : Sid → List Bool := fun _ => []
  /-- Readings of the clock in the order in which they are taken. -/
  clock : ℕ → DateTime
  /-- Readings taken so far. -/
  reads : ℕ := 0
  /-- Next request identifier. -/
  requests : Sid := 1

/-- What a cron expression is parsed to. -/
inductive Cron where
  | invalid
  /-- It runs when the machine boots. -/
  | reboot
  /-- Its last run before a time, if there is one. -/
  | previousRun (before : NaiveDateTime → Option NaiveDateTime)

/-- What stands outside the repository. -/
structure Platform where
  tzdb : TimeZoneDatabase
  /-- Parser and scheduler for cron expressions. -/
  crontab : String → Cron
  sha256 : String → String
  /-- Order in which the database returns rows linked to a deployment. -/
  arrange : List ℕ → List ℕ
  arrange_perm : ∀ ids, (arrange ids).Perm ids

/-- Universal time only, no cron, and rows in the order of their links. -/
def Platform.plain : Platform := ⟨.utcOnly, fun _ => .invalid, id, id, fun _ => .refl _⟩

/-- An operation as a program of atomic steps. -/
abbrev Program := Proc Db Event

section Rewrites

/-- A deployment after its changeset is applied; times are kept in seconds. -/
def Deployment.apply (attrs : Attrs) (deployment : Deployment) : Deployment :=
  { deployment with
    deployedAt := (attrs.deployedAt.map fun time => time / 1000000 * 1000000).or
      deployment.deployedAt
    result := attrs.result.or deployment.result
    state := attrs.state }

@[simp] theorem Deployment.apply_id (attrs : Attrs) (deployment : Deployment) :
    (deployment.apply attrs).id = deployment.id := rfl

@[simp] theorem Deployment.apply_state (attrs : Attrs) (deployment : Deployment) :
    (deployment.apply attrs).state = attrs.state := rfl

/-- Rewrite the deployment with the given key. -/
def Db.setDeployment (db : Db) (id : ℕ) (attrs : Attrs) : Db :=
  { db with
    deployments := db.deployments.update (·.id == id) (Deployment.apply attrs)
      (Deployment.apply_id attrs) }

/-- A lookup after a rewrite is the rewritten row of the lookup before it. -/
theorem find?_setDeployment (db : Db) (id : ℕ) (attrs : Attrs) (id' : ℕ) :
    (db.setDeployment id attrs).deployments.find? id' =
      (db.deployments.find? id').map fun d => if d.id == id then d.apply attrs else d :=
  Table.find?_update (Deployment.apply_id attrs) id'

theorem mem_setDeployment {db : Db} {id : ℕ} {attrs : Attrs} {row : Deployment} :
    row ∈ (db.setDeployment id attrs).deployments.rows ↔
      ∃ old ∈ db.deployments.rows, (if old.id == id then old.apply attrs else old) = row :=
  Table.mem_update (Deployment.apply_id attrs)

theorem find?_id {db : Db} {id : ℕ} {row : Deployment} (h : db.deployments.find? id = some row) :
    row.id = id := (Table.find?_eq_some_iff.mp h).2

theorem find?_setDeployment_of_ne {db : Db} {id id' : ℕ} {attrs : Attrs} {row : Deployment}
    (h : db.deployments.find? id' = some row) (hne : id' ≠ id) :
    (db.setDeployment id attrs).deployments.find? id' = some row := by
  have hid : (row.id == id) = false := by
    rw [find?_id h]
    simpa using hne
  rw [find?_setDeployment, h, Option.map_some, hid]
  simp

theorem find?_setDeployment_self {db : Db} {id : ℕ} {attrs : Attrs} {row : Deployment}
    (h : db.deployments.find? id = some row) :
    (db.setDeployment id attrs).deployments.find? id = some (row.apply attrs) := by
  rw [find?_setDeployment, h, Option.map_some, find?_id h]
  simp

/-- A deployment after a further dispatch. -/
def Deployment.redispatch (dispatchedAt : DateTime) (deployment : Deployment) : Deployment :=
  { deployment with lastDispatchedAt := some dispatchedAt, state := .dispatched }

@[simp] theorem Deployment.redispatch_id (dispatchedAt : DateTime) (deployment : Deployment) :
    (deployment.redispatch dispatchedAt).id = deployment.id := rfl

/-- Mark those of the deployments that are still unresolved. -/
def Db.markDispatched (db : Db) (ids : List ℕ) (dispatchedAt : DateTime) : Db :=
  { db with
    deployments := db.deployments.update (fun d => d.id ∈ ids && !d.state.terminal)
      (Deployment.redispatch dispatchedAt) (Deployment.redispatch_id dispatchedAt) }

theorem find?_markDispatched (db : Db) (ids : List ℕ) (dispatchedAt : DateTime) (id : ℕ) :
    (db.markDispatched ids dispatchedAt).deployments.find? id =
      (db.deployments.find? id).map fun d =>
        if d.id ∈ ids && !d.state.terminal then d.redispatch dispatchedAt else d :=
  Table.find?_update (Deployment.redispatch_id dispatchedAt) id

/-- Those of the deployments that are unresolved. -/
def Db.unresolvedAmong (db : Db) (ids : List ℕ) : List ℕ :=
  ids.filter fun id => (db.deployments.find? id).any fun d => !d.state.terminal

/-- The attributes of a deployment to be inserted. -/
structure NewDeployment where
  gardenId : ℕ
  parentDeploymentId : Option ℕ := none
  seeds : List ℕ
  subscriptions : List ℕ
  state : State
  lastDispatchedAt : Option DateTime
  contentHash : String
  retryOrdinal : Option ℕ := none
  directAction : Option String := none
  directOverride : Bool := false
  deriving DecidableEq, Repr

/-- The links satisfy the constraints of the join tables: no link twice, and
every link to an existing row. -/
def Db.linkable (db : Db) (new : NewDeployment) : Bool :=
  new.seeds.Nodup && new.subscriptions.Nodup &&
    new.seeds.all (fun id => (db.seeds.find? id).isSome) &&
    new.subscriptions.all (fun id => (db.subscriptions.find? id).isSome)

/-- The inserted row. -/
def Db.newRow (db : Db) (new : NewDeployment) (id : ℕ) : Deployment where
  id := id
  orgId := db.orgId
  gardenId := new.gardenId
  parentDeploymentId := new.parentDeploymentId
  seeds := new.seeds
  subscriptions := new.subscriptions
  deployedAt := none
  result := none
  state := new.state
  lastDispatchedAt := new.lastDispatchedAt
  contentHash := new.contentHash
  retryOrdinal := new.retryOrdinal
  directAction := new.directAction
  directOverride := new.directOverride
  insertedAt := db.clock db.reads

def Db.insertDeployment (db : Db) (new : NewDeployment) : Db :=
  { db with
    deployments := db.deployments.insert (db.newRow new) fun _ => rfl
    reads := db.reads + 1 }

/-- A new row leaves all others as they are. -/
theorem find?_insertDeployment {db : Db} {new : NewDeployment} {id : ℕ} {row : Deployment}
    (h : db.deployments.find? id = some row) :
    (db.insertDeployment new).deployments.find? id = some row :=
  Table.find?_insert_of_some (fun _ => rfl) h

end Rewrites

section Steps

/-- The store after a reading of the clock. -/
def Db.tick (db : Db) : Db := { db with reads := db.reads + 1 }

/-- `DateTime.utc_now`. -/
def utcNow : Program DateTime := .atomic fun db => ((db.tick, []), db.clock db.reads)

/-- `SowerClient.Sid.generate` for a request. -/
def newRequestId : Program Sid :=
  .atomic fun db => (({ db with requests := db.requests + 1 }, []), db.requests)

/-- Query the deployments that the operation is going to rewrite. -/
def select {α : Type} (ids : α → List ℕ) (query : Db → α) : Program α :=
  .atomic fun db => ((db, [.selected (ids (query db))]), query db)

/-- Why an update was rolled back. -/
inductive UpdateError where
  | notFound
  | deploymentTerminal
  deriving DecidableEq, Repr

/-- Lock the row, check that it is not reopened, rewrite it and commit. -/
def Db.lockedUpdate (db : Db) (id : ℕ) (attrs : Attrs) :
    (Db × List Event) × Except UpdateError Deployment :=
  match db.deployments.find? id with
  | none => ((db, []), .error .notFound)
  | some locked =>
    if locked.state.terminal && !attrs.state.terminal then ((db, []), .error .deploymentTerminal)
    else ((db.setDeployment id attrs, [.updated id attrs]), .ok (locked.apply attrs))

/-- All that a locked update can do. -/
theorem lockedUpdate_cases (db : Db) (id : ℕ) (attrs : Attrs) :
    (∃ reason, db.lockedUpdate id attrs = ((db, []), .error reason)) ∨
      ∃ locked, db.deployments.find? id = some locked ∧
        (locked.state.terminal = true → attrs.state.terminal = true) ∧
        db.lockedUpdate id attrs =
          ((db.setDeployment id attrs, [.updated id attrs]), .ok (locked.apply attrs)) := by
  unfold Db.lockedUpdate
  rcases hfind : db.deployments.find? id with _ | locked
  · exact Or.inl ⟨_, rfl⟩
  · dsimp only
    split
    · exact Or.inl ⟨_, rfl⟩
    · rename_i hallowed
      refine Or.inr ⟨locked, rfl, ?_, rfl⟩
      intro hterminal
      simpa [hterminal] using hallowed

def updateDeployment (id : ℕ) (attrs : Attrs) : Program (Except UpdateError Deployment) :=
  .atomic fun db => db.lockedUpdate id attrs

/-- Insert a deployment with its links. A violated constraint raises. -/
def createDeployment (new : NewDeployment) : Program (Option Deployment) :=
  .atomic fun db =>
    if db.linkable new then
      ((db.insertDeployment new, [.created db.deployments.next]),
        some (db.newRow new db.deployments.next))
    else ((db, []), none)

end Steps

end Sower.Server
