import Sower.Server.LogBuffer

/-!
# The pool of log owners

The pool starts the owner of a deployment's log on demand and watches it. When it
watches as many owners as it may, it stops the one it started first, whichever
deployment that one belongs to.
-/

namespace Sower.Server

open Sower.Wire Keyed

section Accounting

/-- State of the pool. Owners are known by their process; every process is watched
once, so that the reference of its monitor is left out. -/
structure LogPool where
  maxBuffers : ℕ := 64
  maxBytes : ℤ := 1048576
  maxChunks : ℤ := 1024
  /-- The owners that the pool watches. -/
  owners : List ℕ := []
  /-- The same owners, oldest first. -/
  order : List ℕ := []
  deriving DecidableEq, Repr

/-- Stop watching an owner. -/
def LogPool.forget (pool : LogPool) (pid : ℕ) : LogPool :=
  { pool with
    owners := pool.owners.filter (· != pid)
    order := pool.order.filter (· != pid) }

/-- Forget the owners that have ended without the pool having heard of it. -/
def LogPool.forgetDead (pool : LogPool) (alive : ℕ → Bool) : LogPool :=
  pool.owners.foldl (fun pool pid => if alive pid then pool else pool.forget pid) pool

/-- `make_room`: the pool with room for another owner, and the owner that is stopped
for it. The pool crashes when it is full and its queue is empty. -/
def LogPool.makeRoom (pool : LogPool) : Option (LogPool × Option ℕ) :=
  if pool.owners.length < pool.maxBuffers then some (pool, none)
  else
    match pool.order with
    | [] => none
    | pid :: _ => some (pool.forget pid, some pid)

/-- Watch an owner that was just started. -/
def LogPool.watch (pool : LogPool) (pid : ℕ) : LogPool :=
  { pool with
    owners := pool.owners ++ [pid]
    order := pool.order ++ [pid] }

/-- The queue holds the watched owners. -/
structure LogPool.Consistent (pool : LogPool) : Prop where
  positive : 0 < pool.maxBuffers
  queued : pool.order.Perm pool.owners

theorem consistent_new : ({} : LogPool).Consistent := ⟨by decide, .refl _⟩

theorem forget_consistent {pool : LogPool} (h : pool.Consistent) (pid : ℕ) :
    (pool.forget pid).Consistent :=
  ⟨h.positive, h.queued.filter _⟩

theorem forgetDead_consistent {pool : LogPool} (h : pool.Consistent) (alive : ℕ → Bool) :
    (pool.forgetDead alive).Consistent := by
  unfold LogPool.forgetDead
  generalize pool.owners = owners
  induction owners generalizing pool with
  | nil => exact h
  | cons pid rest ih =>
    rw [List.foldl_cons]
    split
    · exact ih h
    · exact ih (forget_consistent h pid)

theorem watch_consistent {pool : LogPool} (h : pool.Consistent) (pid : ℕ) :
    (pool.watch pid).Consistent :=
  ⟨h.positive, h.queued.append_right [pid]⟩

/-- A full pool never looks into an empty queue. -/
theorem makeRoom_isSome {pool : LogPool} (h : pool.Consistent) : pool.makeRoom.isSome = true := by
  unfold LogPool.makeRoom
  split
  · rfl
  · rename_i hfull
    have hlength := h.queued.length_eq
    have hpositive := h.positive
    rcases horder : pool.order with _ | ⟨pid, rest⟩
    · rw [horder, List.length_nil] at hlength
      omega
    · rfl

theorem makeRoom_consistent {pool pool' : LogPool} {evicted : Option ℕ} (h : pool.Consistent)
    (hroom : pool.makeRoom = some (pool', evicted)) : pool'.Consistent := by
  unfold LogPool.makeRoom at hroom
  split at hroom
  · cases hroom
    exact h
  · split at hroom
    · cases hroom
    · cases hroom
      exact forget_consistent h _

/-- A full pool stops the first owner of its queue, any other one stops none. -/
theorem makeRoom_evicts {pool pool' : LogPool} {evicted : Option ℕ}
    (hroom : pool.makeRoom = some (pool', evicted)) (pid : ℕ) :
    evicted = some pid ↔ pool.maxBuffers ≤ pool.owners.length ∧ pool.order.head? = some pid := by
  unfold LogPool.makeRoom at hroom
  split at hroom
  · rename_i hroomy
    cases hroom
    refine iff_of_false (fun h => by cases h) fun h => ?_
    omega
  · rename_i hfull
    split at hroom
    · cases hroom
    · rename_i horder
      cases hroom
      rw [horder, List.head?_cons]
      exact (and_iff_right (not_lt.mp hfull)).symm

end Accounting

section Owners

/-- A running owner. -/
structure Owner where
  pid : ℕ
  buffer : Buffer

/-- The owner is registered under the deployment's name. -/
def Owner.isFor (orgId : ℕ) (deploymentSid : Sid) (owner : Owner) : Bool :=
  owner.buffer.deployment.orgId = orgId && owner.buffer.deployment.id = deploymentSid

/-- The running owners and the pool behind them. -/
structure Logs where
  live : Table Owner Owner.pid := .empty
  pool : LogPool := {}
  consistent : pool.Consistent

/-- `Pool.lookup`. -/
def Logs.lookup (logs : Logs) (orgId : ℕ) (deploymentSid : Sid) : Option Owner :=
  logs.live.rows.find? (Owner.isFor orgId deploymentSid)

/-- The owner ends, by itself or stopped by someone else than the pool. -/
def Logs.stop (logs : Logs) (pid : ℕ) : Logs :=
  { logs with live := logs.live.delete (·.pid == pid) }

/-- `Pool.delete`. -/
def Logs.delete (logs : Logs) (orgId : ℕ) (deploymentSid : Sid) : Logs :=
  match logs.lookup orgId deploymentSid with
  | none => logs
  | some owner => logs.stop owner.pid

/-- The pool without the owners that have ended. -/
def Logs.watched (logs : Logs) : LogPool :=
  logs.pool.forgetDead fun pid => (logs.live.find? pid).isSome

theorem watched_consistent (logs : Logs) : logs.watched.Consistent :=
  forgetDead_consistent logs.consistent _

/-- `start_owner`. -/
def Logs.startOwner (logs : Logs) (deployment : Deployment) (seeds : List Sid) :
    Logs × Except LogError ℕ :=
  match hroom : logs.watched.makeRoom with
  -- A consistent pool always makes room.
  | none => (logs, .error .bufferUnavailable)
  | some (pool, evicted) =>
    let live := logs.live.delete fun owner => some owner.pid == evicted
    if 0 < pool.maxBytes ∧ 0 < pool.maxChunks then
      ({ live := live.insert (fun pid =>
            ⟨pid, { deployment, seeds, maxBytes := pool.maxBytes, maxChunks := pool.maxChunks }⟩)
            fun _ => rfl
         pool := pool.watch live.next
         consistent := watch_consistent (makeRoom_consistent (watched_consistent logs) hroom) _ },
        .ok live.next)
    else
      ({ live, pool, consistent := makeRoom_consistent (watched_consistent logs) hroom },
        .error .invalidLimits)

/-- `Pool.ensure`: the process of the deployment's owner, started if need be. -/
def Logs.ensure (logs : Logs) (deployment : Deployment) (seeds : List Sid) :
    Logs × Except LogError ℕ :=
  match logs.lookup deployment.orgId deployment.id with
  | none => logs.startOwner deployment seeds
  | some owner => (logs, .ok owner.pid)

/-- The pool has no room for another owner. -/
def Logs.full (logs : Logs) : Prop := logs.watched.maxBuffers ≤ logs.watched.owners.length

/-- The owner that a full pool stops. -/
def Logs.oldest (logs : Logs) : Option ℕ := logs.watched.order.head?

/-- `GenServer.call` of `append`: an owner that crashes is gone. -/
def Logs.append (logs : Logs) (pid orgId : ℕ) (garden : Garden) (request : SeedDeploymentLog) :
    (Logs × List LogEvent) × Except LogError Unit :=
  match logs.live.find? pid with
  | none => ((logs, []), .error .bufferUnavailable)
  | some owner =>
    match owner.buffer.append orgId garden request with
    | none => ((logs.stop pid, []), .error .bufferUnavailable)
    | some ((buffer, events), reply) =>
      (({ logs with
          live := logs.live.update (·.pid == pid) (fun owner => { owner with buffer := buffer })
            fun _ => rfl }, events), reply)

end Owners

end Sower.Server
