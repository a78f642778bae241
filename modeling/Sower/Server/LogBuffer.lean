import Sower.Server.Store

/-!
# Buffers of deployment logs

The output of an unresolved deployment is kept in memory by one process, its
owner. Chunks are keyed by seed and sequence number; beyond a number of bytes or
chunks the ones inserted first are evicted, and numbers at or below an evicted one
are not taken again.
-/

namespace Sower.Server

open Sower.Wire

section Chunks

/-- `SeedDeploymentLog`: a chunk of a seed's output as a garden sends it. -/
structure SeedDeploymentLog where
  deploymentSid : Sid
  seedSid : Sid
  sequence : ℤ
  output : ByteArray

/-- Why a chunk was not recorded. -/
inductive LogError where
  | invalidLogChunk
  | deploymentNotFound
  | unauthorized
  | deploymentTerminal
  | seedNotInDeployment
  | bufferUnavailable
  | invalidLimits
  deriving DecidableEq, Repr

/-- Bounds on the sequence number and the size of a chunk. -/
def SeedDeploymentLog.bounded (request : SeedDeploymentLog) : Bool :=
  0 < request.sequence && request.output.size ≤ 16384

/-- `valid_chunk?`. -/
def SeedDeploymentLog.valid (request : SeedDeploymentLog) : Bool :=
  request.bounded && request.output.validateUTF8

/-- Seed and sequence number. -/
abbrev ChunkKey := Sid × ℤ

/-- A stored chunk. -/
structure Chunk where
  key : ChunkKey
  output : ByteArray

/-- What is broadcast about an accepted chunk. -/
structure LogEvent where
  chunk : Chunk
  /-- It is the first chunk of its owner. -/
  reset : Bool
  /-- Keys that were evicted for it. -/
  evicted : List ChunkKey

end Chunks

section Buffers

/-- State of an owner. The deployment is the one it was started with. -/
structure Buffer where
  deployment : Deployment
  /-- Seeds of the deployment. -/
  seeds : List Sid
  table : List Chunk := []
  maxBytes : ℤ := 1048576
  maxChunks : ℤ := 1024
  bytes : ℤ := 0
  count : ℤ := 0
  /-- Keys in the order of their insertion. -/
  order : List ChunkKey := []
  /-- Highest evicted sequence number of a seed. -/
  evictedThrough : Sid → ℤ := fun _ => 0
  reset : Bool := true

/-- The chunk with the key. -/
def Buffer.find? (buffer : Buffer) (key : ChunkKey) : Option Chunk :=
  buffer.table.find? (·.key == key)

/-- Both limits hold. -/
def Buffer.withinLimits (buffer : Buffer) : Bool :=
  buffer.bytes ≤ buffer.maxBytes && buffer.count ≤ buffer.maxChunks

/-- Take the chunk out of the table and raise the floor of its seed. The order is
left to the caller. -/
def Buffer.drop (buffer : Buffer) (chunk : Chunk) : Buffer :=
  { buffer with
    table := buffer.table.filter (·.key != chunk.key)
    bytes := buffer.bytes - chunk.output.size
    count := buffer.count - 1
    evictedThrough := Function.update buffer.evictedThrough chunk.key.1
      (max chunk.key.2 (buffer.evictedThrough chunk.key.1)) }

/-- `evict`, along the order queue. The owner crashes when the queue is empty or
names a chunk that is not stored. -/
def Buffer.evict (buffer : Buffer) (evicted : List ChunkKey) :
    List ChunkKey → Option (Buffer × List ChunkKey)
  | [] =>
    if buffer.withinLimits then some ({ buffer with order := [] }, evicted.reverse) else none
  | key :: order =>
    if buffer.withinLimits then some ({ buffer with order := key :: order }, evicted.reverse)
    else
      match buffer.find? key with
      | none => none
      | some chunk => (buffer.drop chunk).evict (key :: evicted) order

/-- The buffer with one more chunk. -/
def Buffer.store (buffer : Buffer) (chunk : Chunk) : Buffer :=
  { buffer with
    table := buffer.table ++ [chunk]
    bytes := buffer.bytes + chunk.output.size
    count := buffer.count + 1
    order := buffer.order ++ [chunk.key] }

/-- `insert`: a chunk that is already there or too old is acknowledged and ignored. -/
def Buffer.insert (buffer : Buffer) (request : SeedDeploymentLog) :
    Option (Buffer × List LogEvent) :=
  let key : ChunkKey := (request.seedSid, request.sequence)
  if request.sequence ≤ buffer.evictedThrough request.seedSid ∨ (buffer.find? key).isSome then
    some (buffer, [])
  else
    let chunk : Chunk := ⟨key, request.output⟩
    let stored := buffer.store chunk
    match stored.evict [] stored.order with
    | none => none
    | some (kept, evicted) =>
      some ({ kept with reset := false }, [⟨chunk, kept.reset, evicted⟩])

/-- `authorize`: why the owner refuses the chunk. -/
def Buffer.refuses (buffer : Buffer) (orgId : ℕ) (garden : Garden) (request : SeedDeploymentLog) :
    Option LogError :=
  if request.valid = false then some .invalidLogChunk
  else if orgId ≠ buffer.deployment.orgId ∨ garden.id ≠ buffer.deployment.gardenId ∨
      request.deploymentSid ≠ buffer.deployment.id then some .unauthorized
  else if buffer.deployment.state.terminal then some .deploymentTerminal
  else if request.seedSid ∉ buffer.seeds then some .seedNotInDeployment
  else none

/-- `append`; nothing when the owner crashes. The garden is one of the organisation. -/
def Buffer.append (buffer : Buffer) (orgId : ℕ) (garden : Garden) (request : SeedDeploymentLog) :
    Option ((Buffer × List LogEvent) × Except LogError Unit) :=
  match buffer.refuses orgId garden request with
  | some reason => some ((buffer, []), .error reason)
  | none => (buffer.insert request).map fun inserted => (inserted, .ok ())

/-- An owner keeps its deployment while it evicts. -/
theorem evict_deployment {order evicted evicted' : List ChunkKey} {buffer buffer' : Buffer}
    (h : buffer.evict evicted order = some (buffer', evicted')) :
    buffer'.deployment = buffer.deployment := by
  induction order generalizing buffer evicted with
  | nil =>
    unfold Buffer.evict at h
    split at h
    · cases h
      rfl
    · cases h
  | cons key order ih =>
    unfold Buffer.evict at h
    split at h
    · cases h
      rfl
    · split at h
      · cases h
      · have hkept := ih h
        exact hkept

/-- A garden that is not the deployment's leaves the buffer as it is. -/
theorem append_foreign {buffer : Buffer} {garden : Garden} (orgId : ℕ) (request : SeedDeploymentLog)
    (hforeign : buffer.deployment.gardenId ≠ garden.id) :
    ∃ reason, buffer.append orgId garden request = some ((buffer, []), .error reason) := by
  have hrefuses : ∃ reason, buffer.refuses orgId garden request = some reason := by
    unfold Buffer.refuses
    split
    · exact ⟨_, rfl⟩
    · rw [if_pos (Or.inr (Or.inl hforeign.symm))]
      exact ⟨_, rfl⟩
  obtain ⟨reason, hreason⟩ := hrefuses
  refine ⟨reason, ?_⟩
  unfold Buffer.append
  rw [hreason]

/-- An owner keeps its deployment. -/
theorem append_deployment {buffer buffer' : Buffer} {orgId : ℕ} {garden : Garden}
    {request : SeedDeploymentLog} {events : List LogEvent} {reply : Except LogError Unit}
    (h : buffer.append orgId garden request = some ((buffer', events), reply)) :
    buffer'.deployment = buffer.deployment := by
  unfold Buffer.append at h
  split at h
  · cases h
    rfl
  · obtain ⟨⟨kept, events'⟩, hinsert, hkept⟩ := Option.map_eq_some_iff.mp h
    cases hkept
    unfold Buffer.insert at hinsert
    dsimp only at hinsert
    split at hinsert
    · cases hinsert
      rfl
    · split at hinsert
      · cases hinsert
      · rename_i evicted hevict
        cases hinsert
        have hdeployment := evict_deployment hevict
        exact hdeployment

end Buffers

end Sower.Server
