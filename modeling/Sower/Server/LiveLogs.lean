import Mathlib.Data.List.AList
import Mathlib.Logic.Relation
import Sower.Lib.Replica
import Sower.Server.LogPool

/-!
# The live view of a deployment's log

The page of a deployment subscribes to the events of its log and then takes a
snapshot of the owner's buffer. Events that reach the page may describe chunks that
the snapshot has already, or evictions of chunks it never saw. The page merges them
one by one; when all events have arrived it shows what the buffer holds.
-/

namespace Sower.Server

open Sower.Wire Keyed Replica

section Maps

/-- Output of one seed by sequence number. -/
abbrev SeedLogs := AList fun _ : ℤ => ByteArray

/-- `live_logs`: the output by seed and sequence number. -/
abbrev LiveLogs := AList fun _ : Sid => SeedLogs

/-- The output under a key. -/
def LiveLogs.output (logs : LiveLogs) (key : ChunkKey) : Option ByteArray :=
  (logs.lookup key.1).bind fun chunks => chunks.lookup key.2

/-- The chunks of a seed, none when the seed is not listed. -/
def LiveLogs.chunks (logs : LiveLogs) (seedSid : Sid) : SeedLogs := (logs.lookup seedSid).getD ∅

/-- No seed is listed without a chunk. -/
def LiveLogs.Proper (logs : LiveLogs) : Prop :=
  ∀ seedSid chunks, logs.lookup seedSid = some chunks → chunks.entries ≠ []

/-- Take an evicted chunk out. -/
def LiveLogs.remove (logs : LiveLogs) (key : ChunkKey) : LiveLogs :=
  let remaining := (logs.chunks key.1).erase key.2
  if remaining.entries.isEmpty then logs.erase key.1 else logs.insert key.1 remaining

/-- Add a chunk unless its key is there already. -/
def LiveLogs.add (logs : LiveLogs) (chunk : Chunk) : LiveLogs :=
  match logs.lookup chunk.key.1 with
  | none => logs.insert chunk.key.1 (AList.singleton chunk.key.2 chunk.output)
  | some chunks => logs.insert chunk.key.1
      (if chunk.key.2 ∈ chunks then chunks else chunks.insert chunk.key.2 chunk.output)

/-- Put a chunk in, over one with the same key. -/
def LiveLogs.put (logs : LiveLogs) (chunk : Chunk) : LiveLogs :=
  logs.insert chunk.key.1 ((logs.chunks chunk.key.1).insert chunk.key.2 chunk.output)

/-- The chunks grouped by seed, each group by sequence number. -/
def LiveLogs.group (chunks : List Chunk) : LiveLogs := chunks.foldl LiveLogs.put ∅

variable {logs : LiveLogs} {key x : ChunkKey} {chunk : Chunk} {seedSid : Sid} {chunks : SeedLogs}

theorem output_eq (logs : LiveLogs) (key : ChunkKey) :
    logs.output key = (logs.chunks key.1).lookup key.2 := by
  unfold LiveLogs.output LiveLogs.chunks
  cases logs.lookup key.1 with
  | none => rfl
  | some chunks => rfl

theorem chunks_insert (logs : LiveLogs) (seedSid : Sid) (chunks : SeedLogs) (other : Sid) :
    LiveLogs.chunks (logs.insert seedSid chunks) other =
      if other = seedSid then chunks else logs.chunks other := by
  unfold LiveLogs.chunks
  split
  · rename_i h
    rw [h, AList.lookup_insert]
    rfl
  · rename_i h
    rw [AList.lookup_insert_ne h]

theorem chunks_erase (logs : LiveLogs) (seedSid other : Sid) :
    LiveLogs.chunks (logs.erase seedSid) other =
      if other = seedSid then ∅ else logs.chunks other := by
  unfold LiveLogs.chunks
  split
  · rename_i h
    rw [h, AList.lookup_erase]
    rfl
  · rename_i h
    rw [AList.lookup_erase_ne h]

theorem lookup_of_entries_nil (h : chunks.entries = []) (sequence : ℤ) :
    chunks.lookup sequence = none := by
  have hempty : chunks = ∅ := AList.ext h
  rw [hempty, AList.lookup_empty]

theorem output_remove (logs : LiveLogs) (key x : ChunkKey) :
    (logs.remove key).output x = if x = key then none else logs.output x := by
  have hchunks : ((logs.remove key).chunks x.1).lookup x.2 =
      (if x.1 = key.1 then (logs.chunks key.1).erase key.2 else logs.chunks x.1).lookup x.2 := by
    unfold LiveLogs.remove
    dsimp only
    split
    · rename_i hnil
      have hnone := lookup_of_entries_nil (List.isEmpty_iff.mp hnil) x.2
      rw [chunks_erase]
      split
      · rw [hnone, AList.lookup_empty]
      · rfl
    · rw [chunks_insert]
  rw [output_eq, hchunks, output_eq]
  by_cases hseed : x.1 = key.1
  · rw [if_pos hseed]
    by_cases hsequence : x.2 = key.2
    · rw [if_pos (Prod.ext hseed hsequence), hsequence, AList.lookup_erase]
    · have hne : x ≠ key := fun h => hsequence (congrArg Prod.snd h)
      rw [if_neg hne, AList.lookup_erase_ne hsequence, hseed]
  · have hne : x ≠ key := fun h => hseed (congrArg Prod.fst h)
    rw [if_neg hseed, if_neg hne]

theorem output_put (logs : LiveLogs) (chunk : Chunk) (x : ChunkKey) :
    (logs.put chunk).output x = if x = chunk.key then some chunk.output else logs.output x := by
  rw [output_eq, LiveLogs.put, chunks_insert, output_eq]
  by_cases hseed : x.1 = chunk.key.1
  · rw [if_pos hseed]
    by_cases hsequence : x.2 = chunk.key.2
    · rw [if_pos (Prod.ext hseed hsequence), hsequence, AList.lookup_insert]
    · have hne : x ≠ chunk.key := fun h => hsequence (congrArg Prod.snd h)
      rw [if_neg hne, AList.lookup_insert_ne hsequence, hseed]
  · have hne : x ≠ chunk.key := fun h => hseed (congrArg Prod.fst h)
    rw [if_neg hseed, if_neg hne]

/-- Adding puts the chunk in unless its key is there, and otherwise keeps all outputs. -/
theorem output_add (logs : LiveLogs) (chunk : Chunk) (x : ChunkKey) :
    (logs.add chunk).output x =
      if x = chunk.key then (logs.output x).or (some chunk.output) else logs.output x := by
  unfold LiveLogs.add
  split
  · rename_i hnone
    have hchunks : logs.chunks chunk.key.1 = ∅ := by
      rw [LiveLogs.chunks, hnone]
      rfl
    have hput : logs.put chunk =
        logs.insert chunk.key.1 (AList.singleton chunk.key.2 chunk.output) := by
      rw [LiveLogs.put, hchunks, AList.insert_empty]
    rw [← hput, output_put]
    split
    · rename_i hx
      rw [hx, output_eq, hchunks, AList.lookup_empty]
      rfl
    · rfl
  · rename_i chunks hsome
    have hchunks : logs.chunks chunk.key.1 = chunks := by
      rw [LiveLogs.chunks, hsome]
      rfl
    split
    · rename_i hmem
      obtain ⟨old, hold⟩ := Option.isSome_iff_exists.mp (AList.lookup_isSome.mpr hmem)
      have hsame : LiveLogs.output (logs.insert chunk.key.1 chunks) x = logs.output x := by
        rw [output_eq, chunks_insert, output_eq]
        split
        · rename_i hseed
          rw [hseed, hchunks]
        · rfl
      rw [hsame]
      split
      · rename_i hx
        rw [hx, output_eq, hchunks, hold]
        rfl
      · rfl
    · rename_i hmem
      have hput : logs.put chunk =
          logs.insert chunk.key.1 (chunks.insert chunk.key.2 chunk.output) := by
        rw [LiveLogs.put, hchunks]
      rw [← hput, output_put]
      split
      · rename_i hx
        rw [hx, output_eq, hchunks, AList.lookup_eq_none.mpr hmem]
        rfl
      · rfl

theorem proper_empty : LiveLogs.Proper ∅ := by
  intro seedSid chunks h
  rw [AList.lookup_empty] at h
  cases h

theorem proper_insert (h : logs.Proper) (hchunks : chunks.entries ≠ []) :
    LiveLogs.Proper (logs.insert seedSid chunks) := by
  intro other group hgroup
  by_cases hother : other = seedSid
  · rw [hother, AList.lookup_insert] at hgroup
    cases hgroup
    exact hchunks
  · rw [AList.lookup_insert_ne hother] at hgroup
    exact h other group hgroup

theorem proper_remove (h : logs.Proper) (key : ChunkKey) : (logs.remove key).Proper := by
  unfold LiveLogs.remove
  dsimp only
  split
  · intro other group hgroup
    by_cases hother : other = key.1
    · rw [hother, AList.lookup_erase] at hgroup
      cases hgroup
    · rw [AList.lookup_erase_ne hother] at hgroup
      exact h other group hgroup
  · rename_i hsome
    have hchunks : ((logs.chunks key.1).erase key.2).entries ≠ [] :=
      fun hnil => hsome (List.isEmpty_iff.mpr hnil)
    exact proper_insert h hchunks

theorem entries_insert_ne_nil (chunks : SeedLogs) (sequence : ℤ) (output : ByteArray) :
    (chunks.insert sequence output).entries ≠ [] := by
  rw [AList.entries_insert]
  exact List.cons_ne_nil _ _

theorem proper_put (h : logs.Proper) (chunk : Chunk) : (logs.put chunk).Proper :=
  proper_insert h (entries_insert_ne_nil _ _ _)

theorem proper_add (h : logs.Proper) (chunk : Chunk) : (logs.add chunk).Proper := by
  unfold LiveLogs.add
  split
  · exact proper_insert h (List.cons_ne_nil _ _)
  · rename_i chunks hsome
    split
    · exact proper_insert h (h _ chunks hsome)
    · exact proper_insert h (entries_insert_ne_nil _ _ _)

/-- A group of chunks with distinct keys has each chunk under its key. -/
theorem group_spec (chunks : List Chunk) (hnodup : (chunks.map (·.key)).Nodup) (logs : LiveLogs)
    (x : ChunkKey) :
    (chunks.foldl LiveLogs.put logs).output x =
      ((chunks.find? (·.key == x)).map (·.output)).or (logs.output x) := by
  induction chunks generalizing logs with
  | nil => rfl
  | cons chunk rest ih =>
    obtain ⟨hnot, hrest⟩ := List.nodup_cons.mp hnodup
    rw [List.foldl_cons, ih hrest, output_put, List.find?_cons]
    by_cases hx : chunk.key = x
    · have hnone : rest.find? (·.key == x) = none := by
        refine List.find?_eq_none.mpr fun other hother hkey => hnot ?_
        have heq : other.key = chunk.key := (eq_of_beq hkey).trans hx.symm
        exact List.mem_map.mpr ⟨other, hother, heq⟩
      rw [hnone, if_pos hx.symm, hx, beq_self_eq_true]
      rfl
    · rw [beq_eq_false_iff_ne.mpr hx, if_neg fun h => hx h.symm]

theorem proper_group (chunks : List Chunk) : (LiveLogs.group chunks).Proper := by
  have hall : ∀ logs : LiveLogs, logs.Proper → (chunks.foldl LiveLogs.put logs).Proper := by
    induction chunks with
    | nil => exact fun logs h => h
    | cons chunk rest ih => exact fun logs h => ih _ (proper_put h chunk)
  exact hall ∅ proper_empty

end Maps

section Page

/-- An event of a log with the process that sent it. -/
structure LogMessage where
  owner : ℕ
  event : LogEvent

/-- The parts of the page's assigns that its log depends on. -/
structure Page where
  deployment : Deployment
  liveLogs : LiveLogs := ∅
  liveLogOwner : Option ℕ := none
  liveLogsInterrupted : Bool := false

/-- `DeploymentLog.list`: the owner's chunks, each with the owner's process. -/
def Logs.list (logs : Logs) (orgId : ℕ) (deployment : Deployment) : List (ℕ × Chunk) :=
  if orgId = deployment.orgId ∧ deployment.state.terminal = false then
    match logs.lookup deployment.orgId deployment.id with
    | none => []
    | some owner => owner.buffer.table.map (owner.pid, ·)
  else []

/-- `load_live_logs`, with the deployment as it was just read. -/
def Page.loadLiveLogs (page : Page) (logs : Logs) (orgId : ℕ) (deployment : Deployment) : Page :=
  if deployment.state.terminal then
    { page with
      deployment := deployment
      liveLogs := ∅
      liveLogOwner := none
      liveLogsInterrupted := false }
  else
    let chunks := logs.list orgId deployment
    let owner := (chunks.map Prod.fst).head?
    { page with
      deployment := deployment
      liveLogs := LiveLogs.group (chunks.map Prod.snd)
      liveLogOwner := owner
      liveLogsInterrupted := page.liveLogsInterrupted ||
        (page.liveLogOwner.isSome && page.liveLogOwner != owner) }

/-- The logs after an event: what it evicted goes, then its chunk is added unless it
was evicted itself. -/
def LiveLogs.merge (logs : LiveLogs) (event : LogEvent) : LiveLogs :=
  let remaining := event.evicted.foldl LiveLogs.remove logs
  if event.chunk.key ∈ event.evicted then remaining else remaining.add event.chunk

/-- `handle_info` of an event of a log. -/
def Page.handleLog (page : Page) (logs : Logs) (message : LogMessage) : Page :=
  if page.deployment.state.terminal ∨
      some message.owner ≠
        (logs.lookup page.deployment.orgId page.deployment.id).map Owner.pid then page
  else
    let ownerChanged := page.liveLogOwner != some message.owner
    let liveLogs := if ownerChanged then ∅ else page.liveLogs
    { page with
      liveLogs := liveLogs.merge message.event
      liveLogOwner := some message.owner
      liveLogsInterrupted := page.liveLogsInterrupted ||
        (ownerChanged && page.liveLogOwner.isSome) || !message.event.evicted.isEmpty }

/-- What an event does to the outputs. -/
def LogEvent.patch (event : LogEvent) : Patch ChunkKey ByteArray where
  key := event.chunk.key
  value := event.chunk.output
  removed := event.evicted

theorem output_foldl_remove (keys : List ChunkKey) (logs : LiveLogs) (x : ChunkKey) :
    (keys.foldl LiveLogs.remove logs).output x = if x ∈ keys then none else logs.output x := by
  induction keys generalizing logs with
  | nil => rfl
  | cons key rest ih =>
    rw [List.foldl_cons, ih, output_remove]
    by_cases hrest : x ∈ rest
    · rw [if_pos hrest, if_pos (List.mem_cons_of_mem key hrest)]
    · by_cases hx : x = key
      · rw [if_neg hrest, if_pos hx, if_pos (hx ▸ List.mem_cons_self)]
      · have hnot : x ∉ key :: rest := fun h => (List.mem_cons.mp h).elim hx hrest
        rw [if_neg hrest, if_neg hx, if_neg hnot]

/-- The page merges an event as the patch that it stands for. -/
theorem output_merge (logs : LiveLogs) (event : LogEvent) :
    (logs.merge event).output = event.patch.apply logs.output := by
  funext x
  unfold LiveLogs.merge Patch.apply LogEvent.patch
  dsimp only
  split
  · rename_i hevicted
    rw [output_foldl_remove]
    split
    · rfl
    · rename_i hx
      have hne : x ≠ event.chunk.key := fun h => hx (h ▸ hevicted)
      rw [if_neg hne]
  · rename_i hkept
    rw [output_add, output_foldl_remove]
    by_cases hx : x ∈ event.evicted
    · have hne : x ≠ event.chunk.key := fun h => hkept (h ▸ hx)
      rw [if_neg hne, if_pos hx, if_pos hx]
    · rw [if_neg hx, if_neg hx]

theorem proper_merge {logs : LiveLogs} (h : logs.Proper) (event : LogEvent) :
    (logs.merge event).Proper := by
  have hremaining : ∀ keys : List ChunkKey, ∀ logs : LiveLogs, logs.Proper →
      (keys.foldl LiveLogs.remove logs).Proper := by
    intro keys
    induction keys with
    | nil => exact fun logs h => h
    | cons key rest ih => exact fun logs h => ih _ (proper_remove h key)
  unfold LiveLogs.merge
  dsimp only
  split
  · exact hremaining _ logs h
  · exact proper_add (hremaining _ logs h) event.chunk

end Page

section Buffers

variable {buffer buffer' : Buffer} {order evicted evicted' : List ChunkKey}
  {history : List LogEvent} {request : SeedDeploymentLog} {events : List LogEvent}

/-- The stored output under a key. -/
def Buffer.output (buffer : Buffer) (key : ChunkKey) : Option ByteArray :=
  (buffer.find? key).map (·.output)

theorem key_of_find? {key : ChunkKey} {chunk : Chunk} (h : buffer.find? key = some chunk) :
    chunk.key = key := by
  unfold Buffer.find? at h
  have hkey := List.find?_some h
  exact eq_of_beq hkey

theorem find?_drop (buffer : Buffer) (chunk : Chunk) (x : ChunkKey) :
    (buffer.drop chunk).find? x = if x = chunk.key then none else buffer.find? x := by
  unfold Buffer.find? Buffer.drop
  dsimp only
  rw [List.find?_filter]
  split
  · rename_i hx
    refine List.find?_eq_none.mpr fun other _ h => ?_
    obtain ⟨hne, hkey⟩ := of_decide_eq_true h
    exact bne_iff_ne.mp hne ((eq_of_beq hkey).trans hx)
  · rename_i hx
    refine congrFun (congrArg List.find? (funext fun other => ?_)) buffer.table
    by_cases hkey : other.key = x
    · simp [hkey, hx]
    · simp [hkey]

/-- All that an eviction does: some stored chunks go, and the floors of their seeds rise
to them. -/
theorem evict_spec (h : buffer.evict evicted order = some (buffer', evicted')) :
    ∃ gone, evicted' = evicted.reverse ++ gone ∧
      (∀ x, buffer'.find? x = if x ∈ gone then none else buffer.find? x) ∧
      (∀ seedSid, buffer.evictedThrough seedSid ≤ buffer'.evictedThrough seedSid) ∧
      (∀ key ∈ gone, key.2 ≤ buffer'.evictedThrough key.1) ∧
      buffer'.table.Sublist buffer.table := by
  induction order generalizing buffer evicted with
  | nil =>
    unfold Buffer.evict at h
    split at h
    · cases h
      exact ⟨[], (List.append_nil _).symm, fun x => rfl, fun _ => le_refl _, by simp, .refl _⟩
    · cases h
  | cons key order ih =>
    unfold Buffer.evict at h
    split at h
    · cases h
      exact ⟨[], (List.append_nil _).symm, fun x => rfl, fun _ => le_refl _, by simp, .refl _⟩
    · split at h
      · cases h
      · rename_i chunk hfind
        have hkey : chunk.key = key := key_of_find? hfind
        obtain ⟨gone, hevicted, hfinds, hfloors, hgone, htable⟩ := ih h
        have hraised : key.2 ≤ (buffer.drop chunk).evictedThrough key.1 := by
          unfold Buffer.drop
          dsimp only
          rw [hkey, Function.update_self]
          exact le_max_left _ _
        have hkept : ∀ seedSid,
            buffer.evictedThrough seedSid ≤ (buffer.drop chunk).evictedThrough seedSid := by
          intro seedSid
          unfold Buffer.drop
          dsimp only
          by_cases hseed : seedSid = chunk.key.1
          · rw [hseed, Function.update_self]
            exact le_max_right _ _
          · rw [Function.update_of_ne hseed]
        refine ⟨key :: gone, ?_, ?_, ?_, ?_, ?_⟩
        · rw [hevicted, List.reverse_cons, List.append_assoc]
          rfl
        · intro x
          rw [hfinds, find?_drop, hkey]
          by_cases hx : x = key
          · simp [hx]
          · simp [hx]
        · exact fun seedSid => (hkept seedSid).trans (hfloors seedSid)
        · intro x hx
          rcases List.mem_cons.mp hx with rfl | hx
          · exact hraised.trans (hfloors _)
          · exact hgone x hx
        · exact htable.trans List.filter_sublist

/-- Keys are stored once, and a log of what the owner has broadcast since it started is
absorbed: what the log mentions and the buffer does not have is below its floors. -/
structure Buffer.Records (buffer : Buffer) (history : List LogEvent) : Prop where
  nodup : (buffer.table.map (·.key)).Nodup
  absorbs : Absorbs (fun m p => p.apply m) (history.map LogEvent.patch) buffer.output
  seen : ∀ event ∈ history, ∀ x, ¬ event.patch.Spares x →
    x.2 ≤ buffer.evictedThrough x.1 ∨ (buffer.find? x).isSome = true

theorem find?_store (buffer : Buffer) (chunk : Chunk) (hnone : buffer.find? chunk.key = none)
    (x : ChunkKey) : (buffer.store chunk).find? x =
      if x = chunk.key then some chunk else buffer.find? x := by
  unfold Buffer.find? Buffer.store at *
  dsimp only at *
  rw [List.find?_append]
  by_cases hx : x = chunk.key
  · rw [if_pos hx, hx, hnone]
    simp
  · have hne : (chunk.key == x) = false := beq_eq_false_iff_ne.mpr fun h => hx h.symm
    rw [if_neg hx]
    simp [hne]

/-- What an accepted chunk does: it is new, one event is broadcast, and the outputs
change as that event says. -/
theorem insert_spec (h : buffer.insert request = some (buffer', events)) :
    (buffer' = buffer ∧ events = []) ∨
      ∃ event, events = [event] ∧
        event.chunk.key = (request.seedSid, request.sequence) ∧
        buffer.find? event.chunk.key = none ∧
        buffer.evictedThrough event.chunk.key.1 < event.chunk.key.2 ∧
        (∀ x, buffer'.find? x = if x ∈ event.evicted then none
          else if x = event.chunk.key then some event.chunk else buffer.find? x) ∧
        (∀ seedSid, buffer.evictedThrough seedSid ≤ buffer'.evictedThrough seedSid) ∧
        (∀ key ∈ event.evicted, key.2 ≤ buffer'.evictedThrough key.1) ∧
        buffer'.table.Sublist (buffer.table ++ [event.chunk]) := by
  unfold Buffer.insert at h
  dsimp only at h
  split at h
  · cases h
    exact Or.inl ⟨rfl, rfl⟩
  · rename_i hnew
    have hfloor : buffer.evictedThrough request.seedSid < request.sequence :=
      not_le.mp fun hle => hnew (Or.inl hle)
    have hnone : buffer.find? (request.seedSid, request.sequence) = none :=
      Option.not_isSome_iff_eq_none.mp fun hsome => hnew (Or.inr hsome)
    split at h
    · cases h
    · rename_i kept evicted hevict
      cases h
      obtain ⟨gone, hevicted, hfinds, hfloors, hgone, htable⟩ := evict_spec hevict
      have hsame : evicted = gone := hevicted
      subst hsame
      refine Or.inr ⟨_, rfl, rfl, hnone, hfloor, fun x => ?_, hfloors, hgone, htable⟩
      have hstored := find?_store buffer ⟨_, request.output⟩ hnone x
      exact (hfinds x).trans (by rw [hstored])

/-- The buffer keeps recording what it broadcasts. -/
theorem Buffer.Records.insert (hrecords : buffer.Records history)
    (h : buffer.insert request = some (buffer', events)) :
    buffer'.Records (history ++ events) ∧
      buffer'.output = (events.map LogEvent.patch).foldl (fun m p => p.apply m) buffer.output := by
  rcases insert_spec h with ⟨rfl, rfl⟩ |
    ⟨event, rfl, hkey, hnone, hfloor, hfinds, hfloors, hgone, htable⟩
  · rw [List.append_nil]
    exact ⟨hrecords, rfl⟩
  · have houtput : buffer'.output = event.patch.apply buffer.output := by
      funext x
      unfold Buffer.output Patch.apply LogEvent.patch
      dsimp only
      rw [hfinds]
      split
      · rfl
      · split
        · rename_i hx
          rw [hx, hnone]
          rfl
        · rfl
    have hspares : ∀ earlier ∈ history, earlier.patch.Spares event.chunk.key := by
      intro earlier hearlier
      by_contra hmentions
      rcases hrecords.seen earlier hearlier _ hmentions with hbelow | hsome
      · exact absurd hbelow (not_le.mpr hfloor)
      · rw [hnone] at hsome
        cases hsome
    have hfresh : ∀ q ∈ history.map LogEvent.patch, q.Spares event.patch.key := by
      intro q hq
      obtain ⟨earlier, hearlier, rfl⟩ := List.mem_map.mp hq
      exact hspares earlier hearlier
    have hvacant : buffer.output event.patch.key = none := by
      unfold Buffer.output
      rw [show event.patch.key = event.chunk.key from rfl, hnone]
      rfl
    refine ⟨⟨?_, ?_, ?_⟩, houtput⟩
    · have hall : ((buffer.table ++ [event.chunk]).map (·.key)).Nodup := by
        rw [List.map_append, List.nodup_append]
        refine ⟨hrecords.nodup, List.nodup_singleton _, fun key hmem other hother heq => ?_⟩
        obtain ⟨old, hold, rfl⟩ := List.mem_map.mp hmem
        rw [List.map_singleton, List.mem_singleton] at hother
        have hfound := List.find?_eq_none.mp hnone old hold
        exact hfound (beq_iff_eq.mpr (heq.trans hother))
      exact hall.sublist (htable.map _)
    · rw [List.map_append, houtput]
      exact hrecords.absorbs.patch hfresh hvacant
    · intro earlier hearlier x hmentions
      have hseen : x ∈ event.evicted ∨ x = event.chunk.key ∨
          x.2 ≤ buffer.evictedThrough x.1 ∨ (buffer.find? x).isSome = true := by
        rcases List.mem_append.mp hearlier with hold | hnew
        · exact Or.inr (Or.inr (hrecords.seen earlier hold x hmentions))
        · rw [List.mem_singleton.mp hnew] at hmentions
          by_cases hx : x = event.chunk.key
          · exact Or.inr (Or.inl hx)
          · exact Or.inl (not_not.mp fun hnot => hmentions ⟨hx, hnot⟩)
      rw [hfinds]
      by_cases hx : x ∈ event.evicted
      · exact Or.inl (hgone x hx)
      · rw [if_neg hx]
        rcases hseen with hevicted | hnew | hbelow | hsome
        · exact absurd hevicted hx
        · rw [if_pos hnew]
          exact Or.inr rfl
        · exact Or.inl (hbelow.trans (hfloors _))
        · split
          · exact Or.inr rfl
          · exact Or.inr hsome

end Buffers

end Sower.Server
