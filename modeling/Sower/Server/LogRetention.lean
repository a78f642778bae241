import Mathlib.Algebra.BigOperators.Group.List.Basic
import Mathlib.Algebra.Ring.Int.Defs
import Sower.Server.LiveLogs

/-!
# What an owner retains of a log

The byte counter, the chunk counter, the order queue and the table of an owner are
updated one after the other, by an insertion and by each step of the eviction that
follows it. They describe the same chunks after every append, so an eviction always
finds the chunk that the queue names next and comes to an end within both limits.
-/

namespace Sower.Server

open Sower.Wire

section Definitions

/-- `init`: an owner starts empty, with positive limits. -/
def Buffer.init (deployment : Deployment) (seeds : List Sid) (maxBytes maxChunks : ℤ) :
    Except LogError Buffer :=
  if 0 < maxBytes ∧ 0 < maxChunks then .ok { deployment, seeds, maxBytes, maxChunks }
  else .error .invalidLimits

/-- An append that reaches the owner. -/
structure Append where
  orgId : ℕ
  garden : Garden
  request : SeedDeploymentLog

/-- Seed and sequence number of the submitted chunk. -/
def Append.key (append : Append) : ChunkKey := (append.request.seedSid, append.request.sequence)

/-- An append with what it broadcast and its reply. -/
structure Handled where
  append : Append
  events : List LogEvent
  reply : Except LogError Unit

/-- The chunk under the key was submitted and not refused. -/
def Handled.accepts (handled : Handled) (key : ChunkKey) : Bool :=
  handled.append.key == key && handled.reply.isOk

/-- The owner handles appends one after the other; nothing when it crashes. -/
def Buffer.appendAll (buffer : Buffer) : List Append → Option (Buffer × List Handled)
  | [] => some (buffer, [])
  | append :: rest =>
    match buffer.append append.orgId append.garden append.request with
    | none => none
    | some ((next, events), reply) =>
      (next.appendAll rest).map fun (last, log) => (last, ⟨append, events, reply⟩ :: log)

/-- Bytes of the stored chunks. -/
def Buffer.stored (buffer : Buffer) : ℤ :=
  (buffer.table.map fun chunk => (chunk.output.size : ℤ)).sum

/-- Keys of the stored chunks. -/
def Buffer.keys (buffer : Buffer) : List ChunkKey := buffer.table.map (·.key)

/-- The counters and the queue describe the table. -/
structure Buffer.Accounted (buffer : Buffer) (order : List ChunkKey) : Prop where
  bytes : buffer.bytes = buffer.stored
  count : buffer.count = buffer.table.length
  order : order.Perm buffer.keys
  nodup : buffer.keys.Nodup

/-- The owner has these limits, and both are positive. -/
def Buffer.Limited (buffer : Buffer) (maxBytes maxChunks : ℤ) : Prop :=
  (buffer.maxBytes = maxBytes ∧ buffer.maxChunks = maxChunks) ∧ 0 < maxBytes ∧ 0 < maxChunks

end Definitions

section Accounts

variable {buffer : Buffer} {order evicted : List ChunkKey} {chunk : Chunk}
  {maxBytes maxChunks : ℤ}

/-- A stored chunk is found under its key. -/
theorem find?_of_mem (hnodup : buffer.keys.Nodup) (hmem : chunk ∈ buffer.table) :
    buffer.find? chunk.key = some chunk := by
  cases hfind : buffer.find? chunk.key with
  | none =>
    have hnone := List.find?_eq_none.mp hfind chunk hmem
    exact absurd (beq_self_eq_true chunk.key) hnone
  | some other =>
    have hother : other ∈ buffer.table := List.mem_of_find?_eq_some hfind
    have hkey : other.key = chunk.key := key_of_find? hfind
    have hsame : other = chunk := List.inj_on_of_nodup_map hnodup hother hmem hkey
    rw [hsame]

/-- Without one of its chunks the table has the others. -/
theorem perm_drop {table : List Chunk} (hnodup : (table.map (·.key)).Nodup)
    (hmem : chunk ∈ table) : table.Perm (chunk :: table.filter (·.key != chunk.key)) := by
  induction table with
  | nil => cases hmem
  | cons first rest ih =>
    rw [List.map_cons, List.nodup_cons] at hnodup
    obtain ⟨hfirst, hrest⟩ := hnodup
    cases hmem with
    | head =>
      have hkept : rest.filter (·.key != chunk.key) = rest := by
        refine List.filter_eq_self.mpr fun other hother => ?_
        have hne : other.key ≠ chunk.key := fun h => hfirst (h ▸ List.mem_map_of_mem hother)
        exact bne_iff_ne.mpr hne
      have hgone : (chunk.key != chunk.key) = false := bne_self_eq_false chunk.key
      rw [List.filter_cons, hgone, hkept]
      exact .refl _
    | tail _ hmem =>
      have hne : first.key ≠ chunk.key := fun h => hfirst (h ▸ List.mem_map_of_mem hmem)
      have hstays : (first.key != chunk.key) = true := bne_iff_ne.mpr hne
      rw [List.filter_cons, hstays]
      exact ((ih hrest hmem).cons first).trans (.swap chunk first _)

/-- One step of an eviction: the chunk that the queue names next goes. -/
theorem Buffer.Accounted.drop {key : ChunkKey} (h : buffer.Accounted (key :: order)) :
    ∃ chunk, buffer.find? key = some chunk ∧ (buffer.drop chunk).Accounted order := by
  have hkey : key ∈ buffer.keys := h.order.subset List.mem_cons_self
  obtain ⟨chunk, hmem, rfl⟩ := List.mem_map.mp hkey
  refine ⟨chunk, find?_of_mem h.nodup hmem, ?_⟩
  have hperm : buffer.table.Perm (chunk :: (buffer.drop chunk).table) := perm_drop h.nodup hmem
  have hbytes : buffer.stored = chunk.output.size + (buffer.drop chunk).stored := by
    have hsum := (hperm.map fun chunk => (chunk.output.size : ℤ)).sum_eq
    exact hsum
  have hcount : buffer.table.length = (buffer.drop chunk).table.length + 1 := hperm.length_eq
  have hkeys : buffer.keys.Perm (chunk.key :: (buffer.drop chunk).keys) :=
    hperm.map Chunk.key
  have hdropped : (buffer.drop chunk).bytes = buffer.bytes - chunk.output.size := rfl
  have hcounted : (buffer.drop chunk).count = buffer.count - 1 := rfl
  constructor
  · rw [hdropped, h.bytes, hbytes]
    omega
  · rw [hcounted, h.count, hcount]
    omega
  · exact (h.order.trans hkeys).cons_inv
  · exact (List.nodup_cons.mp (hkeys.nodup h.nodup)).2

/-- A queue that has run empty belongs to an empty table, which is within the limits. -/
theorem Buffer.Accounted.withinLimits (h : buffer.Accounted [])
    (hlimited : buffer.Limited maxBytes maxChunks) :
    buffer.withinLimits = true := by
  have hkeys : buffer.table.map (·.key) = [] := List.nil_perm.mp h.order
  have htable : buffer.table = [] := List.map_eq_nil_iff.mp hkeys
  have hbytes : buffer.bytes = 0 := by
    rw [h.bytes, Buffer.stored, htable]
    rfl
  have hcount : buffer.count = 0 := by
    rw [h.count, htable]
    rfl
  obtain ⟨⟨hbytesEq, hchunksEq⟩, hmaxBytes, hmaxChunks⟩ := hlimited
  unfold Buffer.withinLimits
  rw [hbytes, hcount, hbytesEq, hchunksEq, decide_eq_true hmaxBytes.le,
    decide_eq_true hmaxChunks.le]
  rfl

/-- An eviction comes to an end before the queue is empty, within both limits. -/
theorem Buffer.Accounted.evict (h : buffer.Accounted order)
    (hlimited : buffer.Limited maxBytes maxChunks) :
    ∃ buffer' evicted', buffer.evict evicted order = some (buffer', evicted') ∧
      buffer'.Accounted buffer'.order ∧ buffer'.Limited maxBytes maxChunks ∧
      buffer'.withinLimits = true := by
  induction order generalizing buffer evicted with
  | nil =>
    have hlimits := h.withinLimits hlimited
    unfold Buffer.evict
    rw [if_pos hlimits]
    exact ⟨_, _, rfl, ⟨h.bytes, h.count, h.order, h.nodup⟩, hlimited, hlimits⟩
  | cons key order ih =>
    unfold Buffer.evict
    by_cases hlimits : buffer.withinLimits = true
    · rw [if_pos hlimits]
      exact ⟨_, _, rfl, ⟨h.bytes, h.count, h.order, h.nodup⟩, hlimited, hlimits⟩
    · rw [if_neg hlimits]
      obtain ⟨chunk, hfind, hdropped⟩ := h.drop
      rw [hfind]
      exact ih hdropped hlimited

/-- A new chunk is counted and put at the end of the queue. -/
theorem Buffer.Accounted.store (h : buffer.Accounted buffer.order)
    (hnone : buffer.find? chunk.key = none) :
    (buffer.store chunk).Accounted (buffer.store chunk).order := by
  have hkeys : (buffer.store chunk).keys = buffer.keys ++ [chunk.key] := by
    unfold Buffer.keys Buffer.store
    rw [List.map_append]
    rfl
  have hbytes : (buffer.store chunk).stored = buffer.stored + chunk.output.size := by
    unfold Buffer.stored Buffer.store
    rw [List.map_append, List.sum_append]
    simp
  have hnew : chunk.key ∉ buffer.keys := by
    intro hmem
    obtain ⟨other, hother, hkey⟩ := List.mem_map.mp hmem
    have hdiffers := List.find?_eq_none.mp hnone other hother
    exact hdiffers (beq_iff_eq.mpr hkey)
  constructor
  · rw [hbytes, ← h.bytes]
    rfl
  · have hlength : (buffer.store chunk).table.length = buffer.table.length + 1 :=
      List.length_append
    have hcount : (buffer.store chunk).count = buffer.count + 1 := rfl
    rw [hcount, hlength, h.count]
    omega
  · rw [hkeys]
    exact h.order.append_right _
  · rw [hkeys, List.nodup_append]
    refine ⟨h.nodup, List.nodup_singleton _, fun key hmem other hother heq => ?_⟩
    rw [List.mem_singleton] at hother
    rw [heq, hother] at hmem
    exact hnew hmem

/-- An insertion never crashes the owner: the chunk is stored, or it is below the floor
or there already. -/
theorem Buffer.Accounted.insert (h : buffer.Accounted buffer.order)
    (hlimited : buffer.Limited maxBytes maxChunks) (hwithin : buffer.withinLimits = true)
    (request : SeedDeploymentLog) :
    ∃ buffer' events, buffer.insert request = some (buffer', events) ∧
      buffer'.Accounted buffer'.order ∧ buffer'.Limited maxBytes maxChunks ∧
      buffer'.withinLimits = true ∧
      (events = [] → request.sequence ≤ buffer.evictedThrough request.seedSid ∨
        (buffer.find? (request.seedSid, request.sequence)).isSome) ∧
      ∀ event ∈ events, event.chunk.output = request.output := by
  unfold Buffer.insert
  dsimp only
  by_cases hknown : request.sequence ≤ buffer.evictedThrough request.seedSid ∨
      (buffer.find? (request.seedSid, request.sequence)).isSome
  · rw [if_pos hknown]
    exact ⟨buffer, [], rfl, h, hlimited, hwithin, fun _ => hknown, by simp⟩
  · rw [if_neg hknown]
    have hnone : buffer.find? (request.seedSid, request.sequence) = none :=
      Option.not_isSome_iff_eq_none.mp fun hsome => hknown (Or.inr hsome)
    have hstored : (buffer.store ⟨_, request.output⟩).Accounted _ := h.store hnone
    obtain ⟨kept, evicted, hevict, hkept, hkeptLimited, hkeptWithin⟩ := hstored.evict hlimited
    rw [hevict]
    refine ⟨_, _, rfl, ⟨hkept.bytes, hkept.count, hkept.order, hkept.nodup⟩, hkeptLimited,
      hkeptWithin, fun hnil => (by cases hnil), fun event hevent => ?_⟩
    rw [List.mem_singleton] at hevent
    rw [hevent]

end Accounts

section Retention

variable {buffer : Buffer} {log : List Handled} {maxBytes maxChunks : ℤ}

/-- What an owner retains of the appends that it has handled. -/
structure Buffer.Retains (buffer : Buffer) (maxBytes maxChunks : ℤ) (log : List Handled) :
    Prop where
  accounted : buffer.Accounted buffer.order
  limited : buffer.Limited maxBytes maxChunks
  within : buffer.withinLimits = true
  /-- What was accepted is stored or below the floor of its seed. -/
  settled : ∀ handled ∈ log, handled.reply.isOk = true →
    handled.append.key.2 ≤ buffer.evictedThrough handled.append.key.1 ∨
      (buffer.find? handled.append.key).isSome = true
  /-- A stored output is the one that was accepted first under its key. -/
  first : ∀ key chunk, buffer.find? key = some chunk → ∃ handled,
    log.find? (·.accepts key) = some handled ∧ handled.append.request.output = chunk.output
  /-- What was evicted is below the floor and not stored. -/
  gone : ∀ handled ∈ log, ∀ event ∈ handled.events, ∀ key ∈ event.evicted,
    key.2 ≤ buffer.evictedThrough key.1 ∧ buffer.find? key = none

/-- Nothing accepted so far has a new key. -/
theorem Buffer.Retains.find?_eq_none (h : buffer.Retains maxBytes maxChunks log) {key : ChunkKey}
    (hfloor : buffer.evictedThrough key.1 < key.2) (hnone : buffer.find? key = none) :
    log.find? (·.accepts key) = none := by
  refine List.find?_eq_none.mpr fun handled hmem haccepts => ?_
  obtain ⟨hkey, hok⟩ := Bool.and_eq_true_iff.mp haccepts
  have hsame : handled.append.key = key := eq_of_beq hkey
  have hsettled := h.settled handled hmem hok
  rw [hsame] at hsettled
  cases hsettled with
  | inl hbelow => exact absurd hfloor (not_lt.mpr hbelow)
  | inr hsome =>
    rw [hnone] at hsome
    cases hsome

/-- An append that changes nothing is only added to the log. -/
theorem Buffer.Retains.ignore (h : buffer.Retains maxBytes maxChunks log) {append : Append}
    {reply : Except LogError Unit}
    (hknown : reply.isOk = true → append.key.2 ≤ buffer.evictedThrough append.key.1 ∨
      (buffer.find? append.key).isSome = true) :
    buffer.Retains maxBytes maxChunks (log ++ [⟨append, [], reply⟩]) where
  accounted := h.accounted
  limited := h.limited
  within := h.within
  settled handled hmem hok := by
    cases List.mem_append.mp hmem with
    | inl hold => exact h.settled handled hold hok
    | inr hnew =>
      cases List.mem_singleton.mp hnew
      exact hknown hok
  first key chunk hfind := by
    obtain ⟨handled, hfirst, houtput⟩ := h.first key chunk hfind
    refine ⟨handled, ?_, houtput⟩
    rw [List.find?_append, hfirst]
    rfl
  gone handled hmem event hevent := by
    cases List.mem_append.mp hmem with
    | inl hold => exact h.gone handled hold event hevent
    | inr hnew =>
      cases List.mem_singleton.mp hnew
      cases hevent

/-- A chunk that is stored is the first one under its key. -/
theorem Buffer.Retains.insert (h : buffer.Retains maxBytes maxChunks log) (append : Append) :
    ∃ buffer' events, buffer.insert append.request = some (buffer', events) ∧
      buffer'.Retains maxBytes maxChunks (log ++ [⟨append, events, .ok ()⟩]) := by
  obtain ⟨buffer', events, hinsert, haccounted, hlimited, hwithin, hknown, houtput⟩ :=
    h.accounted.insert h.limited h.within append.request
  refine ⟨buffer', events, hinsert, ?_⟩
  rcases insert_spec hinsert with ⟨hsame, hevents⟩ |
    ⟨event, hevents, hkey, hnone, hfloor, hfinds, hfloors, hgone, -⟩
  · rw [hsame, hevents]
    exact h.ignore fun _ => hknown hevents
  · have hnew : append.key = event.chunk.key := hkey.symm
    have hfirst := h.find?_eq_none hfloor hnone
    subst hevents
    refine ⟨haccounted, hlimited, hwithin, fun handled hmem hok => ?_, fun key chunk hfind => ?_,
      fun handled hmem event' hevent key hevicted => ?_⟩
    · have hsettled : handled.append.key.2 ≤ buffer.evictedThrough handled.append.key.1 ∨
          handled.append.key = event.chunk.key ∨
            (buffer.find? handled.append.key).isSome = true := by
        cases List.mem_append.mp hmem with
        | inl hold =>
          cases h.settled handled hold hok with
          | inl hbelow => exact Or.inl hbelow
          | inr hsome => exact Or.inr (Or.inr hsome)
        | inr hlast =>
          cases List.mem_singleton.mp hlast
          exact Or.inr (Or.inl hnew)
      by_cases hevicted : handled.append.key ∈ event.evicted
      · exact Or.inl (hgone _ hevicted)
      · rw [hfinds, if_neg hevicted]
        rcases hsettled with hbelow | heq | hsome
        · exact Or.inl (hbelow.trans (hfloors _))
        · rw [if_pos heq]
          exact Or.inr rfl
        · right
          split
          · rfl
          · exact hsome
    · rw [hfinds] at hfind
      split at hfind
      · cases hfind
      · split at hfind
        · rename_i hcurrent
          cases hfind
          rw [List.find?_append, hcurrent, hfirst]
          have haccepts : (Handled.mk append [event] (.ok ())).accepts event.chunk.key = true := by
            unfold Handled.accepts
            rw [hnew, beq_self_eq_true]
            rfl
          rw [Option.none_or, List.find?_singleton, if_pos haccepts]
          exact ⟨_, rfl, (houtput event List.mem_cons_self).symm⟩
        · obtain ⟨handled, hold, hsame⟩ := h.first key chunk hfind
          refine ⟨handled, ?_, hsame⟩
          rw [List.find?_append, hold]
          rfl
    · cases List.mem_append.mp hmem with
      | inl hold =>
        obtain ⟨hbelow, habsent⟩ := h.gone handled hold event' hevent key hevicted
        have hother : key ≠ event.chunk.key := by
          intro heq
          rw [heq] at hbelow
          exact absurd hfloor (not_lt.mpr hbelow)
        refine ⟨hbelow.trans (hfloors _), ?_⟩
        rw [hfinds, if_neg hother, habsent, ite_self]
      | inr hlast =>
        cases List.mem_singleton.mp hlast
        rw [List.mem_singleton] at hevent
        rw [hevent] at hevicted
        refine ⟨hgone key hevicted, ?_⟩
        rw [hfinds, if_pos hevicted]

/-- Every append is answered, and what the owner retains is settled again. -/
theorem Buffer.Retains.append (h : buffer.Retains maxBytes maxChunks log) (append : Append) :
    ∃ buffer' events reply,
      buffer.append append.orgId append.garden append.request = some ((buffer', events), reply) ∧
        buffer'.Retains maxBytes maxChunks (log ++ [⟨append, events, reply⟩]) := by
  unfold Buffer.append
  cases hrefuses : buffer.refuses append.orgId append.garden append.request with
  | some reason => exact ⟨buffer, [], .error reason, rfl, h.ignore fun hok => nomatch hok⟩
  | none =>
    obtain ⟨buffer', events, hinsert, hretains⟩ := h.insert append
    dsimp only
    rw [hinsert]
    exact ⟨buffer', events, .ok (), rfl, hretains⟩

/-- Every sequence of appends is answered. -/
theorem Buffer.Retains.appendAll (h : buffer.Retains maxBytes maxChunks log)
    (appends : List Append) :
    ∃ buffer' later, buffer.appendAll appends = some (buffer', later) ∧
      later.map (·.append) = appends ∧ buffer'.Retains maxBytes maxChunks (log ++ later) := by
  induction appends generalizing buffer log with
  | nil =>
    refine ⟨buffer, [], rfl, rfl, ?_⟩
    rw [List.append_nil]
    exact h
  | cons append rest ih =>
    obtain ⟨next, events, reply, hstep, hnext⟩ := h.append append
    obtain ⟨last, later, hrun, hlater, hlast⟩ := ih hnext
    refine ⟨last, ⟨append, events, reply⟩ :: later, ?_, ?_, ?_⟩
    · unfold Buffer.appendAll
      rw [hstep]
      dsimp only
      rw [hrun]
      rfl
    · rw [List.map_cons, hlater]
    · rw [List.append_assoc] at hlast
      exact hlast

/-- A new owner has nothing to retain. -/
theorem retains_init {deployment : Deployment} {seeds : List Sid}
    (hinit : Buffer.init deployment seeds maxBytes maxChunks = .ok buffer) :
    buffer.Retains maxBytes maxChunks [] := by
  unfold Buffer.init at hinit
  split at hinit
  · rename_i hlimited
    cases hinit
    have haccounted : Buffer.Accounted { deployment, seeds, maxBytes, maxChunks } [] :=
      ⟨rfl, rfl, .refl _, List.nodup_nil⟩
    have hlimits : Buffer.Limited { deployment, seeds, maxBytes, maxChunks } maxBytes maxChunks :=
      ⟨⟨rfl, rfl⟩, hlimited⟩
    refine ⟨haccounted, hlimits, haccounted.withinLimits hlimits, ?_, ?_, ?_⟩
    · intro handled hmem
      cases hmem
    · intro key chunk hfind
      cases hfind
    · intro handled hmem
      cases hmem
  · cases hinit

/-- Whatever is appended to an owner that has started, every append is answered; the
counters and the queue then describe the table, both limits hold, each stored chunk has
the output that was accepted first under its key, and no chunk is stored that has been
evicted before. -/
theorem appendAll_retained {deployment : Deployment} {seeds : List Sid}
    (hinit : Buffer.init deployment seeds maxBytes maxChunks = .ok buffer)
    (appends : List Append) :
    ∃ buffer' log, buffer.appendAll appends = some (buffer', log) ∧
      log.map (·.append) = appends ∧
      buffer'.Accounted buffer'.order ∧
      buffer'.bytes ≤ maxBytes ∧ buffer'.count ≤ maxChunks ∧
      (∀ chunk ∈ buffer'.table, ∃ handled, log.find? (·.accepts chunk.key) = some handled ∧
        handled.append.request.output = chunk.output) ∧
      ∀ handled ∈ log, ∀ event ∈ handled.events, ∀ key ∈ event.evicted,
        ∀ chunk ∈ buffer'.table, chunk.key ≠ key := by
  obtain ⟨buffer', log, hrun, happends, hretains⟩ := (retains_init hinit).appendAll appends
  rw [List.nil_append] at hretains
  have hnodup := hretains.accounted.nodup
  have hwithin := hretains.within
  unfold Buffer.withinLimits at hwithin
  obtain ⟨hbytes, hchunks⟩ := Bool.and_eq_true_iff.mp hwithin
  have hmaxBytes := of_decide_eq_true hbytes
  have hmaxChunks := of_decide_eq_true hchunks
  rw [hretains.limited.1.1] at hmaxBytes
  rw [hretains.limited.1.2] at hmaxChunks
  refine ⟨buffer', log, hrun, happends, hretains.accounted, hmaxBytes, hmaxChunks,
    fun chunk hmem => hretains.first _ chunk (find?_of_mem hnodup hmem),
    fun handled hhandled event hevent key hkey chunk hmem heq => ?_⟩
  have habsent := (hretains.gone handled hhandled event hevent key hkey).2
  rw [← heq, find?_of_mem hnodup hmem] at habsent
  cases habsent

/-- An unresolved deployment of one seed. -/
def loggedDeployment : Deployment where
  id := 1
  orgId := 1
  gardenId := 1
  parentDeploymentId := none
  seeds := [1]
  subscriptions := []
  deployedAt := none
  result := none
  state := .dispatched
  lastDispatchedAt := none
  contentHash := ""
  retryOrdinal := none
  directAction := none
  directOverride := false
  insertedAt := 0

/-- A chunk of the seed, appended by the garden. -/
def loggedChunk (sequence : ℤ) (output : ByteArray) : Append :=
  ⟨1, { id := 1, policy := [], timezone := none }, ⟨1, 1, sequence, output⟩⟩

/-- Chunks out of order, one of them twice and one of five bytes. -/
def smallAppends : List Append :=
  [loggedChunk 2 ⟨#[97, 98]⟩, loggedChunk 2 ⟨#[99]⟩, loggedChunk 1 ⟨#[97]⟩,
    loggedChunk 3 ⟨#[97, 97, 97, 97, 97]⟩, loggedChunk 2 ⟨#[97]⟩]

/-- An owner with room for one chunk of four bytes answers them all. -/
theorem appendAll_retained_small :
    ∃ owner buffer' log, Buffer.init loggedDeployment [1] 4 1 = .ok owner ∧
      owner.appendAll smallAppends = some (buffer', log) ∧
      buffer'.bytes ≤ 4 ∧ buffer'.count ≤ 1 := by
  have hinit : Buffer.init loggedDeployment [1] 4 1 =
      .ok { deployment := loggedDeployment, seeds := [1], maxBytes := 4, maxChunks := 1 } := rfl
  obtain ⟨buffer', log, hrun, -, -, hbytes, hchunks, -, -⟩ :=
    appendAll_retained hinit smallAppends
  exact ⟨_, buffer', log, hinit, hrun, hbytes, hchunks⟩

end Retention

end Sower.Server
