import Sower.Garden.DeploymentLog

/-!
# Chunks and batches of a deployment's log

Every line is cut to an end into chunks that are texts. In every run the counter is the room
of the accepted chunks that are not processed and of a chunk that is about to be refused,
and what is sent, together with what waits, is what was accepted.
-/

namespace Sower.Garden.DeploymentLog

open Utf8 Sower.Wire

section Chunks

/-- What is enqueued at once: part of a text, and not more than a batch holds. -/
structure IsChunk (chunk : List UInt8) : Prop where
  nonempty : chunk ≠ []
  valid : Valid chunk
  length_le : chunk.length ≤ batchBytes

variable {output : List UInt8} {text : List Char} {start size fuel : ℕ}

theorem boundary_length : boundary output output.length = some output.length := by
  unfold boundary
  split
  · rename_i hzero
    rw [if_pos hzero, hzero]
  · rename_i size hsize
    rw [if_pos hsize.symm, hsize]

/-- Going back from a position, the cut is found in front of the first byte that continues
nothing. -/
theorem boundary_back {b : UInt8} (hfirst : output[start]? = some b)
    (hlead : isContinuation b = false) (hsize : start + size < output.length)
    (hcontinued : ∀ q, start < q → q ≤ start + size →
      ∃ b, output[q]? = some b ∧ isContinuation b = true) :
    boundary output (start + size) = some start := by
  induction size with
  | zero =>
    rw [Nat.add_zero]
    cases start with
    | zero =>
      have hne : output.length ≠ 0 := by omega
      simp only [boundary, if_neg hne, hfirst, hlead, Bool.false_eq_true, if_false]
    | succ start =>
      have hne : start + 1 ≠ output.length := by omega
      simp only [boundary, if_neg hne, hfirst, hlead, Bool.false_eq_true, if_false]
  | succ size ih =>
    have hne : start + size + 1 ≠ output.length := by omega
    obtain ⟨b', hb', hcont⟩ := hcontinued (start + size + 1) (by omega) (by omega)
    have hback := ih (by omega) fun q hq hle => hcontinued q hq (by omega)
    rw [← Nat.add_assoc]
    simp only [boundary, if_neg hne, hb', hcont, if_true]
    exact hback

/-- The first chunk of a text ends between two characters, and is not empty. -/
theorem takeChunk_encode (h : encode text ≠ []) : ∃ front behind, text = front ++ behind ∧
    IsChunk (encode front) ∧ takeChunk (encode text) = some (encode front, encode behind) := by
  have hpos : 0 < (encode text).length := List.length_pos_iff.mpr h
  by_cases hsmall : (encode text).length ≤ batchBytes
  · refine ⟨text, [], (List.append_nil _).symm, ⟨h, ⟨text, rfl⟩, hsmall⟩, ?_⟩
    unfold takeChunk
    rw [Nat.min_eq_left hsmall, boundary_length]
    simp only [Option.map_some, List.take_length, List.drop_length, encode_nil]
  · have hlarge : batchBytes < (encode text).length := by omega
    obtain ⟨front, behind, htext, hle, hclose, ⟨b, hb, hlead⟩, hcontinued⟩ :=
      exists_boundary hlarge
    have hsize : (encode front).length + (batchBytes - (encode front).length) = batchBytes := by
      omega
    have hboundary : boundary (encode text)
        ((encode front).length + (batchBytes - (encode front).length)) =
          some (encode front).length :=
      boundary_back hb hlead (by omega) fun q hq hqle => hcontinued q hq (by omega)
    have hbytes : encode text = encode front ++ encode behind := by rw [htext, encode_append]
    have hnonempty : 0 < (encode front).length := by
      unfold batchBytes at hclose
      omega
    refine ⟨front, behind, htext, ⟨List.length_pos_iff.mp hnonempty, ⟨front, rfl⟩, hle⟩, ?_⟩
    unfold takeChunk
    rw [Nat.min_eq_right hlarge.le, ← hsize, hboundary]
    simp only [Option.map_some, hbytes, List.take_left, List.drop_left]

/-- With a call for every byte the chunks come to an end, and they are the text. -/
theorem chunks_encode (h : (encode text).length ≤ fuel) :
    ∃ parts, chunks fuel (encode text) = some parts ∧ parts.flatten = encode text ∧
      ∀ part ∈ parts, IsChunk part := by
  induction fuel generalizing text with
  | zero =>
    have hnil : encode text = [] := List.length_eq_zero_iff.mp (Nat.le_zero.mp h)
    exact ⟨[], by rw [hnil, chunks], hnil.symm, fun part hpart => nomatch hpart⟩
  | succ fuel ih =>
    by_cases hnil : encode text = []
    · exact ⟨[], by rw [hnil, chunks], hnil.symm, fun part hpart => nomatch hpart⟩
    · obtain ⟨front, behind, htext, hchunk, htake⟩ := takeChunk_encode hnil
      have hbytes : encode text = encode front ++ encode behind := by rw [htext, encode_append]
      have hpos : 0 < (encode front).length := List.length_pos_iff.mpr hchunk.nonempty
      have hlength : (encode behind).length ≤ fuel := by
        rw [hbytes, List.length_append] at h
        omega
      obtain ⟨parts, hparts, hflatten, hall⟩ := ih hlength
      obtain ⟨b, bytes, hcons⟩ := List.exists_cons_of_ne_nil hnil
      refine ⟨encode front :: parts, ?_, ?_, List.forall_mem_cons.mpr ⟨hchunk, hall⟩⟩
      · rw [hcons, chunks, ← hcons, htake]
        simp only [Option.bind_some, hparts, Option.map_some]
      · rw [List.flatten_cons, hflatten, hbytes]

/-- More calls make no difference. -/
theorem chunks_succ {parts : List (List UInt8)} (h : chunks fuel output = some parts) :
    chunks (fuel + 1) output = some parts := by
  induction fuel generalizing output parts with
  | zero =>
    cases output with
    | nil => exact h
    | cons b output => cases h
  | succ fuel ih =>
    cases output with
    | nil => exact h
    | cons b output =>
      rw [chunks] at h ⊢
      obtain ⟨⟨chunk, rest⟩, htake, hrest⟩ := Option.bind_eq_some_iff.mp h
      obtain ⟨others, hothers, rfl⟩ := Option.map_eq_some_iff.mp hrest
      rw [htake, Option.bind_some]
      simp only [ih hothers, Option.map_some]

theorem chunks_of_le {parts : List (List UInt8)} {fuel' : ℕ} (h : chunks fuel output = some parts)
    (hle : fuel ≤ fuel') : chunks fuel' output = some parts := by
  induction fuel', hle using Nat.le_induction with
  | base => exact h
  | succ fuel' _ ih => exact chunks_succ ih

/-- All chunks of what is enqueued. -/
def chunksOf (output : List UInt8) : List (List UInt8) := (chunks output.length output).getD []

@[simp] theorem chunksOf_nil : chunksOf [] = [] := rfl

/-- One chunk, then those of the rest. -/
theorem chunksOf_cons (h : encode text ≠ []) : ∃ front behind, text = front ++ behind ∧
    IsChunk (encode front) ∧ takeChunk (encode text) = some (encode front, encode behind) ∧
    chunksOf (encode text) = encode front :: chunksOf (encode behind) := by
  obtain ⟨front, behind, htext, hchunk, htake⟩ := takeChunk_encode h
  obtain ⟨b, bytes, hcons⟩ := List.exists_cons_of_ne_nil h
  obtain ⟨parts, hparts, -⟩ := chunks_encode (le_refl (encode behind).length)
  have hpos : 0 < (encode front).length := List.length_pos_iff.mpr hchunk.nonempty
  have hlength : (encode text).length = (encode front).length + (encode behind).length := by
    rw [htext, encode_append, List.length_append]
  have hbytes : bytes.length + 1 = (encode text).length := by rw [hcons, List.length_cons]
  have hmore : chunks bytes.length (encode behind) = some parts :=
    chunks_of_le hparts (by omega)
  refine ⟨front, behind, htext, hchunk, htake, ?_⟩
  unfold chunksOf
  rw [hparts, hcons, List.length_cons, chunks, ← hcons, htake]
  simp only [Option.bind_some, hmore, Option.map_some, Option.getD_some]

end Chunks

section Batches

/-- What the log's process does between two of its states: it takes up bytes and sends
batches. -/
structure Sends (state state' : LogState) (batches : List Batch) (added : List UInt8) : Prop where
  sequence : state'.sequence = state.sequence + batches.length
  numbered : batches.map Batch.sequence = List.range' (state.sequence + 1) batches.length
  outputs : batches.flatMap Batch.output ++ state'.buffer = state.buffer ++ added
  sized : ∀ batch ∈ batches, batch.output ≠ [] ∧ batch.output.length ≤ batchBytes

variable {state state' state'' : LogState} {batches batches' : List Batch}
  {added added' chunk : List UInt8}

theorem Sends.refl (state : LogState) : Sends state state [] [] where
  sequence := rfl
  numbered := rfl
  outputs := (List.append_nil _).symm
  sized := fun _ hbatch => nomatch hbatch

theorem Sends.append (h : Sends state state' batches added)
    (h' : Sends state' state'' batches' added') :
    Sends state state'' (batches ++ batches') (added ++ added') where
  sequence := by
    rw [h'.sequence, h.sequence, List.length_append, Nat.add_assoc]
  numbered := by
    have hstart : state.sequence + batches.length + 1 = state.sequence + 1 + batches.length := by
      omega
    rw [List.map_append, h.numbered, h'.numbered, h.sequence, hstart, List.length_append,
      List.range'_append_1]
  outputs := by
    rw [List.flatMap_append, List.append_assoc, h'.outputs, ← List.append_assoc, h.outputs,
      List.append_assoc]
  sized := List.forall_mem_append.mpr ⟨h.sized, h'.sized⟩

theorem sendBatch_sends (h : state.buffer.length ≤ batchBytes) :
    Sends state state.sendBatch.1 state.sendBatch.2 [] := by
  unfold LogState.sendBatch
  split
  · exact .refl state
  · rename_i hne
    exact {
      sequence := rfl
      numbered := rfl
      outputs := by simp
      sized := by
        rw [List.forall_mem_singleton]
        exact ⟨hne, h⟩ }

theorem sendBatch_buffer : state.sendBatch.1.buffer = [] := by
  unfold LogState.sendBatch
  split
  · assumption
  · rfl

theorem sendIf_sends (condition : Bool) (h : state.buffer.length ≤ batchBytes) :
    Sends state (state.sendIf condition).1 (state.sendIf condition).2 [] := by
  unfold LogState.sendIf
  split
  · exact sendBatch_sends h
  · exact .refl state

/-- A chunk is taken up, and the buffer stays smaller than a batch. -/
theorem addChunk_sends (h : state.buffer.length < batchBytes) (hchunk : chunk.length ≤ batchBytes) :
    Sends state (state.addChunk chunk).1 (state.addChunk chunk).2 chunk ∧
      (state.addChunk chunk).1.buffer.length < batchBytes := by
  obtain ⟨state₁, hstate₁⟩ : ∃ state₁, state₁ =
      state.sendIf (batchBytes < state.buffer.length + chunk.length) := ⟨_, rfl⟩
  have hfull : Sends state state₁.1 state₁.2 [] := by
    rw [hstate₁]
    exact sendIf_sends _ h.le
  -- there is room for the chunk now: the buffer was sent, or it had room before
  have hroom : state₁.1.buffer.length + chunk.length ≤ batchBytes := by
    rw [hstate₁, LogState.sendIf]
    split
    · rw [sendBatch_buffer, List.length_nil]
      omega
    · rename_i hfits
      rw [decide_eq_true_eq] at hfits
      exact Nat.not_lt.mp hfits
  have htaken : Sends state₁.1 { state₁.1 with buffer := state₁.1.buffer ++ chunk } [] chunk :=
    { Sends.refl state₁.1 with outputs := rfl }
  have hlength : (state₁.1.buffer ++ chunk).length ≤ batchBytes := by
    rw [List.length_append]
    exact hroom
  obtain ⟨state₂, hstate₂⟩ : ∃ state₂, state₂ =
      ({ state₁.1 with buffer := state₁.1.buffer ++ chunk } : LogState).sendIf
        ((state₁.1.buffer ++ chunk).length = batchBytes) := ⟨_, rfl⟩
  have hexact : Sends { state₁.1 with buffer := state₁.1.buffer ++ chunk } state₂.1 state₂.2 [] := by
    rw [hstate₂]
    exact sendIf_sends _ hlength
  have hsends := (hfull.append htaken).append hexact
  have hsmall : state₂.1.buffer.length < batchBytes := by
    rw [hstate₂, LogState.sendIf]
    split
    · rw [sendBatch_buffer]
      exact Nat.lt_of_lt_of_le Nat.zero_lt_one (by decide)
    · rename_i hfits
      rw [decide_eq_true_eq] at hfits
      exact lt_of_le_of_ne hlength hfits
  rw [List.append_nil, List.nil_append, List.append_nil] at hsends
  unfold LogState.addChunk
  simp only [← hstate₁, ← hstate₂]
  split
  · exact ⟨⟨hsends.sequence, hsends.numbered, hsends.outputs, hsends.sized⟩, hsmall⟩
  · exact ⟨hsends, hsmall⟩

end Batches

section Runs

/-- The line that an action writes. -/
def Action.line? : Action → Option (List UInt8)
  | .output line => some line
  | _ => none

/-- Lines of a run. -/
def outputLines (actions : List Action) : List (List UInt8) := actions.filterMap Action.line?

/-- Chunks of a run for which room was asked. -/
def offered (events : List Event) : List (List UInt8) := events.filterMap fun
  | .chunk _ bytes => some bytes
  | .batch _ => none

/-- Chunks of a run for which there was room. -/
def accepted (events : List Event) : List (List UInt8) := events.filterMap fun
  | .chunk true bytes => some bytes
  | _ => none

/-- Batches of a run. -/
def batches (events : List Event) : List Batch := events.filterMap fun
  | .batch batch => some batch
  | .chunk _ _ => none

/-- Bytes that a message carries. -/
def LogMessage.bytes : LogMessage → List UInt8
  | .output chunk => chunk
  | _ => []

/-- Bytes of a reservation for which there was room. -/
def Reservation.acceptedBytes : Reservation → List UInt8
  | .accepted chunk => chunk
  | _ => []

/-- Bytes of a reservation for which there was none. -/
def Reservation.refusedBytes : Reservation → List UInt8
  | .refused chunk => chunk
  | _ => []

@[simp] theorem acceptedBytes_none : Reservation.none.acceptedBytes = [] := rfl

@[simp] theorem refusedBytes_none : Reservation.none.refusedBytes = [] := rfl

/-- Accepted bytes on their way to the log's process. -/
def Log.inFlight (log : Log) : List UInt8 :=
  log.mailbox.flatMap LogMessage.bytes ++ log.reservation.acceptedBytes

/-- Number of bytes that were accepted and are not processed. -/
def Log.unprocessed (log : Log) : ℕ := log.inFlight.length + log.working.getD 0

/-- What holds between two steps. -/
structure Log.Ok (log : Log) : Prop where
  todo : Valid log.todo
  refused : log.reservation.refusedBytes.length ≤ batchBytes
  sized : ∀ message ∈ log.mailbox, message.bytes.length ≤ batchBytes
  pending : log.pending = log.unprocessed + log.reservation.refusedBytes.length
  unprocessed : log.unprocessed ≤ pendingBytes
  buffer : log.state.buffer.length < batchBytes
  accepted : log.reservation.acceptedBytes.length ≤ batchBytes

/-- What happens between two states of the log. -/
structure Follows (log next : Log) (actions : List Action) (events : List Event) : Prop where
  /-- The lines are offered in chunks. -/
  offers : offered events ++ chunksOf next.todo =
    chunksOf log.todo ++ (outputLines actions).flatMap fun line => chunksOf (sanitize line)
  chunks : ∀ chunk ∈ offered events, IsChunk chunk
  /-- What is accepted is sent. -/
  outputs : (batches events).flatMap Batch.output ++ (next.state.buffer ++ next.inFlight) =
    log.state.buffer ++ log.inFlight ++ (accepted events).flatten
  sequence : next.state.sequence = log.state.sequence + (batches events).length
  numbered : (batches events).map Batch.sequence =
    List.range' (log.state.sequence + 1) (batches events).length
  sized : ∀ batch ∈ batches events, batch.output ≠ [] ∧ batch.output.length ≤ batchBytes

variable {log mid next : Log} {actions actions' : List Action} {events events' : List Event}

theorem outputLines_append : outputLines (actions ++ actions') =
    outputLines actions ++ outputLines actions' := List.filterMap_append

theorem offered_append : offered (events ++ events') = offered events ++ offered events' :=
  List.filterMap_append

theorem accepted_append : accepted (events ++ events') = accepted events ++ accepted events' :=
  List.filterMap_append

theorem batches_append : batches (events ++ events') = batches events ++ batches events' :=
  List.filterMap_append

theorem Follows.refl (log : Log) : Follows log log [] [] where
  offers := (List.append_nil _).symm
  chunks := fun _ hchunk => nomatch hchunk
  outputs := (List.append_nil _).symm
  sequence := rfl
  numbered := rfl
  sized := fun _ hbatch => nomatch hbatch

theorem Follows.append (h : Follows log mid actions events) (h' : Follows mid next actions' events') :
    Follows log next (actions ++ actions') (events ++ events') where
  offers := by
    rw [offered_append, outputLines_append, List.flatMap_append, List.append_assoc, h'.offers,
      ← List.append_assoc, h.offers, List.append_assoc]
  chunks := by
    rw [offered_append]
    exact List.forall_mem_append.mpr ⟨h.chunks, h'.chunks⟩
  outputs := by
    rw [batches_append, accepted_append, List.flatMap_append, List.flatten_append,
      List.append_assoc, h'.outputs, ← List.append_assoc, h.outputs, List.append_assoc]
  sequence := by
    rw [batches_append, h'.sequence, h.sequence, List.length_append, Nat.add_assoc]
  numbered := by
    have hstart : log.state.sequence + (batches events).length + 1 =
        log.state.sequence + 1 + (batches events).length := by omega
    rw [batches_append, List.map_append, h.numbered, h'.numbered, h.sequence, hstart,
      List.length_append, List.range'_append_1]
  sized := by
    rw [batches_append]
    exact List.forall_mem_append.mpr ⟨h.sized, h'.sized⟩

/-- Nothing is offered and nothing sent, and all bytes stay where they are. -/
theorem Follows.quiet {action : Action} (htodo : next.todo = log.todo) (hline : action.line? = none)
    (hstate : next.state = log.state) (hflight : next.inFlight = log.inFlight) :
    Follows log next [action] [] where
  offers := by
    have hlines : outputLines [action] = [] := by
      unfold outputLines
      rw [List.filterMap_cons_none hline, List.filterMap_nil]
    rw [htodo, hlines, List.flatMap_nil, List.append_nil]
    rfl
  chunks := fun _ hchunk => nomatch hchunk
  outputs := by
    rw [hstate, hflight]
    exact (List.append_nil _).symm
  sequence := congrArg LogState.sequence hstate
  numbered := rfl
  sized := fun _ hbatch => nomatch hbatch

/-- What is sent is all that the events of sending show. -/
theorem batches_map (sent : List Batch) : batches (sent.map .batch) = sent := by
  induction sent with
  | nil => rfl
  | cons batch sent ih =>
    have htail : batches ((batch :: sent).map .batch) = batch :: batches (sent.map .batch) := rfl
    rw [htail, ih]

theorem offered_map (sent : List Batch) : offered (sent.map .batch) = [] := by
  induction sent with
  | nil => rfl
  | cons batch sent ih => exact ih

theorem accepted_map (sent : List Batch) : accepted (sent.map .batch) = [] := by
  induction sent with
  | nil => rfl
  | cons batch sent ih => exact ih

/-- The counter does not run over its end when room is taken. -/
theorem atomicAdd_eq {counter size : ℕ} (h : counter + size < 2 ^ 64) :
    atomicAdd counter size = counter + size := Nat.mod_eq_of_lt h

/-- The counter does not run below zero when room is given back. -/
theorem atomicSub_eq {counter size : ℕ} (hle : size ≤ counter) (h : counter < 2 ^ 64) :
    atomicSub counter size = counter - size := by
  have hsize : size % 2 ^ 64 = size := Nat.mod_eq_of_lt (hle.trans_lt h)
  have hshift : counter + (2 ^ 64 - size) = counter - size + 2 ^ 64 := by omega
  unfold atomicSub
  rw [hsize, hshift, Nat.add_mod_right, Nat.mod_eq_of_lt (by omega)]

end Runs

section Steps

variable {log next : Log} {action : Action} {actions : List Action} {events : List Event}

theorem pendingBytes_lt {pending : ℕ} (h : pending ≤ pendingBytes + batchBytes + batchBytes) :
    pending < 2 ^ 64 := h.trans_lt (by decide)

/-- Handling a message takes up its bytes. -/
theorem handle_sends {state : LogState} {message : LogMessage} (h : state.buffer.length < batchBytes)
    (hsize : message.bytes.length ≤ batchBytes) :
    Sends state (state.handle message).1 (state.handle message).2 message.bytes ∧
      (state.handle message).1.buffer.length < batchBytes := by
  have hempty : ([] : List UInt8).length < batchBytes :=
    Nat.lt_of_lt_of_le Nat.zero_lt_one (by decide)
  cases message with
  | output chunk => exact addChunk_sends h hsize
  | flush =>
    have hsends : Sends { state with timer := false } _ _ [] :=
      sendBatch_sends (show ({ state with timer := false } : LogState).buffer.length ≤ _ from h.le)
    refine ⟨⟨hsends.sequence, hsends.numbered, hsends.outputs, hsends.sized⟩, ?_⟩
    unfold LogState.handle
    rw [sendBatch_buffer]
    exact hempty
  | call =>
    refine ⟨sendBatch_sends h.le, ?_⟩
    unfold LogState.handle
    rw [sendBatch_buffer]
    exact hempty

theorem Log.Ok.pending_le (h : log.Ok) : log.pending ≤ pendingBytes + batchBytes := by
  have hpending := h.pending
  have hunprocessed := h.unprocessed
  have hrefused := h.refused
  omega

theorem output_follows {line : List UInt8} (h : log.Ok)
    (hstep : log.step (.output line) = some (next, events)) :
    next.Ok ∧ Follows log next [.output line] events := by
  simp only [Log.step, Option.ite_none_right_eq_some, Option.some.injEq, Prod.mk.injEq] at hstep
  obtain ⟨⟨htodo, -⟩, rfl, rfl⟩ := hstep
  refine ⟨{ h with todo := ⟨_, rfl⟩ }, { Follows.refl log with offers := ?_ }⟩
  rw [htodo, chunksOf_nil]
  exact (List.append_nil _).symm

theorem reserve_follows (h : log.Ok) (hstep : log.step .reserve = some (next, events)) :
    next.Ok ∧ Follows log next [.reserve] events := by
  simp only [Log.step, Option.ite_none_right_eq_some] at hstep
  obtain ⟨⟨htodo, hnone⟩, hstep⟩ := hstep
  obtain ⟨text, htext⟩ := h.todo
  rw [htext] at htodo hstep
  obtain ⟨front, behind, -, hchunk, htake, hchunks⟩ := chunksOf_cons htodo
  rw [htake, Option.map_some, Option.some.injEq] at hstep
  have hpending := h.pending
  have hle := h.pending_le
  have hsize := hchunk.length_le
  rw [hnone, refusedBytes_none, List.length_nil, Nat.add_zero] at hpending
  have hadd : atomicAdd log.pending (encode front).length = log.pending + (encode front).length :=
    atomicAdd_eq (pendingBytes_lt (by omega))
  have hflight : log.inFlight = log.mailbox.flatMap LogMessage.bytes := by
    unfold Log.inFlight
    rw [hnone, acceptedBytes_none, List.append_nil]
  have hunprocessed : log.unprocessed =
      (log.mailbox.flatMap LogMessage.bytes).length + log.working.getD 0 := by
    unfold Log.unprocessed
    rw [hflight]
  have hoffers : [encode front] ++ chunksOf (encode behind) = chunksOf log.todo ++ [] := by
    rw [htext, hchunks, List.append_nil, List.singleton_append]
  simp only [hadd] at hstep
  split at hstep
  · rename_i hroom
    simp only [Prod.mk.injEq] at hstep
    obtain ⟨rfl, rfl⟩ := hstep
    have hmore : (log.mailbox.flatMap LogMessage.bytes ++ encode front).length +
        log.working.getD 0 = log.pending + (encode front).length := by
      rw [List.length_append]
      omega
    constructor
    · exact {
        todo := ⟨behind, rfl⟩
        refused := Nat.zero_le _
        sized := h.sized
        pending := hmore.symm
        unprocessed := hmore.trans_le hroom
        buffer := h.buffer
        accepted := hsize }
    · exact {
        offers := hoffers
        chunks := List.forall_mem_singleton.mpr hchunk
        outputs := by
          have hlast : accepted [.chunk true (encode front)] = [encode front] := rfl
          rw [hflight, hlast, List.flatten_singleton, List.append_assoc]
          rfl
        sequence := rfl
        numbered := rfl
        sized := fun _ hbatch => nomatch hbatch }
  · simp only [Prod.mk.injEq] at hstep
    obtain ⟨rfl, rfl⟩ := hstep
    have hsame : (log.mailbox.flatMap LogMessage.bytes ++ []).length + log.working.getD 0 =
        log.pending := by
      rw [List.append_nil]
      omega
    constructor
    · exact {
        todo := ⟨behind, rfl⟩
        refused := hsize
        sized := h.sized
        pending := congrArg (· + (encode front).length) hsame.symm
        unprocessed := by
          have hbound := h.unprocessed
          exact hsame.trans_le (by omega)
        buffer := h.buffer
        accepted := Nat.zero_le _ }
    · exact {
        offers := hoffers
        chunks := List.forall_mem_singleton.mpr hchunk
        outputs := by
          have hlast : accepted [.chunk false (encode front)] = [] := rfl
          rw [hflight, hlast, List.flatten_nil, List.append_nil]
          exact congrArg (log.state.buffer ++ ·) (List.append_nil _)
        sequence := rfl
        numbered := rfl
        sized := fun _ hbatch => nomatch hbatch }

theorem conclude_follows (h : log.Ok) (hstep : log.step .conclude = some (next, events)) :
    next.Ok ∧ Follows log next [.conclude] events := by
  have hpending := h.pending
  have hunprocessed := h.unprocessed
  unfold Log.step at hstep
  cases hreservation : log.reservation with
  | none =>
    simp only [hreservation] at hstep
    cases hstep
  | accepted chunk =>
    simp only [hreservation, Option.some.injEq, Prod.mk.injEq] at hstep
    obtain ⟨rfl, rfl⟩ := hstep
    have hsize := h.accepted
    rw [hreservation] at hsize
    have hflight : (log.mailbox ++ [LogMessage.output chunk]).flatMap LogMessage.bytes ++ [] =
        log.inFlight := by
      unfold Log.inFlight
      rw [List.flatMap_append, List.flatMap_singleton, List.append_nil, hreservation]
      rfl
    have hsame : ((log.mailbox ++ [LogMessage.output chunk]).flatMap LogMessage.bytes ++ []).length +
        log.working.getD 0 = log.unprocessed := by rw [hflight, Log.unprocessed]
    constructor
    · exact {
        todo := h.todo
        refused := Nat.zero_le _
        sized := List.forall_mem_append.mpr ⟨h.sized, List.forall_mem_singleton.mpr hsize⟩
        pending := by
          rw [hreservation] at hpending
          exact hpending.trans hsame.symm
        unprocessed := hsame.trans_le hunprocessed
        buffer := h.buffer
        accepted := Nat.zero_le _ }
    · exact .quiet rfl rfl rfl hflight
  | refused chunk =>
    simp only [hreservation, Option.some.injEq, Prod.mk.injEq] at hstep
    obtain ⟨rfl, rfl⟩ := hstep
    have hle := h.pending_le
    rw [hreservation, Reservation.refusedBytes] at hpending
    have hsub : atomicSub log.pending chunk.length = log.pending - chunk.length :=
      atomicSub_eq (by omega) (pendingBytes_lt (by omega))
    have hflight : log.mailbox.flatMap LogMessage.bytes ++ [] = log.inFlight := by
      unfold Log.inFlight
      rw [hreservation]
      rfl
    have hsame : (log.mailbox.flatMap LogMessage.bytes ++ []).length + log.working.getD 0 =
        log.unprocessed := by rw [hflight, Log.unprocessed]
    constructor
    · exact {
        todo := h.todo
        refused := Nat.zero_le _
        sized := h.sized
        pending := by
          have hback : atomicSub log.pending chunk.length = log.unprocessed := by omega
          exact hback.trans hsame.symm
        unprocessed := hsame.trans_le hunprocessed
        buffer := h.buffer
        accepted := Nat.zero_le _ }
    · exact .quiet rfl rfl rfl hflight

/-- A message without bytes is put behind the others. -/
theorem inFlight_push {message : LogMessage} (hmessage : message.bytes = []) :
    (log.mailbox ++ [message]).flatMap LogMessage.bytes ++ log.reservation.acceptedBytes =
      log.inFlight := by
  unfold Log.inFlight
  rw [List.flatMap_append, List.flatMap_singleton, hmessage, List.append_nil]

theorem Log.Ok.push {message : LogMessage} {armed : Bool} (h : log.Ok)
    (hmessage : message.bytes = []) :
    Log.Ok { log with armed := armed, mailbox := log.mailbox ++ [message] } := by
  have hsame : ((log.mailbox ++ [message]).flatMap LogMessage.bytes ++
      log.reservation.acceptedBytes).length + log.working.getD 0 = log.unprocessed := by
    rw [inFlight_push hmessage, Log.unprocessed]
  exact {
    todo := h.todo
    refused := h.refused
    sized := by
      refine List.forall_mem_append.mpr ⟨h.sized, List.forall_mem_singleton.mpr ?_⟩
      rw [hmessage]
      exact Nat.zero_le _
    pending := h.pending.trans (congrArg (· + _) hsame.symm)
    unprocessed := hsame.trans_le h.unprocessed
    buffer := h.buffer
    accepted := h.accepted }

theorem handle_follows (h : log.Ok) (hstep : log.step .handle = some (next, events)) :
    next.Ok ∧ Follows log next [.handle] events := by
  unfold Log.step at hstep
  cases hworking : log.working with
  | some size =>
    simp only [hworking] at hstep
    cases hstep
  | none =>
    cases hmailbox : log.mailbox with
    | nil =>
      simp only [hworking, hmailbox] at hstep
      cases hstep
    | cons message rest =>
      simp only [hworking, hmailbox, Option.some.injEq, Prod.mk.injEq] at hstep
      obtain ⟨rfl, rfl⟩ := hstep
      have hsized := h.sized
      rw [hmailbox, List.forall_mem_cons] at hsized
      obtain ⟨hsends, hbuffer⟩ := handle_sends h.buffer hsized.1
      have hflight : log.inFlight = message.bytes ++
          (rest.flatMap LogMessage.bytes ++ log.reservation.acceptedBytes) := by
        unfold Log.inFlight
        rw [hmailbox, List.flatMap_cons, List.append_assoc]
      -- the bytes of the message are those that are worked on
      have hbytes : message.size?.getD 0 = message.bytes.length := by
        cases message with
        | output chunk => rfl
        | flush => rfl
        | call => rfl
      have hsame : (rest.flatMap LogMessage.bytes ++ log.reservation.acceptedBytes).length +
          message.size?.getD 0 = log.unprocessed := by
        have hlength := congrArg List.length hflight
        rw [List.length_append] at hlength
        unfold Log.unprocessed
        rw [hlength, hworking, hbytes, Option.getD_none]
        omega
      constructor
      · exact {
          todo := h.todo
          refused := h.refused
          sized := hsized.2
          pending := h.pending.trans (congrArg (· + _) hsame.symm)
          unprocessed := hsame.trans_le h.unprocessed
          buffer := hbuffer
          accepted := h.accepted }
      · exact {
          offers := by
            rw [offered_map]
            exact (List.append_nil _).symm
          chunks := by
            rw [offered_map]
            exact fun _ hchunk => nomatch hchunk
          outputs := by
            rw [batches_map, accepted_map, ← List.append_assoc, hsends.outputs, hflight,
              List.flatten_nil, List.append_nil, List.append_assoc]
            rfl
          sequence := by
            rw [batches_map]
            exact hsends.sequence
          numbered := by
            rw [batches_map]
            exact hsends.numbered
          sized := by
            rw [batches_map]
            exact hsends.sized }

theorem release_follows (h : log.Ok) (hstep : log.step .release = some (next, events)) :
    next.Ok ∧ Follows log next [.release] events := by
  have hpending := h.pending
  have hbound := h.unprocessed
  have hle := h.pending_le
  unfold Log.step at hstep
  cases hworking : log.working with
  | none =>
    simp only [hworking] at hstep
    cases hstep
  | some size =>
    simp only [hworking, Option.some.injEq, Prod.mk.injEq] at hstep
    obtain ⟨rfl, rfl⟩ := hstep
    have hunprocessed : log.unprocessed = log.inFlight.length + size := by
      unfold Log.unprocessed
      rw [hworking, Option.getD_some]
    have hsub : atomicSub log.pending size = log.pending - size :=
      atomicSub_eq (by omega) (pendingBytes_lt (by omega))
    constructor
    · exact {
        todo := h.todo
        refused := h.refused
        sized := h.sized
        pending := by
          have hback : atomicSub log.pending size =
              log.inFlight.length + log.reservation.refusedBytes.length := by omega
          exact hback
        unprocessed := by
          have hrest : log.inFlight.length ≤ pendingBytes := by omega
          exact hrest
        buffer := h.buffer
        accepted := h.accepted }
    · exact .quiet rfl rfl rfl rfl

/-- What one step does. -/
theorem step_follows (h : log.Ok) (hstep : log.step action = some (next, events)) :
    next.Ok ∧ Follows log next [action] events := by
  cases action with
  | output line => exact output_follows h hstep
  | reserve => exact reserve_follows h hstep
  | conclude => exact conclude_follows h hstep
  | expire =>
    simp only [Log.step, Option.ite_none_right_eq_some, Option.some.injEq, Prod.mk.injEq] at hstep
    obtain ⟨-, rfl, rfl⟩ := hstep
    exact ⟨h.push rfl, .quiet rfl rfl rfl (inFlight_push rfl)⟩
  | flush =>
    simp only [Log.step, Option.some.injEq, Prod.mk.injEq] at hstep
    obtain ⟨rfl, rfl⟩ := hstep
    exact ⟨h.push rfl, .quiet rfl rfl rfl (inFlight_push rfl)⟩
  | handle => exact handle_follows h hstep
  | release => exact release_follows h hstep

/-- What a run does. -/
theorem run_follows (h : log.Ok) (hrun : log.run actions = some (next, events)) :
    next.Ok ∧ Follows log next actions events := by
  induction actions generalizing log events with
  | nil =>
    simp only [Log.run, Option.some.injEq, Prod.mk.injEq] at hrun
    obtain ⟨rfl, rfl⟩ := hrun
    exact ⟨h, .refl log⟩
  | cons action actions ih =>
    rw [Log.run] at hrun
    obtain ⟨⟨mid, first⟩, hstep, hrest⟩ := Option.bind_eq_some_iff.mp hrun
    obtain ⟨⟨last, later⟩, hlater, hlast⟩ := Option.map_eq_some_iff.mp hrest
    simp only [Prod.mk.injEq] at hlast
    obtain ⟨rfl, rfl⟩ := hlast
    obtain ⟨hmid, hfirst⟩ := step_follows h hstep
    obtain ⟨hok, hfollows⟩ := ih hmid hlater
    exact ⟨hok, hfirst.append hfollows⟩

theorem start_ok (deploymentSid seedSid : Sid) : (Log.start deploymentSid seedSid).Ok where
  todo := ⟨[], rfl⟩
  refused := Nat.zero_le _
  sized := fun _ hmessage => nomatch hmessage
  pending := rfl
  unprocessed := Nat.zero_le _
  buffer := Nat.lt_of_lt_of_le Nat.zero_lt_one (by decide)
  accepted := Nat.zero_le _

/-- Room can be asked for as long as something is left to enqueue. -/
theorem reserve_isSome (h : log.Ok) (htodo : log.todo ≠ []) (hnone : log.reservation = .none) :
    (log.step .reserve).isSome := by
  obtain ⟨text, htext⟩ := h.todo
  have hne : encode text ≠ [] := htext ▸ htodo
  obtain ⟨front, behind, -, -, htake⟩ := takeChunk_encode hne
  unfold Log.step
  rw [if_pos ⟨htodo, hnone⟩, htext, htake]
  rfl

variable {deploymentSid seedSid : Sid}

/-- Every line is cut to an end into chunks of valid UTF-8. In every run what is offered is
the lines' chunks, the room that is taken stays below its bound and is what the counter says,
the batches are numbered from one, and they are what was accepted. -/
theorem log_exact :
    (∀ line, chunks (sanitize line).length (sanitize line) = some (chunksOf (sanitize line)) ∧
      (chunksOf (sanitize line)).flatten = sanitize line ∧
      ∀ chunk ∈ chunksOf (sanitize line),
        chunk ≠ [] ∧ Valid chunk ∧ chunk.length ≤ batchBytes) ∧
    ∀ actions log events, (Log.start deploymentSid seedSid).run actions = some (log, events) →
      offered events ++ chunksOf log.todo =
        (outputLines actions).flatMap (fun line => chunksOf (sanitize line)) ∧
      (log.todo ≠ [] → log.reservation = .none → (log.step .reserve).isSome) ∧
      log.unprocessed ≤ pendingBytes ∧
      log.pending = log.unprocessed + log.reservation.refusedBytes.length ∧
      (∀ batch ∈ batches events, batch.output.length ≤ batchBytes) ∧
      (batches events).map Batch.sequence = List.range' 1 (batches events).length ∧
      (batches events).flatMap Batch.output ++ (log.state.buffer ++ log.inFlight) =
        (accepted events).flatten := by
  constructor
  · intro line
    obtain ⟨parts, hparts, hflatten, hall⟩ := chunks_encode (le_refl (sanitize line).length)
    have hof : chunksOf (sanitize line) = parts := by
      exact congrArg (Option.getD · []) hparts
    rw [hof]
    exact ⟨hparts, hflatten, fun chunk hchunk =>
      ⟨(hall chunk hchunk).nonempty, (hall chunk hchunk).valid, (hall chunk hchunk).length_le⟩⟩
  · intro actions log events hrun
    obtain ⟨hok, hfollows⟩ := run_follows (start_ok deploymentSid seedSid) hrun
    exact ⟨hfollows.offers, reserve_isSome hok, hok.unprocessed, hok.pending,
      fun batch hbatch => (hfollows.sized batch hbatch).2, hfollows.numbered, hfollows.outputs⟩

/-- A letter is sent with its newline. -/
theorem sanitize_letter : sanitize [97] = [97, 10] := by
  have hdecode : ([97] : List UInt8).toByteArray.utf8DecodeChar? 0 = some 'a' := by decide
  have hsize : 'a'.utf8Size = 1 := by decide
  have hreplace : replaceInvalid [97] = ['a'] := by
    rw [replaceInvalid, hdecode]
    simp [replaceInvalid, hsize]
  have hstrip : stripEscapes ['a'] = ['a'] := by simp [stripEscapes, escape]
  unfold sanitize
  rw [hreplace, hstrip]
  decide

/-- The log enqueues a letter, takes it up and is flushed. -/
theorem log_exact_letter : ∃ log events,
    (Log.start 1 2).run [.output [97], .reserve, .conclude, .handle, .release, .flush, .handle] =
      some (log, events) ∧
    batches events = [⟨1, 2, 1, [97, 10]⟩] ∧
    (batches events).flatMap Batch.output ++ (log.state.buffer ++ log.inFlight) =
      (accepted events).flatten := by
  have hline : (Log.start 1 2).step (.output [97]) =
      some ({ Log.start 1 2 with todo := [97, 10] }, []) := by
    simp only [Log.step, sanitize_letter]
    rfl
  have hrun : (Log.start 1 2).run
      [.output [97], .reserve, .conclude, .handle, .release, .flush, .handle] =
        some ({ state := ⟨1, 2, 1, [], true⟩, armed := true },
          [.chunk true [97, 10], .batch ⟨1, 2, 1, [97, 10]⟩]) := by
    rw [Log.run, hline]
    rfl
  exact ⟨_, _, hrun, rfl, (log_exact.2 _ _ _ hrun).2.2.2.2.2.2⟩

end Steps

end Sower.Garden.DeploymentLog
