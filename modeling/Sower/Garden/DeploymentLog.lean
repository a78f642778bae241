import Mathlib.Algebra.GroupWithZero.Nat
import Sower.Lib.Utf8
import Sower.Wire

/-!
# The log of a seed's deployment on the garden

The output of a command is cut into chunks that end between characters. A chunk is handed
to the log's process if there is room for it, and dropped otherwise; the room is a counter
that both processes change. The log's process collects chunks into batches, numbers the
batches and sends them.
-/

namespace Sower.Garden.DeploymentLog

open Utf8 Sower.Wire

section Lines

/-- `@batch_bytes`. -/
def batchBytes : ℕ := 16384

/-- `@pending_bytes`. -/
def pendingBytes : ℕ := 65536

/-- What follows `[0-9;]*[a-zA-Z]`, if the text begins with it. -/
def escapeEnd : List Char → Option (List Char)
  | [] => none
  | c :: rest =>
    if c.isDigit || c == ';' then escapeEnd rest
    else if c.isAlpha then some rest
    else none

theorem length_escapeEnd {text rest : List Char} (h : escapeEnd text = some rest) :
    rest.length < text.length := by
  induction text with
  | nil => cases h
  | cons c text ih =>
    unfold escapeEnd at h
    rw [List.length_cons]
    split at h
    · exact (ih h).trans (Nat.lt_succ_self _)
    · split at h
      · cases h
        exact Nat.lt_succ_self _
      · cases h

/-- The text behind the escape sequence that it begins with, if it does. -/
def escape : List Char → Option (List Char)
  | c :: '[' :: sequence => if c = Char.ofNat 0x1B then escapeEnd sequence else none
  | _ => none

theorem length_escape {text rest : List Char} (h : escape text = some rest) :
    rest.length < text.length := by
  unfold escape at h
  split at h
  · split at h
    · have hlength := length_escapeEnd h
      simp only [List.length_cons]
      omega
    · cases h
  · cases h

/-- The text without `\x1b\[[0-9;]*[a-zA-Z]`. -/
def stripEscapes : List Char → List Char
  | [] => []
  | c :: text =>
    match _hescape : escape (c :: text) with
    | some rest => stripEscapes rest
    | none => c :: stripEscapes text
termination_by text => text.length
decreasing_by
  · exact length_escape _hescape
  · exact Nat.lt_succ_self _

/-- What `output` enqueues for a line: valid UTF-8, with its newline. -/
def sanitize (line : List UInt8) : List UInt8 :=
  encode (stripEscapes (replaceInvalid line) ++ ['\n'])

end Lines

section Chunks

/-- `boundary`: the last position up to `size` where the output may be cut. Nothing when
`:binary.at` is asked for a byte that is not there. -/
def boundary (output : List UInt8) : ℕ → Option ℕ
  | 0 =>
    if output.length = 0 then some 0
    else
      match output[0]? with
      | none => none
      | some b => if isContinuation b then none else some 0
  | size + 1 =>
    if size + 1 = output.length then some (size + 1)
    else
      match output[size + 1]? with
      | none => none
      | some b => if isContinuation b then boundary output size else some (size + 1)

/-- The first chunk of the output, and the rest. -/
def takeChunk (output : List UInt8) : Option (List UInt8 × List UInt8) :=
  (boundary output (min output.length batchBytes)).map fun size =>
    (output.take size, output.drop size)

/-- All chunks, one call of `enqueue` after the other. Nothing when the calls do not come
to an end in time. -/
def chunks : ℕ → List UInt8 → Option (List (List UInt8))
  | _, [] => some []
  | 0, _ :: _ => none
  | fuel + 1, b :: output =>
    (takeChunk (b :: output)).bind fun (chunk, rest) => (chunks fuel rest).map (chunk :: ·)

end Chunks

section Processes

/-- `SeedDeploymentLog`. -/
structure Batch where
  deploymentSid : Sid
  seedSid : Sid
  sequence : ℕ
  output : List UInt8
  deriving DecidableEq, Repr

/-- Messages to the log's process. -/
inductive LogMessage where
  | output (chunk : List UInt8)
  /-- The timer has run out. -/
  | flush
  /-- Somebody asks for a flush and waits. -/
  | call
  deriving DecidableEq, Repr

/-- Size of the room that is given back for a message. -/
def LogMessage.size? : LogMessage → Option ℕ
  | .output chunk => some chunk.length
  | _ => none

/-- State of the log's process. -/
structure LogState where
  deploymentSid : Sid
  seedSid : Sid
  sequence : ℕ := 0
  buffer : List UInt8 := []
  /-- It has set a timer whose message it has not handled. -/
  timer : Bool := false
  deriving DecidableEq, Repr

/-- `send_batch`. -/
def LogState.sendBatch (state : LogState) : LogState × List Batch :=
  if state.buffer = [] then (state, [])
  else
    ({ state with sequence := state.sequence + 1, buffer := [] },
      [⟨state.deploymentSid, state.seedSid, state.sequence + 1, state.buffer⟩])

/-- A batch is sent if the condition holds. -/
def LogState.sendIf (state : LogState) (condition : Bool) : LogState × List Batch :=
  if condition then state.sendBatch else (state, [])

/-- `handle_info({:output, chunk}, state)`, up to the change of the counter. -/
def LogState.addChunk (state : LogState) (chunk : List UInt8) : LogState × List Batch :=
  let (state, full) := state.sendIf (batchBytes < state.buffer.length + chunk.length)
  let state := { state with buffer := state.buffer ++ chunk }
  let (state, exact) := state.sendIf (state.buffer.length = batchBytes)
  let state := if state.buffer ≠ [] ∧ state.timer = false then { state with timer := true } else state
  (state, full ++ exact)

/-- `handle_info` and `handle_call`. -/
def LogState.handle (state : LogState) : LogMessage → LogState × List Batch
  | .output chunk => state.addChunk chunk
  | .flush => { state with timer := false }.sendBatch
  | .call => state.sendBatch

/-- `:atomics.add_get` on an unsigned counter of 64 bits. -/
def atomicAdd (counter size : ℕ) : ℕ := (counter + size) % 2 ^ 64

/-- `:atomics.sub`. -/
def atomicSub (counter size : ℕ) : ℕ := (counter + (2 ^ 64 - size % 2 ^ 64)) % 2 ^ 64

/-- A reservation that `enqueue` has made and not acted upon. -/
inductive Reservation where
  | none
  | accepted (chunk : List UInt8)
  | refused (chunk : List UInt8)
  deriving DecidableEq, Repr

/-- The log with both processes. -/
structure Log where
  /-- Bytes that are reserved. -/
  pending : ℕ := 0
  /-- What the command's process has still to enqueue. -/
  todo : List UInt8 := []
  reservation : Reservation := .none
  mailbox : List LogMessage := []
  /-- The timer runs. -/
  armed : Bool := false
  /-- Size of the chunk that the log's process handles. -/
  working : Option ℕ := none
  state : LogState
  deriving DecidableEq, Repr

/-- What happens to the log. -/
inductive Action where
  /-- The command writes a line. -/
  | output (line : List UInt8)
  /-- `enqueue` reserves room for the next chunk. -/
  | reserve
  /-- It sends the chunk, or gives the room back. -/
  | conclude
  /-- The timer runs out. -/
  | expire
  /-- `flush`. -/
  | flush
  /-- The log's process handles a message, all but the counter. -/
  | handle
  /-- It gives back the room of the chunk it has handled. -/
  | release
  deriving DecidableEq, Repr

/-- What can be seen of a run. -/
inductive Event where
  /-- A chunk for which there was room or not. -/
  | chunk (accepted : Bool) (bytes : List UInt8)
  | batch (batch : Batch)
  deriving DecidableEq, Repr

/-- One step; nothing when it is not the action's turn, or the process that takes it
crashes. -/
def Log.step (log : Log) : Action → Option (Log × List Event)
  | .output line =>
    if log.todo = [] ∧ log.reservation = .none then
      some ({ log with todo := sanitize line }, [])
    else none
  | .reserve =>
    if log.todo ≠ [] ∧ log.reservation = .none then
      (takeChunk log.todo).map fun (chunk, rest) =>
        let pending := atomicAdd log.pending chunk.length
        if pending ≤ pendingBytes then
          ({ log with pending, todo := rest, reservation := .accepted chunk }, [.chunk true chunk])
        else
          ({ log with pending, todo := rest, reservation := .refused chunk }, [.chunk false chunk])
    else none
  | .conclude =>
    match log.reservation with
    | .none => none
    | .accepted chunk =>
      some ({ log with reservation := .none, mailbox := log.mailbox ++ [.output chunk] }, [])
    | .refused chunk =>
      some ({ log with reservation := .none, pending := atomicSub log.pending chunk.length }, [])
  | .expire =>
    if log.armed then
      some ({ log with armed := false, mailbox := log.mailbox ++ [.flush] }, [])
    else none
  | .flush => some ({ log with mailbox := log.mailbox ++ [.call] }, [])
  | .handle =>
    match log.working, log.mailbox with
    | none, message :: rest =>
      let (state, batches) := log.state.handle message
      some ({ log with
        mailbox := rest
        state := state
        armed := log.armed || (state.timer && !log.state.timer)
        working := message.size? }, batches.map .batch)
    | _, _ => none
  | .release =>
    match log.working with
    | none => none
    | some size => some ({ log with working := none, pending := atomicSub log.pending size }, [])

/-- A run from a log. -/
def Log.run (log : Log) : List Action → Option (Log × List Event)
  | [] => some (log, [])
  | action :: actions =>
    (log.step action).bind fun (next, events) =>
      (next.run actions).map fun (last, later) => (last, events ++ later)

/-- `start`. -/
def Log.start (deploymentSid seedSid : Sid) : Log := { state := { deploymentSid, seedSid } }

end Processes

end Sower.Garden.DeploymentLog
