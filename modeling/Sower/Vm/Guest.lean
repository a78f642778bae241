import Sower.Lib.Incremental
import Sower.Lib.Stateful
import Sower.Vm.Frames

/-!
# The command loop of the guest

The guest serves one command at a time. One loop interleaves the control channel
from the host, the frames to the host and the pipes of the process; none of them
blocks, so every read and write may move fewer bytes than it was given. Offsets
kept by hand say how far a control frame has been read and how far an output frame
has been written; the buffers behind them are used again for the next frame.

The answers of the system calls come from the environment. What the process prints
is given in advance, and a pipe delivers it in any pieces.
-/

namespace Sower.Vm.GuestLoop

open Framing Incremental Stateful Protocol

section Calls

/-- Bytes that are read from a pipe at once. -/
def chunk : ℕ := 8192

/-- Errors that end the loop. -/
inductive IoError where
  /-- Some call of the system failed. -/
  | failed
  | invalid (message : String)
  | json
  | writeZero
  | timedOut
  | statusLost
  | unexpectedEof
  | lockPoisoned
  | previouslyFailed
  deriving DecidableEq, Repr

/-- Why a run stops. -/
inductive Stop where
  /-- The environment has not answered yet. -/
  | waiting
  | error (error : IoError)
  | panicked
  deriving DecidableEq, Repr

/-- What a system call returns. -/
inductive Answer where
  /-- A transfer of that many bytes, as far as there are any and the buffer has room. -/
  | moved (n : ℕ)
  | interrupted
  | wouldBlock
  | brokenPipe
  | failed
  /-- A child was reaped. -/
  | child (root : Bool) (status : ExitStatus)
  /-- There are children, and none has ended. -/
  | noneReady
  /-- There is no child left. -/
  | noChildren
  /-- The deadline has passed. -/
  | late
  deriving DecidableEq, Repr

/-- Outcome of a read; no bytes are the end of the stream. -/
inductive Reading where
  | data (bytes : List UInt8)
  | interrupted
  | wouldBlock
  | failed
  deriving DecidableEq, Repr

/-- Read into a buffer that is not empty. Where bytes are available a read returns some. -/
def reading (size : ℕ) (available : List UInt8) : Answer → Reading
  | .moved n => .data (available.take (min (max n 1) size))
  | .interrupted => .interrupted
  | .wouldBlock => .wouldBlock
  | _ => .failed

/-- Outcome of a write. -/
inductive Writing where
  | moved (n : ℕ)
  | interrupted
  | wouldBlock
  | brokenPipe
  | failed
  deriving DecidableEq, Repr

def writing (size : ℕ) : Answer → Writing
  | .moved n => .moved (min n size)
  | .interrupted => .interrupted
  | .wouldBlock => .wouldBlock
  | .brokenPipe => .brokenPipe
  | _ => .failed

/-- `serde_json`: the writer, and the reader with none as its error. -/
structure Serde where
  toVec : Json → List UInt8
  fromSlice : List UInt8 → Option Json

/-- Indexing a value; a missing field reads as null. -/
def index : Json → String → Json
  | .object fields, key => (fields.lookup key).getD .null
  | _, _ => .null

end Calls

section Buffers

/-- Write data into a buffer of fixed size. -/
def overwrite (bytes : List UInt8) (offset : ℕ) (data : List UInt8) : List UInt8 :=
  bytes.take offset ++ data.take (bytes.length - offset) ++ bytes.drop (offset + data.length)

@[simp] theorem length_overwrite (bytes : List UInt8) (offset : ℕ) (data : List UInt8) :
    (overwrite bytes offset data).length = bytes.length := by
  unfold overwrite
  simp only [List.length_append, List.length_take, List.length_drop]
  omega

/-- The data stand behind what was there up to the offset. -/
theorem take_overwrite {bytes data : List UInt8} {offset : ℕ}
    (h : offset + data.length ≤ bytes.length) :
    (overwrite bytes offset data).take (offset + data.length) = bytes.take offset ++ data := by
  have hdata : data.take (bytes.length - offset) = data := List.take_of_length_le (by omega)
  have hfront : (bytes.take offset ++ data).length = offset + data.length := by
    rw [List.length_append, List.length_take]
    omega
  unfold overwrite
  rw [hdata, ← hfront, List.take_left]

/-- What stands behind the data stays. -/
theorem drop_overwrite {bytes data : List UInt8} {offset : ℕ}
    (h : offset + data.length ≤ bytes.length) :
    (overwrite bytes offset data).drop (offset + data.length) =
      bytes.drop (offset + data.length) := by
  have hdata : data.take (bytes.length - offset) = data := List.take_of_length_le (by omega)
  have hfront : (bytes.take offset ++ data).length = offset + data.length := by
    rw [List.length_append, List.length_take]
    omega
  unfold overwrite
  rw [hdata]
  nth_rewrite 1 [← hfront]
  rw [List.drop_left]

/-- `Vec::resize` with zeros. -/
def resize (bytes : List UInt8) (length : ℕ) : List UInt8 :=
  bytes.take length ++ List.replicate (length - bytes.length) 0

@[simp] theorem length_resize (bytes : List UInt8) (length : ℕ) :
    (resize bytes length).length = length := by
  unfold resize
  simp only [List.length_append, List.length_take, List.length_replicate]
  omega

end Buffers

section Control

theorem length_blankHeader : (List.replicate 5 0 : List UInt8).length = 5 := rfl

/-- How far the current control frame has been read. -/
structure Control where
  header : List UInt8 := List.replicate 5 0
  headerSize : header.length = 5 := by exact length_blankHeader
  headerLength : ℕ := 0
  body : List UInt8 := []
  bodyLength : ℕ := 0

inductive ControlEvent where
  | pending
  | cancel
  | disconnected
  deriving DecidableEq, Repr

/-- Room in the part of the buffer that is read next. -/
def Control.room (c : Control) : ℕ :=
  if c.headerLength < 5 then 5 - c.headerLength else c.body.length - c.bodyLength

/-- A body that cancels the command. -/
def checkCancel (serde : Serde) (version : Version) (body : List UInt8) : Except IoError Unit :=
  match serde.fromSlice body with
  | none => .error .json
  | some cancel =>
    if version ≠ .two ∨ (index cancel "type").string? ≠ some "cancel" ∨
        (index cancel "version").int? ≠ some 2 then
      .error (.invalid "expected cancel request version 2")
    else .ok ()

/-- What `Control::read` does with bytes it has read: whether a cancel frame is complete. -/
def Control.receive (serde : Serde) (version : Version) (c : Control) (data : List UInt8) :
    Except IoError (Control × Bool) :=
  if c.headerLength < 5 then
    let header := overwrite c.header c.headerLength data
    let headerLength := c.headerLength + data.length
    have headerSize : header.length = 5 := (length_overwrite _ _ _).trans c.headerSize
    if headerLength = 5 then
      match header? header with
      | none => .error .failed
      | some (kind, length, _) =>
        if kind ≠ 1 ∨ length = 0 ∨ maxFrame < length then
          .error (.invalid "expected bounded cancel metadata frame")
        else .ok (⟨header, headerSize, headerLength, resize c.body length, c.bodyLength⟩, false)
    else .ok (⟨header, headerSize, headerLength, c.body, c.bodyLength⟩, false)
  else
    let body := overwrite c.body c.bodyLength data
    let bodyLength := c.bodyLength + data.length
    if bodyLength = body.length then
      match checkCancel serde version body with
      | .error error => .error error
      | .ok () => .ok (⟨c.header, c.headerSize, 0, body, 0⟩, true)
    else .ok (⟨c.header, c.headerSize, c.headerLength, body, bodyLength⟩, false)

end Control

section State

theorem length_blankFrame : (List.replicate (chunk + 5) 0 : List UInt8).length = chunk + 5 :=
  List.length_replicate

/-- The one output frame that is buffered, and how far it has been written. -/
structure Output where
  bytes : List UInt8 := List.replicate (chunk + 5) 0
  size : bytes.length = chunk + 5 := by exact length_blankFrame
  length : ℕ := 0
  sent : ℕ := 0

/-- `header`: complete the frame whose payload stands in the buffer. -/
def Output.header (output : Output) (kind : UInt8) (length : ℕ) : Output where
  bytes := overwrite output.bytes 0 (kind :: be32 length)
  size := (length_overwrite _ _ _).trans output.size
  length := length + 5
  sent := output.sent

/-- Put a payload behind the place of the header. -/
def Output.payload (output : Output) (data : List UInt8) : Output where
  bytes := overwrite output.bytes 5 data
  size := (length_overwrite _ _ _).trans output.size
  length := output.length
  sent := output.sent

/-- The root process and its descendants. -/
structure CommandTree where
  status : Option ExitStatus := none
  /-- The system has reported that no child is left. -/
  clean : Bool := false

/-- Results of `wait_child`. -/
inductive Waited where
  | child (root : Bool) (status : ExitStatus)
  | none
  | noChildren
  | failed
  deriving DecidableEq, Repr

/-- The processes that are waited for. -/
inductive Target where
  | root
  | any
  deriving DecidableEq, Repr

/-- What the guest does with processes. -/
inductive Happening where
  /-- The guest adopts orphans from now on. -/
  | adopting
  | spawned
  | waited (target : Target) (result : Waited)
  | cleaned (succeeded : Bool)
  deriving DecidableEq, Repr

/-- What outlives a connection. -/
structure Runtime where
  /-- `FAILED`. -/
  failed : Bool := false
  history : List Happening := []

inductive Pipe where
  | stdout
  | stderr
  deriving DecidableEq, Repr

def Pipe.kind : Pipe → UInt8
  | .stdout => 2
  | .stderr => 3

/-- Variables of the loop and what is around it. -/
structure Guest where
  /-- Bytes of the host that have not been read. -/
  incoming : List UInt8
  control : Control := {}
  /-- Cancel requests recognised so far. -/
  cancels : ℕ := 0
  output : Output := {}
  /-- Bytes written to the host. -/
  written : List UInt8 := []
  input : List UInt8
  inputSent : ℕ := 0
  /-- Whether the standard input of the process is open. -/
  stdin : Bool := true
  /-- What the process has yet to deliver; none once the guest has closed the pipe. -/
  stdout : Option (List UInt8)
  stderr : Option (List UInt8)
  tree : CommandTree := {}
  stderrFirst : Bool := false
  terminal : Bool := false
  runtime : Runtime := {}

/-- A program of the guest. -/
abbrev Sys := Program Answer Guest Stop

def Guest.pipe (g : Guest) : Pipe → Option (List UInt8)
  | .stdout => g.stdout
  | .stderr => g.stderr

def Guest.setPipe (g : Guest) : Pipe → Option (List UInt8) → Guest
  | .stdout, rest => { g with stdout := rest }
  | .stderr, rest => { g with stderr := rest }

/-- A call that has an effect only on what it returns. -/
def call {α : Type} (f : Answer → Except IoError α) : Sys α :=
  ask .waiting fun answer g => ((f answer).mapError Stop.error, g)

end State

section Tree

def record (happening : Happening) (g : Guest) : Guest :=
  { g with runtime := { g.runtime with history := g.runtime.history ++ [happening] } }

/-- `wait_child`: the call is made again where it is interrupted. -/
def waitChild (target : Target) (fuel : ℕ) : Sys Waited := do
  let waited ← repeatFor .waiting (call fun answer =>
    match answer with
    | .interrupted => .ok Option.none
    | .child root status => .ok (some (.child root status))
    | .noneReady => .ok (some .none)
    | .noChildren => .ok (some .noChildren)
    | _ => .ok (some .failed)) fuel
  update (record (.waited target waited))
  return waited

def setStatus (status : ExitStatus) (g : Guest) : Guest :=
  { g with tree := { g.tree with status := some status } }

/-- `root_exited`. -/
def rootExited (fuel : ℕ) : Sys Bool := do
  let g ← view
  if g.tree.status.isSome then return true
  match ← waitChild .root fuel with
  | .child _ status =>
    update (setStatus status)
    return true
  | .none => return false
  | .noChildren => throw (.error .failed)
  | .failed => throw (.error .failed)

/-- Kill a process, or find all children and kill them. -/
def killing : Sys PUnit := call fun answer =>
  match answer with
  | .failed => .error .failed
  | _ => .ok ⟨⟩

def checkDeadline : Sys PUnit := call fun answer =>
  match answer with
  | .late => .error .timedOut
  | _ => .ok ⟨⟩

/-- Reap one child: true once there is none left, false while the others live. -/
def reapTurn (fuel : ℕ) : Sys (Option Bool) := do
  checkDeadline
  match ← waitChild .any fuel with
  | .child root status =>
    if root then update (setStatus status)
    return none
  | .none => return some false
  | .noChildren => do
    let g ← view
    if g.tree.status.isNone then throw (.error .statusLost)
    update fun g => { g with tree := { g.tree with clean := true } }
    return some true
  | .failed => throw (.error .failed)

def cleanupTurn (fuel : ℕ) : Sys (Option PUnit) := do
  killing
  if ← repeatFor .waiting (reapTurn fuel) fuel then
    return some ⟨⟩
  else do
    checkDeadline
    return none

/-- `cleanup_inner`. -/
def cleanupInner (fuel : ℕ) : Sys PUnit := do
  let g ← view
  if g.tree.clean then return ⟨⟩
  if g.tree.status.isNone then killing
  repeatFor .waiting (cleanupTurn fuel) fuel

/-- The error of a stop, if it is one of the guest's own. -/
def Stop.error? : Stop → Option IoError
  | .waiting => none
  | .error reason => some reason
  | .panicked => none

/-- The tree could not be cleaned up. -/
def uncertain (g : Guest) : Guest := { g with runtime := { g.runtime with failed := true } }

/-- `cleanup`. -/
def cleanup (fuel : ℕ) : Sys PUnit := do
  match ← attempt Stop.error? (cleanupInner fuel) with
  | .ok _ => update (record (.cleaned true))
  | .error error => do
    update (record (.cleaned false))
    update uncertain
    throw (.error error)

end Tree

section Loop

/-- One read of `Control::read`. -/
def controlTurn (serde : Serde) (version : Version) : Sys (Option ControlEvent) :=
  ask .waiting fun answer g =>
    match reading g.control.room g.incoming answer with
    | .interrupted => (.ok none, g)
    | .wouldBlock => (.ok (some .pending), g)
    | .failed => (.error (.error .failed), g)
    | .data [] => (.ok (some .disconnected), g)
    | .data data =>
      let g := { g with incoming := g.incoming.drop data.length }
      match g.control.receive serde version data with
      | .error error => (.error (.error error), g)
      | .ok (control, false) => (.ok none, { g with control := control })
      | .ok (control, true) =>
        (.ok (some .cancel), { g with control := control, cancels := g.cancels + 1 })

/-- `Control::read`. -/
def controlRead (serde : Serde) (version : Version) (fuel : ℕ) : Sys ControlEvent :=
  repeatFor .waiting (controlTurn serde version) fuel

/-- One write of `flush`. -/
def flushTurn : Sys (Option PUnit) := do
  let g ← view
  if g.output.sent < g.output.length then
    ask .waiting fun answer g =>
      match writing (g.output.length - g.output.sent) answer with
      | .moved 0 => (.error (.error .writeZero), g)
      | .moved n =>
        (.ok none, { g with
          written := g.written ++ (g.output.bytes.drop g.output.sent).take n
          output := { g.output with sent := g.output.sent + n } })
      | .interrupted => (.ok none, g)
      | .wouldBlock => (.ok (some ⟨⟩), g)
      | .brokenPipe => (.error (.error .failed), g)
      | .failed => (.error (.error .failed), g)
  else do
    update fun g => { g with output := { g.output with length := 0, sent := 0 } }
    return some ⟨⟩

def flush (fuel : ℕ) : Sys PUnit := repeatFor .waiting flushTurn fuel

def closeStdin : Sys PUnit := update fun g => { g with stdin := false }

def writeStdin : Sys PUnit := do
  let g ← view
  if g.stdin then
    ask .waiting fun answer g =>
      match writing (g.input.length - g.inputSent) answer with
      | .moved n =>
        (.ok ⟨⟩, { g with
          inputSent := g.inputSent + n
          stdin := g.inputSent + n ≠ g.input.length })
      | .brokenPipe => (.ok ⟨⟩, { g with stdin := false })
      | .interrupted => (.ok ⟨⟩, g)
      | .wouldBlock => (.ok ⟨⟩, g)
      | .failed => (.error (.error .failed), g)
  else return ⟨⟩

/-- `pipe`: frame what one read of the pipe returns, if no frame is buffered. -/
def pipe (p : Pipe) : Sys PUnit := do
  let g ← view
  if g.output.length ≠ 0 then return ⟨⟩
  match g.pipe p with
  | none => return ⟨⟩
  | some rest =>
    ask .waiting fun answer g =>
      match reading chunk rest answer with
      | .data [] => (.ok ⟨⟩, g.setPipe p none)
      | .data data =>
        (.ok ⟨⟩, { g.setPipe p (some (rest.drop data.length)) with
          output := (g.output.payload data).header p.kind data.length })
      | .interrupted => (.ok ⟨⟩, g)
      | .wouldBlock => (.ok ⟨⟩, g)
      | .failed => (.error (.error .failed), g)

/-- `exited`. -/
def exited (serde : Serde) (version : Version) : Sys PUnit := do
  let g ← view
  match g.tree.status with
  | none => throw .panicked
  | some status =>
    let body := serde.toVec (GuestMessage.exited version status).json
    if chunk < body.length then throw (.error .writeZero)
    else update fun g => { g with output := (g.output.payload body).header 1 body.length }

def poll : Sys PUnit := call fun answer =>
  match answer with
  | .failed => .error .failed
  | _ => .ok ⟨⟩

/-- How the loop ends without an error. -/
inductive RunEnd where
  | disconnected
  | finished
  deriving DecidableEq, Repr

/-- Both pipes, in the order that is kept. -/
def pipes : Sys PUnit := do
  let g ← view
  if g.stderrFirst then do
    pipe .stderr
    pipe .stdout
  else do
    pipe .stdout
    pipe .stderr

/-- Frame the exit once both pipes are closed and the process tree is clean. -/
def finish (serde : Serde) (version : Version) : Sys PUnit := do
  let g ← view
  if g.tree.clean ∧ g.stdout = none ∧ g.stderr = none ∧ g.output.length = 0 then do
    exited serde version
    update fun g => { g with terminal := true }

/-- What the loop does when no frame is buffered. -/
def fillOutput (serde : Serde) (version : Version) : Sys PUnit := do
  pipes
  update fun g => { g with stderrFirst := !g.stderrFirst }
  finish serde version

/-- Whether the root process has exited, and what follows from it. -/
def watchTree (fuel : ℕ) : Sys PUnit := do
  let g ← view
  if !g.tree.clean then do
    if ← rootExited fuel then do
      closeStdin
      cleanup fuel

def fillEmpty (serde : Serde) (version : Version) : Sys PUnit := do
  let g ← view
  if g.terminal = false ∧ g.output.length = 0 then fillOutput serde version

/-- The part of a turn behind the process tree. -/
def moveBytes (serde : Serde) (version : Version) (fuel : ℕ) : Sys (Option RunEnd) := do
  flush fuel
  let g ← view
  if g.terminal ∧ g.output.length = 0 then return some .finished
  writeStdin
  fillEmpty serde version
  poll
  return none

/-- One turn of the loop. -/
def turn (serde : Serde) (version : Version) (fuel : ℕ) : Sys (Option RunEnd) := do
  match ← controlRead serde version fuel with
  | .disconnected => return some .disconnected
  | .cancel => do
    closeStdin
    cleanup fuel
  | .pending => pure ⟨⟩
  watchTree fuel
  moveBytes serde version fuel

def nonblocking : Sys PUnit := call fun answer =>
  match answer with
  | .failed => .error .failed
  | _ => .ok ⟨⟩

/-- `run`, with the number of turns that its loops take at most. -/
def run (serde : Serde) (version : Version) (fuel : ℕ) : Sys RunEnd := do
  nonblocking
  nonblocking
  nonblocking
  nonblocking
  repeatFor .waiting (turn serde version fuel) fuel

end Loop

end Sower.Vm.GuestLoop
