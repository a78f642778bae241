import Sower.Vm.Frames

/-!
# The process that streams a command's output

One process of the host reads the frames of the guest and calls the caller's
function with each payload of output, in a worker of its own. The socket delivers
one message each time it is armed, and it is armed only when the buffer holds no
whole frame and no worker is running. A cancelled command reads on until its last
frame and calls nobody.
-/

namespace Sower.Vm.Streaming

open Protocol

section Messages

/-- The two streams of a process. -/
inductive Stream where
  | stdout
  | stderr
  deriving DecidableEq, Repr

/-- Why a command is cancelled. -/
inductive Reason where
  | cancelled
  | timeout
  | callerDown
  | outputConsumerDown
  | commandHandleDown
  deriving DecidableEq, Repr

/-- `Garden.VM.Result`. -/
structure Result where
  code : Option ℤ
  signal : Option ℤ
  readyMs : ℤ
  elapsedMs : ℤ
  deriving DecidableEq, Repr

/-- Errors of a command. -/
inductive CommandError where
  | cancelled (reason : Reason)
  | guest (message : String)
  deriving DecidableEq, Repr

/-- What ends the virtual machine. -/
inductive Failure (ε : Type) where
  | guestDisconnected
  | guestConnection (reason : ε)
  | cancelUnconfirmed (reason : ε)
  | guestProtocol (event : Decoded)
  | cancelled (reason : Reason)

/-- Messages to the process; `other` is every message that no clause names. -/
inductive Msg (ε : Type) where
  | execute (command : ℕ) (request : List UInt8)
  | tcp (socket : ℕ) (bytes : List UInt8)
  | tcpClosed (socket : ℕ)
  | tcpError (socket : ℕ) (reason : ε)
  | outputDone (worker : ℕ)
  | exit (worker : ℕ)
  | cancel (command : ℕ) (reason : Reason)
  | other

/-- Messages to the guard. -/
inductive Report (ε : Type) where
  | finish (failure : Failure ε)
  | cancelCommand (command : ℕ) (reason : Reason)
  | commandFinished (command : ℕ) (result : Except CommandError Result)

/-- What the process does besides changing its state. -/
inductive Act (ε : Type) where
  /-- Ask the socket for one more message. -/
  | arm
  /-- Start a worker that calls the caller's function. -/
  | spawn (worker : ℕ) (stream : Stream) (bytes : List UInt8)
  | kill (worker : ℕ)
  /-- Write a cancel request to the guest. -/
  | requestCancel
  | close
  | report (report : Report ε)

/-- What the environment answers while a message is handled. -/
structure Oracle (ε : Type) where
  /-- The monotonic clock. -/
  now : ℤ
  /-- The identifier of a new process. -/
  worker : ℕ
  /-- Outcome of a write to the socket. -/
  sent : Except ε Unit
  /-- Whether the socket could be armed. -/
  armed : Bool

end Messages

section Process

/-- Where in its code the process is. -/
inductive Phase where
  | idle
  | receiving
  /-- The process has returned. -/
  | returned
  /-- The process has crashed. -/
  | crashed
  deriving DecidableEq, Repr

/-- `Garden.VM.IO`, without the fixed fields guard, path and callback. -/
structure Io where
  contract : ℕ
  socket : Option ℕ := none
  command : Option ℕ := none
  worker : Option ℕ := none
  buffer : List UInt8 := []
  cancelled : Option Reason := none
  started : ℤ := 0
  readyMs : ℤ := 0
  phase : Phase := .idle
  deriving DecidableEq, Repr

variable {ε : Type}

/-- `completed`. -/
def Io.completed (io : Io) (command : ℕ) (result : Except CommandError Result) : Io × List (Act ε) :=
  ({ io with socket := none, command := none, buffer := [], phase := .idle },
    [.close, .report (.commandFinished command result)])

/-- Send the guard a failure, and return. -/
def Io.finish (io : Io) (failure : Failure ε) : Io × List (Act ε) :=
  ({ io with phase := .returned }, [.report (.finish failure)])

/-- The result of an exited frame. -/
def Io.result (io : Io) (now : ℤ) (code signal : Option ℤ) : Except CommandError Result :=
  match io.cancelled with
  | some reason => .error (.cancelled reason)
  | none => .ok ⟨code, signal, io.readyMs, now - io.started⟩

theorem length_of_event {codec : Codec} {bytes rest : List UInt8} {e : Event}
    (h : decodeFrame codec bytes = .event e rest) : rest.length < bytes.length := by
  rcases decodeFrame_cases codec bytes with hmore | ⟨kind, length, tail, hheader, herror | hevent⟩
  · rw [hmore] at h
    cases h
  · obtain ⟨reason, hreason⟩ := herror
    have hnow := hreason []
    rw [List.append_nil, h] at hnow
    cases hnow
  · obtain ⟨hle, hmore⟩ := hevent
    have hlength := Framing.length_of_header? hheader
    have hnow := hmore []
    rw [List.append_nil, h, List.append_nil] at hnow
    cases he : event codec kind (tail.take length) with
    | ok e' =>
      rw [he] at hnow
      cases hnow
      rw [List.length_drop]
      omega
    | error reason =>
      rw [he] at hnow
      cases hnow

/-- The events of the two streams. -/
def Stream.event : Stream → List UInt8 → Event
  | .stdout, bytes => .stdout bytes
  | .stderr, bytes => .stderr bytes

/-- Output of the command, if the event is that. -/
def output? : Event → Option (Stream × List UInt8)
  | .stdout bytes => some (.stdout, bytes)
  | .stderr bytes => some (.stderr, bytes)
  | _ => none

/-- What `consume` does with an event that is not output. -/
def Io.terminal (o : Oracle ε) (command : ℕ) (io : Io) (rest : List UInt8) :
    Event → Io × List (Act ε)
  | .exited code signal => io.completed command (io.result o.now code signal)
  | .guestError message => io.completed command (.error (.guest message))
  | e => io.finish (.guestProtocol (.event e rest))

/-- `consume`. -/
def Io.consume (codec : Codec) (o : Oracle ε) (command : ℕ) (io : Io) : Io × List (Act ε) :=
  if io.worker.isSome then (io, [])
  else match h : decodeFrame codec io.buffer with
    | .more => if o.armed then (io, [.arm]) else ({ io with phase := .crashed }, [])
    | .error reason => io.finish (.guestProtocol (.error reason))
    | .event e rest =>
      match output? e with
      | some (stream, bytes) =>
        have _shorter := length_of_event h
        if io.cancelled.isSome then Io.consume codec o command { io with buffer := rest }
        else ({ io with buffer := rest, worker := some o.worker }, [.spawn o.worker stream bytes])
      | none => io.terminal o command rest e
  termination_by io.buffer.length

/-- `cancel`. -/
def Io.cancel (codec : Codec) (o : Oracle ε) (command : ℕ) (reason : Reason) (io : Io) :
    Io × List (Act ε) :=
  if io.cancelled.isSome then (io, [])
  else
    let killed := io.worker.toList.map Act.kill
    if io.contract = 2 then
      match o.sent with
      | .ok () =>
        let consumed := Io.consume codec o command
          { io with worker := none, cancelled := some reason }
        (consumed.1, killed ++ .requestCancel :: consumed.2)
      | .error error =>
        let finished := io.finish (.cancelUnconfirmed error)
        (finished.1, killed ++ finished.2)
    else
      let finished := io.finish (.cancelled reason)
      (finished.1, killed ++ finished.2)

/-- `receive_output`, with the next message. -/
def Io.receiveOutput (codec : Codec) (o : Oracle ε) (command : ℕ) (io : Io) :
    Msg ε → Io × List (Act ε)
  | .tcp socket bytes =>
    if some socket = io.socket then
      Io.consume codec o command { io with buffer := io.buffer ++ bytes }
    else (io, [])
  | .tcpClosed socket =>
    if some socket = io.socket then io.finish .guestDisconnected else (io, [])
  | .tcpError socket reason =>
    if some socket = io.socket then io.finish (.guestConnection reason) else (io, [])
  | .outputDone worker =>
    if some worker = io.worker then Io.consume codec o command { io with worker := none }
    else (io, [])
  | .exit worker =>
    if some worker = io.worker then
      ({ io with worker := none }, [.report (.cancelCommand command .outputConsumerDown)])
    else (io, [])
  | .cancel cancelled reason =>
    if cancelled = command then Io.cancel codec o command reason io else (io, [])
  | .execute _ _ => (io, [])
  | .other => (io, [])

/-- What opening the connection of a command comes to. -/
structure Opening (ε : Type) where
  /-- A new connection whose guest is ready. -/
  connected : Except ε ℕ
  /-- `Protocol.execute`: the frame of the request. -/
  frame : Except ε (List UInt8)
  sent : Except ε Unit
  armed : Except ε Unit

/-- `connection`. -/
def Io.connection (opening : Opening ε) (io : Io) : Except ε ℕ :=
  match io.socket with
  | some socket => .ok socket
  | none => opening.connected

/-- `idle`, with a command. -/
def Io.execute (opening : Opening ε) (now : ℤ) (command : ℕ) (io : Io) : Io × List (Act ε) :=
  let io := { io with
    command := some command, started := now, cancelled := none, buffer := [] }
  let opened : Except ε ℕ := do
    let socket ← io.connection opening
    let _ ← opening.frame
    opening.sent
    opening.armed
    return socket
  match opened with
  | .ok socket => ({ io with socket := some socket, phase := .receiving }, [.arm])
  | .error reason => io.finish (.guestConnection reason)

end Process

section Consuming

variable {ε : Type} {codec : Codec} {o : Oracle ε} {command : ℕ} {io : Io} {rest : List UInt8}
  {e : Event}

theorem consume_more (hworker : io.worker = none) (h : decodeFrame codec io.buffer = .more) :
    io.consume codec o command =
      if o.armed then (io, [.arm]) else ({ io with phase := .crashed }, []) := by
  have hnone : ¬ io.worker.isSome = true := by
    rw [hworker]
    exact Bool.false_ne_true
  rw [Io.consume, if_neg hnone]
  split
  · rfl
  · rename_i herror
    rw [h] at herror
    cases herror
  · rename_i hevent
    rw [h] at hevent
    cases hevent

theorem consume_error {reason : FrameError} (hworker : io.worker = none)
    (h : decodeFrame codec io.buffer = .error reason) :
    io.consume codec o command = io.finish (.guestProtocol (.error reason)) := by
  have hnone : ¬ io.worker.isSome = true := by
    rw [hworker]
    exact Bool.false_ne_true
  rw [Io.consume, if_neg hnone]
  split
  · rename_i hmore
    rw [h] at hmore
    cases hmore
  · rename_i herror
    rw [h] at herror
    cases herror
    rfl
  · rename_i hevent
    rw [h] at hevent
    cases hevent

theorem consume_event (hworker : io.worker = none)
    (h : decodeFrame codec io.buffer = .event e rest) :
    io.consume codec o command =
      match output? e with
      | some (stream, bytes) =>
        if io.cancelled.isSome then Io.consume codec o command { io with buffer := rest }
        else ({ io with buffer := rest, worker := some o.worker }, [.spawn o.worker stream bytes])
      | none => io.terminal o command rest e := by
  have hnone : ¬ io.worker.isSome = true := by
    rw [hworker]
    exact Bool.false_ne_true
  rw [Io.consume, if_neg hnone]
  split
  · rename_i hmore
    rw [h] at hmore
    cases hmore
  · rename_i herror
    rw [h] at herror
    cases herror
  · rename_i hevent
    rw [h] at hevent
    cases hevent
    rfl

/-- How the process takes what the buffer holds of a cancelled command. -/
inductive Drained (o : Oracle ε) (command : ℕ) (io : Io) : Io × List (Act ε) → Prop
  | armed (buffer : List UInt8) : Drained o command io ({ io with buffer := buffer }, [.arm])
  | crashed (buffer : List UInt8) :
    Drained o command io ({ io with buffer := buffer, phase := .crashed }, [])
  | finished (buffer : List UInt8) (failure : Failure ε) :
    Drained o command io (Io.finish { io with buffer := buffer } failure)
  | completed (buffer : List UInt8) (error : CommandError) :
    Drained o command io (Io.completed { io with buffer := buffer } command (.error error))

theorem Drained.of_buffer {outcome : Io × List (Act ε)} {buffer : List UInt8}
    (h : Drained o command { io with buffer := buffer } outcome) : Drained o command io outcome := by
  cases h with
  | armed buffer => exact Drained.armed buffer
  | crashed buffer => exact Drained.crashed buffer
  | finished buffer failure => exact Drained.finished buffer failure
  | completed buffer error => exact Drained.completed buffer error

/-- The buffer of a cancelled command is read without calling anybody. -/
theorem consume_cancelled (hworker : io.worker = none) (hcancelled : io.cancelled.isSome) :
    Drained o command io (io.consume codec o command) := by
  induction hlength : io.buffer.length using Nat.strongRecOn generalizing io with
  | ind n ih =>
    cases hdecode : decodeFrame codec io.buffer with
    | more =>
      rw [consume_more hworker hdecode]
      split
      · exact Drained.armed io.buffer
      · exact Drained.crashed io.buffer
    | error reason =>
      rw [consume_error hworker hdecode]
      exact Drained.finished io.buffer _
    | event e rest =>
      have hshorter := length_of_event hdecode
      rw [consume_event hworker hdecode]
      cases houtput : output? e with
      | some output =>
        obtain ⟨stream, bytes⟩ := output
        dsimp only
        rw [if_pos hcancelled]
        have hrest : Drained o command { io with buffer := rest }
            (Io.consume codec o command { io with buffer := rest }) :=
          ih rest.length (by omega) hworker hcancelled rfl
        exact hrest.of_buffer
      | none =>
        dsimp only
        cases e with
        | exited code signal =>
          obtain ⟨reason, hreason⟩ := Option.isSome_iff_exists.mp hcancelled
          have hresult : io.result o.now code signal = .error (.cancelled reason) := by
            unfold Io.result
            rw [hreason]
          unfold Io.terminal
          dsimp only
          rw [hresult]
          exact Drained.completed io.buffer _
        | guestError message => exact Drained.completed io.buffer _
        | ready contract => exact Drained.finished io.buffer _
        | stdout bytes => cases houtput
        | stderr bytes => cases houtput

/-- A message to a cancelled command is passed over, or the command is read on or ends. -/
theorem receiveOutput_cancelled (hworker : io.worker = none) (hcancelled : io.cancelled.isSome)
    (m : Msg ε) : io.receiveOutput codec o command m = (io, []) ∨
      Drained o command io (io.receiveOutput codec o command m) := by
  have hnone : ∀ worker : ℕ, ¬ some worker = io.worker := by
    intro worker h
    rw [hworker] at h
    cases h
  unfold Io.receiveOutput
  cases m with
  | tcp socket bytes =>
    dsimp only
    split
    · right
      have hread : Drained o command { io with buffer := io.buffer ++ bytes }
          (Io.consume codec o command { io with buffer := io.buffer ++ bytes }) :=
        consume_cancelled hworker hcancelled
      exact hread.of_buffer
    · exact Or.inl rfl
  | tcpClosed socket =>
    dsimp only
    split
    · exact Or.inr (Drained.finished io.buffer _)
    · exact Or.inl rfl
  | tcpError socket reason =>
    dsimp only
    split
    · exact Or.inr (Drained.finished io.buffer _)
    · exact Or.inl rfl
  | outputDone worker => exact Or.inl (if_neg (hnone worker))
  | exit worker => exact Or.inl (if_neg (hnone worker))
  | cancel cancelled reason =>
    left
    dsimp only
    unfold Io.cancel
    rw [if_pos hcancelled]
    split <;> rfl
  | execute command request => exact Or.inl rfl
  | other => exact Or.inl rfl

end Consuming

end Sower.Vm.Streaming
