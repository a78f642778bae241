import Sower.Vm.Streaming

/-!
# A command and its surroundings

One command is streamed over one socket. Messages to the process arrive in any
order: data, one message for each time the socket is armed, its end, requests to
cancel, the end of callbacks and of their workers, and whatever an earlier command
or another process has left behind.
-/

namespace Sower.Vm.Streaming

open Protocol Framing

section World

/-- A call of the caller's function in a worker of its own. -/
structure Call where
  stream : Stream
  bytes : List UInt8
  /-- The function has returned. -/
  returned : Bool := false
  /-- The worker has ended. -/
  ended : Bool := false
  deriving DecidableEq, Repr

def Call.output (call : Call) : Stream × List UInt8 := (call.stream, call.bytes)

def Call.event (call : Call) : Event := call.stream.event call.bytes

/-- The command that is streamed. -/
structure Session where
  command : ℕ
  socket : ℕ
  /-- Identifier of the first worker; all processes before it have smaller ones. -/
  first : ℕ

/-- The process and what is around it. -/
structure World (ε : Type) where
  io : Io
  /-- The socket may deliver a message. -/
  armed : Bool
  mailbox : List (Msg ε)
  calls : List Call := []
  /-- All bytes that the socket has delivered. -/
  arrived : List UInt8 := []
  reports : List (Report ε) := []
  /-- A cancel was requested, or the connection has failed. -/
  disturbed : Bool := false

variable {ε : Type}

def World.perform (w : World ε) : Act ε → World ε
  | .arm => { w with armed := true }
  | .spawn _ stream bytes => { w with calls := w.calls ++ [{ stream := stream, bytes := bytes }] }
  -- the worker may still be on its way to return
  | .kill _ => w
  | .requestCancel => w
  | .close => { w with armed := false }
  | .report report => { w with reports := w.reports ++ [report] }

/-- The process changes its state and acts. -/
def World.apply (w : World ε) (outcome : Io × List (Act ε)) : World ε :=
  outcome.2.foldl World.perform { w with io := outcome.1 }

/-- Messages about other sockets, commands and processes. -/
def Msg.Foreign (k : Session) : Msg ε → Prop
  | .tcp socket _ => socket ≠ k.socket
  | .tcpClosed socket => socket ≠ k.socket
  | .tcpError socket _ => socket ≠ k.socket
  | .outputDone worker => worker < k.first
  | .exit worker => worker < k.first
  | .cancel command _ => command ≠ k.command
  | .execute _ _ => True
  | .other => True

/-- Messages that cancel the command, or that its connection has failed. -/
def Msg.Disturbing (k : Session) : Msg ε → Prop
  | .tcpClosed socket => socket = k.socket
  | .tcpError socket _ => socket = k.socket
  | .cancel command _ => command = k.command
  | _ => False

/-- One thing happens. -/
inductive Step (codec : Codec) (k : Session) (w : World ε) : World ε → Prop
  /-- The socket delivers what it has received, in one message of any length. -/
  | deliver (bytes : List UInt8) (armed : w.armed = true) : Step codec k w { w with
      armed := false
      arrived := w.arrived ++ bytes
      mailbox := w.mailbox ++ [.tcp k.socket bytes] }
  | disturb (m : Msg ε) (disturbing : m.Disturbing k) : Step codec k w { w with
      disturbed := true
      mailbox := w.mailbox ++ [m] }
  | foreign (m : Msg ε) (isForeign : m.Foreign k) : Step codec k w { w with
      mailbox := w.mailbox ++ [m] }
  /-- A callback returns. -/
  | returns (i : ℕ) (call : Call) (hcall : w.calls[i]? = some call)
      (running : call.returned = false ∧ call.ended = false) : Step codec k w { w with
      calls := w.calls.set i { call with returned := true }
      mailbox := w.mailbox ++ [.outputDone (k.first + i)] }
  /-- A worker ends: after its function has returned, by a crash or killed. -/
  | ends (i : ℕ) (call : Call) (hcall : w.calls[i]? = some call)
      (alive : call.ended = false) : Step codec k w { w with
      calls := w.calls.set i { call with ended := true }
      mailbox := w.mailbox ++ [.exit (k.first + i)] }
  /-- The process handles its next message. -/
  | handle (o : Oracle ε) (m : Msg ε) (rest : List (Msg ε)) (hmailbox : w.mailbox = m :: rest)
      (receiving : w.io.phase = .receiving) (fresh : o.worker = k.first + w.calls.length) :
      Step codec k w
        (World.apply { w with mailbox := rest } (w.io.receiveOutput codec o k.command m))

/-- Runs. -/
inductive Run (codec : Codec) (k : Session) (w : World ε) : World ε → Prop
  | refl : Run codec k w w
  | step {w' w'' : World ε} (before : Run codec k w w') (last : Step codec k w' w'') :
    Run codec k w w''

/-- The process has opened the connection of a command; messages of the past may wait. -/
structure World.Opened (k : Session) (w : World ε) : Prop where
  io : ∃ (io : Io) (opening : Opening ε) (now : ℤ), io.worker = none ∧
    io.connection opening = .ok k.socket ∧ (io.execute opening now k.command).1 = w.io ∧
    w.io.phase = .receiving
  armed : w.armed = true
  mailbox : ∀ m ∈ w.mailbox, m.Foreign k
  calls : w.calls = []
  arrived : w.arrived = []
  reports : w.reports = []
  disturbed : w.disturbed = false

end World

section Parsing

/-- The bytes begin with the frames of these events. -/
def Parses (codec : Codec) : List UInt8 → List Event → List UInt8 → Prop
  | bytes, [], rest => bytes = rest
  | bytes, e :: events, rest => ∃ later, decodeFrame codec bytes = .event e later ∧
    Parses codec later events rest

variable {codec : Codec} {bytes rest rest' : List UInt8} {events events' : List Event} {e : Event}

/-- Bytes that arrive later do not change what has been read. -/
theorem Parses.append (h : Parses codec bytes events rest) (more : List UInt8) :
    Parses codec (bytes ++ more) events (rest ++ more) := by
  induction events generalizing bytes with
  | nil => exact congrArg (· ++ more) h
  | cons e events ih =>
    obtain ⟨later, hdecode, hlater⟩ := h
    exact ⟨later ++ more, decodeFrame_append_of_event hdecode more, ih hlater⟩

theorem Parses.trans (h : Parses codec bytes events rest) (h' : Parses codec rest events' rest') :
    Parses codec bytes (events ++ events') rest' := by
  induction events generalizing bytes with
  | nil =>
    have heq : bytes = rest := h
    rw [heq]
    exact h'
  | cons e events ih =>
    obtain ⟨later, hdecode, hlater⟩ := h
    exact ⟨later, hdecode, ih hlater⟩

/-- One more event. -/
theorem Parses.snoc (h : Parses codec bytes events rest)
    (hdecode : decodeFrame codec rest = .event e rest') :
    Parses codec bytes (events ++ [e]) rest' :=
  h.trans ⟨rest', hdecode, rfl⟩

/-- The same bytes are read in one way: of two readings one goes further. -/
theorem Parses.comparable (h : Parses codec bytes events rest)
    (h' : Parses codec bytes events' rest') :
    (∃ more, events' = events ++ more ∧ Parses codec rest more rest') ∨
      ∃ more, events = events' ++ more ∧ Parses codec rest' more rest := by
  induction events generalizing bytes events' with
  | nil =>
    have heq : bytes = rest := h
    rw [heq] at h'
    exact Or.inl ⟨events', rfl, h'⟩
  | cons e events ih =>
    cases events' with
    | nil =>
      have heq : bytes = rest' := h'
      rw [heq] at h
      exact Or.inr ⟨e :: events, rfl, h⟩
    | cons e' events' =>
      obtain ⟨later, hdecode, hlater⟩ := h
      obtain ⟨later', hdecode', hlater'⟩ := h'
      rw [hdecode] at hdecode'
      cases hdecode'
      rcases ih hlater hlater' with ⟨more, hevents, hmore⟩ | ⟨more, hevents, hmore⟩
      · exact Or.inl ⟨more, by rw [hevents]; rfl, hmore⟩
      · exact Or.inr ⟨more, by rw [hevents]; rfl, hmore⟩

theorem output?_event (stream : Stream) (bytes : List UInt8) :
    output? (stream.event bytes) = some (stream, bytes) := by
  cases stream <;> rfl

theorem event_of_output? {stream : Stream} {bytes : List UInt8}
    (h : output? e = some (stream, bytes)) : e = stream.event bytes := by
  cases e with
  | stdout payload =>
    cases h
    rfl
  | stderr payload =>
    cases h
    rfl
  | ready contract => cases h
  | exited code signal => cases h
  | guestError message => cases h

/-- What ends a command in its own stream, and the result. -/
def Answers : Event → Except CommandError Result → Prop
  | .exited code signal, result => ∃ r, result = .ok r ∧ r.code = code ∧ r.signal = signal
  | .guestError message, result => result = .error (.guest message)
  | _, _ => False

end Parsing

end Sower.Vm.Streaming
