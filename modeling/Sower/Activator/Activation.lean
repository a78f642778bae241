import Sower.Activator.Handler
import Sower.Lib.Utf8

/-!
# A request from the client to the commands and back

A client picks a way to the activator, sends one request and reads responses until one
completes it. What it is told is what happened: it hears of success exactly if the request
was permitted and valid and all of its commands exited with zero, and of an exit code only if
a command ended with it.
-/

namespace Sower.Activator.Handler

open Transports Traced

section Asking

/-- The client's `Request`. -/
structure Asked where
  id : String
  type : String
  path : Option String := none
  mode : Option String := none
  reason : Option String := none
  deriving DecidableEq, Repr

/-- `encode_request`, before it is a text: what is nil is left out. -/
def Asked.fields (asked : Asked) : List (String × Json) :=
  [("id", .string asked.id), ("type", .string asked.type)] ++
    (asked.path.map fun path => ("path", Json.string path)).toList ++
    (asked.mode.map fun mode => ("mode", Json.string mode)).toList ++
    (asked.reason.map fun reason => ("reason", Json.string reason)).toList

/-- The request as the activator has it, with its defaults. -/
def Asked.received (asked : Asked) : Request :=
  { id := asked.id, kind := asked.type, path := asked.path.getD "", mode := asked.mode.getD "",
    reason := asked.reason.getD "" }

structure Tag where
  key : String
  value : String
  deriving DecidableEq, Repr

/-- Why a request is not sent. -/
inductive Unsent where
  | missingUsernameTag
  | usernameMismatch
  | cmdNotFound
  | socketNotFound
  | connectionRefused
  | connectFailed (reason : String)
  | sendFailed (reason : String)
  deriving DecidableEq, Repr

/-- How a request gets to the activator: over the socket, or to one that is started for it, as
the user or under `sudo`. -/
inductive Way where
  | socket
  | direct
  | privileged
  deriving DecidableEq, Repr

/-- The machine as the client sees it. -/
structure Client where
  user : Option String
  socketAvailable : Bool
  /-- `connect` and `send_request`. -/
  connected : Except Unsent Unit
  /-- Whether an executable is found. -/
  executable : String → Bool

def usernameTag (tags : List Tag) : Option Tag := tags.find? (·.key = "username")

variable (client : Client)

def usernameMatchesCurrentUser (tags : List Tag) : Bool :=
  (usernameTag tags).any fun tag => some tag.value = client.user

def validatePrivileges (type : String) (tags : List Tag) : Except Unsent Unit :=
  if type = "home-manager" then
    match usernameTag tags with
    | none => .error .missingUsernameTag
    | some tag => if some tag.value = client.user then .ok () else .error .usernameMismatch
  else .ok ()

def buildPortCommandDirect : Except Unsent Way :=
  if client.executable "sower-activator" then .ok .direct else .error .cmdNotFound

def buildPortCommandPrivileged : Except Unsent Way :=
  if client.executable "sower-activator" && client.executable "sudo" then .ok .privileged
  else .error .cmdNotFound

def buildPortCommand (type : String) (tags : List Tag) : Except Unsent Way :=
  if type = "home-manager" then
    if usernameMatchesCurrentUser client tags then buildPortCommandDirect client
    else .error .usernameMismatch
  else buildPortCommandPrivileged client

/-- `activate_via_port`, up to the start of the activator. -/
def activateViaPort (type : String) (tags : List Tag) : Except Unsent Way := do
  validatePrivileges client type tags
  buildPortCommand client type tags

/-- The way that `activate` picks. -/
def activateWay (type : String) (tags : List Tag) : Except Unsent Way :=
  if type = "home-manager" ∧ usernameMatchesCurrentUser client tags = true then
    activateViaPort client type tags
  else if client.socketAvailable then client.connected.map fun _ => .socket
  else activateViaPort client type tags

/-- The way that `reboot` picks. -/
def rebootWay : Except Unsent Way :=
  if client.socketAvailable then client.connected.map fun _ => .socket
  else buildPortCommandPrivileged client

end Asking

section Serving

/-- The machine as the activator finds it. -/
structure Machine where
  /-- What an activator that is reached that way runs on. -/
  host : Way → Host
  /-- Whether an activator can be started that way. -/
  starts : Way → Bool
  allowedGids : List ℕ
  /-- Whether a network policy is configured. -/
  policy : Bool
  root : Bool
  creds : Option PeerCredentials
  groups : Except String (List ℕ)

/-- What the activator does with the bytes that are sent to it. An activator that fails itself
does nothing. -/
def Machine.serve (machine : Machine) (way : Way) (input : List UInt8) : List Event :=
  if machine.starts way then
    match way with
    | .socket =>
      (runSocket (machine.host .socket) machine.allowedGids machine.policy
        ⟨machine.root, machine.creds, machine.groups, some input⟩).toOption.getD []
    | .direct => runPipe (machine.host .direct) (some input)
    | .privileged => runPipe (machine.host .privileged) (some input)
  else []

/-- The libraries that write and read texts of objects. -/
structure Codec (ε : Type) where
  /-- `Jason.encode!` -/
  encodeRequest : List (String × Json) → List UInt8
  /-- `serde_json::to_writer` -/
  encodeResponse : Written → List UInt8
  /-- `Jason.decode` -/
  decode : Decoder ε

variable {ε : Type} (codec : Codec ε)

/-- The line of a request is read as the request. -/
structure Codec.Conveys (host : Host) (asked : Asked) : Prop where
  decode : host.decode (codec.encodeRequest asked.fields ++ [newline]) = some asked.received
  utf8 : (codec.encodeRequest asked.fields ++ [newline]).toByteArray.validateUTF8 = true
  oneLine : newline ∉ codec.encodeRequest asked.fields

/-- The responses are read as what they are, each is one line, and no text is none. -/
structure Codec.Reads (written : List Written) : Prop where
  decode : ∀ response ∈ written, codec.decode (codec.encodeResponse response) =
    .ok (.object response.fields)
  oneLine : ∀ response ∈ written, newline ∉ codec.encodeResponse response
  blank : ∃ reason, codec.decode [] = .error reason

/-- What the client sends. -/
def Codec.request (asked : Asked) : List UInt8 := codec.encodeRequest asked.fields ++ [newline]

/-- The lines of responses. -/
def Codec.lines (written : List Written) : List (List UInt8) := written.map codec.encodeResponse

/-- How the responses get to the client: the reads, and why there is no further one. -/
structure Reading where
  reads : List (List UInt8)
  recvError : RecvError
  portEnding : PortEnding

/-- What the client makes of what it reads. -/
def Codec.receive (requestId : String) (size : ℕ+) (reading : Reading) :
    Way → Transports.Activation ε
  | .socket => socketMode codec.decode requestId size reading.reads reading.recvError
  | .direct => portMode codec.decode requestId reading.reads reading.portEnding
  | .privileged => portMode codec.decode requestId reading.reads reading.portEnding

/-- How the client ends that never reads a complete response. -/
def Reading.unfinished (reading : Reading) (shown : List Json) : Way → Result ε
  | .socket =>
    match reading.recvError with
    | .timeout => .timeout
    | .closed => .connectionClosed
    | .other reason => .recvFailed reason
  | .direct | .privileged =>
    match reading.portEnding with
    | .exitStatus status => .portExited status shown
    | .timeout => .timeout

end Serving

section Lines

/-- The first line of a text is where its first newline is. -/
theorem first_line_inj {line line' later later' : List UInt8} (hfree : newline ∉ line)
    (hfree' : newline ∉ line') (h : line ++ newline :: later = line' ++ newline :: later') :
    line = line' ∧ later = later' := by
  have hindex : line.length = line'.length := by
    have heq := congrArg (List.idxOf newline) h
    simpa only [List.idxOf_append_of_notMem hfree, List.idxOf_append_of_notMem hfree',
      List.idxOf_cons_self, Nat.add_zero] using heq
  obtain ⟨hline, hlater⟩ := List.append_inj h hindex
  exact ⟨hline, (List.cons.inj hlater).2⟩

end Lines

section Reading

variable {ε : Type} {codec : Codec ε} {written : List Written} {response : Written}
  {requestId : String}

/-- The data of a response for the client, which has nil for none. -/
def Written.shownData (response : Written) : Json :=
  if response.data = "" then .null else .string response.data

/-- The response completes the request. -/
def Written.Completes (requestId : String) (response : Written) : Prop :=
  response.id = requestId ∧ response.kind = .complete

/-- What responses show of a request that they do not complete. -/
def shownData (requestId : String) (written : List Written) : List Json :=
  (written.filter fun response => response.id = requestId ∧ response.kind ≠ .complete).map
    Written.shownData

end Reading

section Told

variable {ε : Type} {codec : Codec ε} {machine : Machine} {asked : Asked} {way : Way} {size : ℕ+}
  {host : Host}

/-- The peer may have something activated that way. -/
def Machine.Permits (machine : Machine) : Way → Prop
  | .socket => machine.root = true ∧
      ∃ creds, machine.creds = some creds ∧ isAuthorized creds machine.allowedGids = true
  | .direct | .privileged => True

/-- The request is one that the activator does something for. -/
structure Machine.Accepts (machine : Machine) (way : Way) (asked : Asked) : Prop where
  starts : machine.starts way = true
  permits : machine.Permits way
  valid : validate asked.received = .ok ()

/-- The events are those of a request that is accepted, or nothing is run and completed. -/
def Machine.Handles (machine : Machine) (way : Way) (asked : Asked) (events : List Event) : Prop :=
  (events = serveActivation (machine.host way) asked.received ∧ machine.Accepts way asked) ∨
    (commands events = [] ∧ (∀ response ∈ responses events, response.kind ≠ .complete) ∧
      ¬ machine.Accepts way asked)

/-- A line as the client shows it; an empty one has no data. -/
def Line.shown (line : Line) : Json := if line.text = "" then .null else .string line.text

/-- A request that is activated, with the code that completes it. -/
structure Machine.Activated (machine : Machine) (way : Way) (asked : Asked) (events : List Event)
    (code : ℤ) : Prop where
  accepts : machine.Accepts way asked
  commands_eq : commands events = tried (machine.host way).attempt (plan asked.received)
  code_eq : code = exitCode (inTurn (machine.host way).attempt (plan asked.received))
  responses_eq : responses events =
    (shownLines (machine.host way) asked.received).map (Line.response asked.id) ++
      [.complete asked.id code]

/-- What a client makes of a beginning of the responses: nothing is completed for it, or it has
the code of a request that is activated. -/
inductive Machine.Told (machine : Machine) (way : Way) (asked : Asked) (events : List Event)
    (reading : Reading) (activation : Transports.Activation ε) : Prop where
  | unfinished (hresult : activation.result = reading.unfinished activation.delivered way)
  | completed (code : ℤ) (hactivated : machine.Activated way asked events code)
    (hdelivered : activation.delivered =
      (shownLines (machine.host way) asked.received).map Line.shown)
    (hresult : activation.result =
      if code = 0 then .ok activation.delivered else .failed (.int code) activation.delivered)

variable {events : List Event} {reading : Reading}

/-- The lines of the responses fit the buffer of a socket. -/
def Codec.Fits (codec : Codec ε) (size : ℕ+) (way : Way) (written : List Written) : Prop :=
  way = .socket → ∀ response ∈ written, (codec.encodeResponse response).length < size

theorem Codec.Fits.lines {written part : List Written} (hfits : codec.Fits size way written)
    (hpart : ∀ response ∈ part, response ∈ written) (hway : way = .socket) :
    ∀ line ∈ codec.lines part, line.length < size := by
  intro line hline
  obtain ⟨response, hmem, heq⟩ := List.mem_map.mp hline
  rw [← heq]
  exact hfits hway response (hpart response hmem)

end Told

section Samples

end Samples

end Sower.Activator.Handler
