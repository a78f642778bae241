import Mathlib.Data.List.Dedup
import Sower.Activator.Transports

/-!
# The garden's admin socket

The garden reads one line from a connection to its admin socket, has the command in it done if
the kernel says that the peer may ask for it, and answers with a frame that tells what came of
it and one that carries an exit code. A command that dies takes the answer with it.
-/

namespace Sower.Garden.Admin

open Activator.Transports

section Requests

/-- The commands of the socket. -/
inductive Command where
  | deploy (seedType sid : Option String) (force : Bool)
  | reload
  | reregister
  | status
  deriving DecidableEq, Repr

/-- `SowerClient.Admin.Request` -/
structure Request where
  id : Json
  message : Command

/-- Why a line is no request. -/
inductive Invalid where
  | json (reason : String)
  | missingKind
  | unknownKind (kind : String)
  | cast (reason : String)
  | recv (reason : String)
  deriving DecidableEq, Repr

/-- The libraries that read a request. -/
structure Library where
  /-- `Jason.decode` -/
  decode : List UInt8 → Except String Json
  /-- `cast` of a payload to `deploy`, whose seed type is one of those there are. -/
  castDeploy : Json → Except String Command
  /-- `cast` of a payload to a command without fields. -/
  castEmpty : Json → Except String Unit
  inspect : Invalid → String

variable (library : Library)

/-- The payload; what is nil or false is an empty one. -/
def payload (fields : List (String × Json)) : Json :=
  match field "payload" fields with
  | .null => .object []
  | .bool false => .object []
  | given => given

/-- The command of a kind, cast from its payload. -/
def castKind (kind : String) (payload : Json) : Except String Command :=
  if kind = "deploy" then library.castDeploy payload
  else if kind = "reload" then (library.castEmpty payload).map fun _ => .reload
  else if kind = "reregister" then (library.castEmpty payload).map fun _ => .reregister
  else (library.castEmpty payload).map fun _ => .status

def kinds : List String := ["deploy", "reload", "reregister", "status"]

def decodeRequest : Json → Except Invalid Request
  | .object fields =>
    match field "kind" fields with
    | .string kind =>
      if kind ∈ kinds then
        match castKind library kind (payload fields) with
        | .ok message => .ok ⟨field "id" fields, message⟩
        | .error reason => .error (.cast reason)
      else .error (.unknownKind kind)
    | _ => .error .missingKind
  | _ => .error .missingKind

end Requests

section Commands

/-- A stored subscription. -/
structure Subscription where
  sid : String
  seedType : String
  deriving DecidableEq, Repr

/-- What a command has done. -/
inductive Effect where
  /-- `Garden.Socket.deploy` -/
  | deploy (subscription : Subscription) (force : Bool)
  | requestReload
  | reregister
  deriving DecidableEq, Repr

structure PendingDeployment where
  seedSid : String
  seedUrl : String
  deriving DecidableEq, Repr

structure StatusReport where
  version : String
  activeDeployments : List String
  /-- Nil when the server could not be asked. -/
  pendingDeployments : Option (List PendingDeployment)
  credentialsRejectedAt : Option String
  deriving DecidableEq, Repr

/-- What comes of a command. -/
inductive Outcome where
  | ok (message : String)
  | error (message : String)
  | status (report : StatusReport)
  /-- The process of the connection dies. -/
  | crashed
  deriving DecidableEq, Repr

/-- Answer of `Garden.Socket.reregister`. -/
inductive Reregistration where
  | ok (gardenSid : String)
  | notRunning
  | failed (reason : String)
  | crashed
  deriving DecidableEq, Repr

/-- The garden as its commands find it. -/
structure Host where
  /-- Nil before any have been stored. -/
  subscriptions : Option (List Subscription)
  reregistration : Reregistration
  report : StatusReport

/-- `Garden.Socket.deploy`, which is a cast, and what `enqueue` says of it. -/
def enqueue (subscription : Subscription) (force : Bool) : List Effect × Outcome :=
  ([.deploy subscription force], .ok "deployment enqueued")

def deployCommand (subscriptions : List Subscription) (seedType sid : Option String) (force : Bool) :
    List Effect × Outcome :=
  match sid, seedType with
  | some sid, _ =>
    match subscriptions.find? (·.sid = sid) with
    | none => ([], .error ("subscription not found for sid " ++ sid))
    | some subscription => enqueue subscription force
  | none, some seedType =>
    match subscriptions.filter (·.seedType = seedType) with
    | [] => ([], .error "subscription not found")
    | [subscription] => enqueue subscription force
    | _ => ([], .error "multiple subscriptions matched")
  | none, none => ([], .error "deploy requires a seed_type or sid")

/-- `Garden.Admin.handle` -/
def handle (host : Host) : Command → List Effect × Outcome
  | .deploy none none _ => ([], .error "deploy requires a seed_type or sid")
  | .deploy seedType sid force =>
    match host.subscriptions with
    | none => ([], .crashed)
    | some subscriptions => deployCommand subscriptions seedType sid force
  | .reload => ([.requestReload], .ok "reload requested")
  | .reregister =>
    match host.reregistration with
    | .ok gardenSid => ([.reregister], .ok ("re-registered as " ++ gardenSid))
    | .notRunning => ([], .error "garden socket is not running")
    | .failed reason => ([.reregister], .error ("re-registration failed: " ++ reason))
    | .crashed => ([.reregister], .crashed)
  | .status => ([], .status host.report)

end Commands

section Connections

structure Creds where
  uid : ℕ
  gid : ℕ
  deriving DecidableEq, Repr

structure Policy where
  allowedUids : List ℕ
  allowedGids : List ℕ
  deriving DecidableEq, Repr

def authorized (creds : Creds) (policy : Policy) : Bool :=
  policy.allowedUids.contains creds.uid || policy.allowedGids.contains creds.gid

/-- The policy of a socket file with this owner and group. -/
def buildPolicy (uid gid : ℕ) : Policy := ⟨[0, uid].dedup, [gid]⟩

def maxLineBytes : ℕ := 65536

/-- Answer of `:gen_tcp.recv`. -/
inductive Recv where
  | line (bytes : List UInt8)
  | tooLong
  | failed (reason : String)

/-- A packet of a socket in line mode: the first line with its newline, if that is no longer than
a packet may be. -/
def recvLine (input : List UInt8) (ending : String) : Recv :=
  if newline ∈ input then
    if input.idxOf newline < maxLineBytes then .line (input.take (input.idxOf newline + 1))
    else .tooLong
  else if maxLineBytes < input.length then .tooLong
  else .failed ending

/-- What has come of a connection. -/
inductive Handled where
  | dispatch (id : Json) (outcome : Outcome)
  | replyError (message : String)
  | disconnect

inductive FrameKind where
  | ok
  | error
  | complete
  deriving DecidableEq, Repr

def FrameKind.text : FrameKind → String
  | .ok => "ok"
  | .error => "error"
  | .complete => "complete"

/-- A frame of a reply. -/
structure Frame where
  id : Json
  kind : FrameKind
  data : Option String := none
  status : Option StatusReport := none
  exitCode : Option ℤ := none

def pendingMap (pending : PendingDeployment) : Json :=
  .object [("seed_sid", .string pending.seedSid), ("seed_url", .string pending.seedUrl)]

/-- What is nil is null. -/
def orNull {α : Type} (json : α → Json) : Option α → Json
  | none => .null
  | some value => json value

def statusMap (report : StatusReport) : Json :=
  .object
    [("version", .string report.version),
      ("active_deployments", .array (report.activeDeployments.map .string)),
      ("pending_deployments", orNull (fun pending => .array (pending.map pendingMap))
        report.pendingDeployments),
      ("credentials_rejected_at", orNull .string report.credentialsRejectedAt)]

def Frame.fields (frame : Frame) : List (String × Json) :=
  [("v", .int 1), ("id", frame.id), ("kind", .string frame.kind.text)] ++
    (frame.data.map fun data => ("data", Json.string data)).toList ++
    (frame.status.map fun report => ("status", statusMap report)).toList ++
    (frame.exitCode.map fun code => ("exit_code", Json.int code)).toList

/-- The object of a frame. -/
def Frame.json (frame : Frame) : Json := .object frame.fields

/-- `send_frames` -/
def sendFrames (id : Json) (frame : Frame) : List Frame :=
  [frame, { id, kind := .complete, exitCode := some (if frame.kind = .ok then 0 else 1) }]

def emit : Handled → List Frame
  | .disconnect => []
  | .dispatch _ .crashed => []
  | .dispatch id (.ok message) => sendFrames id { id, kind := .ok, data := some message }
  | .dispatch id (.error message) => sendFrames id { id, kind := .error, data := some message }
  | .dispatch id (.status report) => sendFrames id { id, kind := .ok, status := some report }
  | .replyError message =>
    sendFrames (.string "") { id := .string "", kind := .error, data := some message }

/-- A connection as the socket finds it. -/
structure Connection where
  /-- What the kernel says of the peer. -/
  peercred : Except String Creds
  input : List UInt8
  /-- Why no line comes, where none does. -/
  ending : String

variable (library : Library) (host : Host)

def readRequest (connection : Connection) : Except (Option Invalid) Request :=
  match recvLine connection.input connection.ending with
  | .tooLong => .error none
  | .failed reason => .error (some (.recv reason))
  | .line bytes =>
    match library.decode (bytes.rdropWhile (· == newline)) with
    | .error reason => .error (some (.json reason))
    | .ok json =>
      match decodeRequest library json with
      | .error reason => .error (some reason)
      | .ok request => .ok request

def authorizedOutcome (connection : Connection) : List Effect × Handled :=
  match readRequest library connection with
  | .ok request =>
    let (effects, outcome) := handle host request.message
    (effects, .dispatch request.id outcome)
  | .error none => ([], .disconnect)
  | .error (some reason) => ([], .replyError ("invalid request: " ++ library.inspect reason))

/-- What a connection does and what it is answered. -/
def handleConnection (policy : Policy) (connection : Connection) : List Effect × List Frame :=
  let (effects, handled) :=
    match connection.peercred with
    | .ok creds =>
      if authorized creds policy then authorizedOutcome library host connection
      else ([], .replyError "unauthorized")
    | .error _ => ([], .replyError "unauthorized")
  (effects, emit handled)

end Connections

end Sower.Garden.Admin
