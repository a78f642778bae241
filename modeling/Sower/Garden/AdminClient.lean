import Mathlib.Algebra.Order.Ring.Int
import Sower.Garden.Admin

/-!
# The command line of the garden

`sower garden` sends one request to the admin socket and reads frames until one carries the
exit code that it ends with. It reads lines of a bounded length, however their bytes arrive.
-/

namespace Sower.Garden.Admin

open Activator.Transports

section Requests

/-- What may be asked for. -/
inductive GardenCommand where
  | trigger (seedType sid : Option String) (force : Bool)
  | reload
  | status
  | reregister
  deriving DecidableEq, Repr

def protocolVersion : ℤ := 1

/-- Fields of an object that are there. -/
def some? (key : String) (value : Option String) : List (String × Json) :=
  (value.map fun text => (key, Json.string text)).toList

/-- `DeployPayload` -/
def deployPayload (seedType sid : Option String) (force : Bool) : Json :=
  .object (some? "seed_type" seedType ++ some? "sid" sid ++ [("force", .bool force)])

/-- `Envelope` -/
def envelope (id kind : String) (payload : Option Json) : Json :=
  .object ([("v", .int protocolVersion), ("id", .string id), ("kind", .string kind)] ++
    (payload.map fun payload => ("payload", payload)).toList)

def deployRequest (id : String) (seedType sid : Option String) (force : Bool) : Json :=
  envelope id "deploy" (some (deployPayload seedType sid force))

def reloadRequest (id : String) : Json := envelope id "reload" none

def reregisterRequest (id : String) : Json := envelope id "reregister" none

def statusRequest (id : String) : Json := envelope id "status" none

/-- `encode`, for the text that `serde_json` writes. -/
def encode (write : Json → List UInt8) (envelope : Json) : Except String (List UInt8) :=
  if maxLineBytes < (write envelope).length then .error "request exceeds 65536 byte limit"
  else .ok (write envelope)

/-- The envelope of a command. -/
def GardenCommand.envelope (id : String) : GardenCommand → Json
  | .trigger seedType sid force => deployRequest id seedType sid force
  | .reload => reloadRequest id
  | .status => statusRequest id
  | .reregister => reregisterRequest id

def buildRequestLine (write : Json → List UInt8) (id : String) (command : GardenCommand) :
    Except String (List UInt8) :=
  if command matches .trigger none none _ then .error "trigger requires --type or --sid"
  else encode write (command.envelope id)

end Requests

section Replies

/-- A reply frame for the client. -/
structure Reply where
  kind : FrameKind
  data : Option String
  exitCode : Option ℤ
  status : Option StatusReport

end Replies

section Streaming

/-- A line that is shown, on one of the outputs. -/
inductive Shown where
  | out (line : String)
  | err (line : String)
  deriving DecidableEq, Repr

/-- A link that a terminal shows as its text. -/
def linked (pending : PendingDeployment) : String :=
  "\x1b]8;;" ++ pending.seedUrl ++ "\x1b\\" ++ pending.seedSid ++ "\x1b]8;;\x1b\\"

def writeStatus (status : StatusReport) : List Shown :=
  [.out ("version: " ++ status.version),
    .out (if status.activeDeployments = [] then "active deployments: none"
      else "active deployments: " ++ ", ".intercalate status.activeDeployments),
    .out (match status.pendingDeployments with
      | none => "pending deployments: unknown"
      | some [] => "pending deployments: none"
      | some pending => "pending deployments: " ++ ", ".intercalate (pending.map linked)),
    .out (match status.credentialsRejectedAt with
      | some at_ => "credentials: rejected at " ++ at_ ++
          ", awaiting operator re-registration (sower garden reregister)"
      | none => "credentials: ok")]

/-- Data that is not empty. -/
def written (data : Option String) : List String := data.toList.filter (· ≠ "")

def emitOk (reply : Reply) : List Shown :=
  (reply.status.map writeStatus).getD [] ++ (written reply.data).map .out

def emitError (reply : Reply) : List Shown := (written reply.data).map .err

/-- Why nothing more is read. -/
inductive ReadEnd where
  | eof
  | timedOut
  | failed (reason : String)
  deriving DecidableEq, Repr

/-- What is left to be read: what each read hands over, and how reading ends. -/
structure Incoming where
  chunks : List (List UInt8)
  ending : ReadEnd

end Streaming

end Sower.Garden.Admin
