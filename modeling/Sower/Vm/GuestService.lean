import Sower.Lib.ProcessTree
import Sower.Vm.Guest

/-!
# Connections to the guest

A connection is served under a lock: the guest adopts the orphans of its children,
tells that it is ready, reads one request, spawns the command, runs the loop and
cleans up behind it. Where it cannot clean up it sets a flag that every later
connection reads before anything else.

The answers of the system come from the environment, and the list that gives them
may be used up anywhere.
-/

namespace Sower.Vm.GuestLoop

open Framing Stateful Protocol

section Request

/-- What surrounds every connection: the JSON library and the texts of errors. -/
structure Service where
  serde : Serde
  describe : IoError → String

/-- The command of a request. -/
structure Command where
  path : String
  args : List String
  env : List (String × String)
  /-- What the process reads from its standard input. -/
  input : List UInt8

def Json.array? : Json → Option (List Json)
  | .array values => some values
  | _ => none

def Json.object? : Json → Option (List (String × Json))
  | .object fields => some fields
  | _ => none

/-- The version of the answers is the first one as soon as the request names it. -/
def requestVersion (request : Json) : Version :=
  if (index request "version").int? = some 1 then .one else .two

def checkArg (arg : Json) : Except IoError String :=
  match arg.string? with
  | none => .error (.invalid "args must contain strings")
  | some arg => .ok arg

def checkVariable : String × Json → Except IoError (String × String)
  | (key, value) =>
    match value.string? with
    | none => .error (.invalid "env values must be strings")
    | some value => .ok (key, value)

/-- The part of `request` behind the parsing of JSON. -/
def checkRequest (serde : Serde) (request : Json) : Except IoError Command := do
  if (index request "type").string? ≠ some "execute" ∨
      ((index request "version").int? ≠ some 1 ∧ (index request "version").int? ≠ some 2) then
    throw (.invalid "expected execute request version 1 or 2")
  let some path := (index request "path").string?
    | throw (.invalid "path must be a string")
  if path.front ≠ '/' then throw (.invalid "path must be absolute")
  let some args := Json.array? (index request "args")
    | throw (.invalid "args must be an array")
  let some env := Json.object? (index request "env")
    | throw (.invalid "env must be an object")
  let some stdin := (Json.object? request).bind fun fields => fields.lookup "stdin"
    | throw (.invalid "stdin payload is required")
  let args ← args.mapM checkArg
  let env ← env.mapM checkVariable
  return ⟨path, args, env, serde.toVec stdin⟩

/-- Version of the answers, and the command. -/
def parseRequest (serde : Serde) (body : List UInt8) : Version × Except IoError Command :=
  match serde.fromSlice body with
  | none => (.two, .error .json)
  | some request => (requestVersion request, checkRequest serde request)

end Request

section Stream

/-- `read_exact`, with what the host has yet to send. -/
def readExact (length : ℕ) : Sys (List UInt8) :=
  if length = 0 then return []
  else ask .waiting fun answer g =>
    match answer with
    | .failed => (.error (.error .failed), g)
    | _ =>
      if g.incoming.length < length then (.error (.error .unexpectedEof), { g with incoming := [] })
      else (.ok (g.incoming.take length), { g with incoming := g.incoming.drop length })

/-- `write_all`: all of the bytes, or some of them where the stream fails. -/
def writeAll (bytes : List UInt8) : Sys PUnit :=
  ask .waiting fun answer g =>
    match answer with
    | .moved n =>
      if n < bytes.length then
        (.error (.error .failed), { g with written := g.written ++ bytes.take n })
      else (.ok ⟨⟩, { g with written := g.written ++ bytes })
    | _ => (.error (.error .failed), g)

/-- `metadata`: one frame. -/
def sendMetadata (serde : Serde) (message : GuestMessage) : Sys PUnit :=
  match frame 1 (serde.toVec message.json) with
  | .error message => throw (.error (.invalid message))
  | .ok bytes => writeAll bytes

/-- `request`. -/
def readRequest (serde : Serde) : Sys (Version × Except IoError Command) := do
  let header ← readExact 5
  match header? header with
  | none => throw .panicked
  | some (kind, length, _) =>
    if kind ≠ 1 ∨ maxFrame < length then
      return (.two, .error (.invalid "expected bounded execute metadata frame"))
    else do
      let body ← readExact length
      return parseRequest serde body

end Stream

section Connection

/-- What surrounds one connection: the bytes of the host, and what a process of the
command prints to each pipe. -/
structure Connection where
  host : List UInt8
  printed : Pipe → List UInt8

/-- The guest when it has accepted a connection. -/
def Connection.accepted (connection : Connection) (runtime : Runtime) : Guest where
  incoming := connection.host
  input := []
  stdout := none
  stderr := none
  runtime := runtime

/-- `Command::spawn`. -/
def spawn (connection : Connection) (command : Command) : Sys PUnit :=
  ask .waiting fun answer g =>
    match answer with
    | .failed => (.error (.error .failed), g)
    | _ =>
      (.ok ⟨⟩, record .spawned { g with
        input := command.input
        stdout := some (connection.printed .stdout)
        stderr := some (connection.printed .stderr) })

def rethrow {α : Type} : Except IoError α → Sys PUnit
  | .ok _ => return ⟨⟩
  | .error error => throw (.error error)

/-- What is left of a request that has been read: spawn, loop and cleanup. -/
def runCommand (service : Service) (connection : Connection) (version : Version)
    (command : Command) (fuel : ℕ) : Sys PUnit := do
  spawn connection command
  let result ← attempt Stop.error? (run service.serde version fuel)
  let g ← view
  if g.runtime.failed then
    rethrow result
  else
    -- The result of the loop is dropped here: the stream may end inside a frame.
    cleanup fuel

/-- Read a request and run its command. The version is known even where there is an error. -/
def execute (service : Service) (connection : Connection) (fuel : ℕ) :
    Sys (Version × Except IoError PUnit) := do
  match ← attempt Stop.error? (readRequest service.serde) with
  | .error error => return (.two, .error error)
  | .ok (version, .error error) => return (version, .error error)
  | .ok (version, .ok command) => do
    let result ← attempt Stop.error? (runCommand service connection version command fuel)
    return (version, result)

/-- `prctl`: adopt orphans. -/
def adopt : Sys PUnit :=
  ask .waiting fun answer g =>
    match answer with
    | .failed => (.error (.error .failed), uncertain g)
    | _ => (.ok ⟨⟩, record .adopting g)

/-- The message of an error, cut off. -/
def Service.message (service : Service) (error : IoError) : String :=
  String.ofList ((service.describe error).toList.take 4096)

/-- The end of a connection whose request has been served, or has not been. -/
def answer (service : Service) (version : Version) (result : Except IoError PUnit) :
    Sys PUnit := do
  let g ← view
  if g.runtime.failed then
    rethrow result
  else
    match result with
    | .ok _ => return ⟨⟩
    | .error error => do
      let message := GuestMessage.error version (service.message error)
      let _ ← attempt Stop.error? (sendMetadata service.serde message)
      return ⟨⟩

/-- `serve_connection` behind the lock. -/
def serveLocked (service : Service) (connection : Connection) (fuel : ℕ) : Sys PUnit := do
  let g ← view
  if g.runtime.failed then
    throw (.error .previouslyFailed)
  else do
    adopt
    match ← attempt Stop.error? (sendMetadata service.serde .ready) with
    | .error _ => return ⟨⟩
    | .ok _ => do
      let result ← execute service connection fuel
      answer service result.1 result.2

/-- `serve_connection`. The lock is poisoned where a connection before has panicked. -/
def serveConnection (service : Service) (connection : Connection) (poisoned : Bool) (fuel : ℕ) :
    Sys PUnit := do
  if poisoned then throw (.error .lockPoisoned)
  else serveLocked service connection fuel

/-- The static variables of the guest. -/
structure Statics where
  poisoned : Bool := false
  runtime : Runtime := {}

/-- Result of a connection, and the guest at its end. -/
def Service.serve (service : Service) (fuel : ℕ) (statics : Statics) (connection : Connection)
    (answers : List Answer) : Except Stop PUnit × Guest :=
  let ending := (serveConnection service connection statics.poisoned fuel).exec
    (answers, connection.accepted statics.runtime)
  (ending.1, ending.2.2)

/-- Static variables behind a connection. -/
def Statics.after (statics : Statics) (result : Except Stop PUnit) (g : Guest) : Statics where
  poisoned := statics.poisoned || result = .error .panicked
  runtime := g.runtime

/-- Static variables between connections. The lock has one connection end before the next
one begins. -/
inductive Service.Idle (service : Service) : Statics → Prop
  | start : Idle service {}
  | served {statics : Statics} (before : service.Idle statics) (fuel : ℕ)
      (connection : Connection) (answers : List Answer) {result : Except Stop PUnit} {g : Guest}
      (ending : service.serve fuel statics connection answers = (result, g))
      (returned : result ≠ .error .waiting) : Idle service (statics.after result g)

end Connection

section Kernel

/-- What the system knows of the guest and its descendants. -/
structure Kernel where
  adopts : Bool := false
  descendants : ProcessTree.Table ExitStatus := []
  /-- The root process of the last command. -/
  root : ℕ := 0

/-- What the system does and answers. -/
inductive Happens (k : Kernel) : Happening → Kernel → Prop
  | adopting : Happens k .adopting { k with adopts := true }
  | spawned {serial : ℕ} (fresh : ∀ e ∈ k.descendants, e.serial < serial) :
      Happens k .spawned { k with
        descendants := k.descendants ++ [⟨serial, .reaper, none⟩]
        root := serial }
  | child {target : Target} {z : ProcessTree.Entry ExitStatus} {status : ExitStatus}
      (member : z ∈ k.descendants) (owned : z.parent = .reaper) (ended : z.status = some status)
      (wanted : target = .root → z.serial = k.root) :
      Happens k (.waited target (.child (z.serial = k.root) status))
        { k with descendants := k.descendants.reaped z.serial }
  | none (target : Target) : Happens k (.waited target .none) k
  | noChildren {target : Target}
      (childless : target = .any → ∀ e ∈ k.descendants, e.parent ≠ .reaper) :
      Happens k (.waited target .noChildren) k
  | failed (target : Target) : Happens k (.waited target .failed) k
  | cleaned (succeeded : Bool) : Happens k (.cleaned succeeded) k

/-- Runs of the system along a history, with the descendants doing what they like between
the calls. -/
inductive Follows : Kernel → List Happening → Kernel → Prop
  | done (k : Kernel) : Follows k [] k
  | descend {k k' : Kernel} {descendants : ProcessTree.Table ExitStatus} {history : List Happening}
      (step : ProcessTree.Step k.adopts k.descendants descendants)
      (rest : Follows { k with descendants := descendants } history k') : Follows k history k'
  | happen {k k' k'' : Kernel} {happening : Happening} {history : List Happening}
      (call : Happens k happening k') (rest : Follows k' history k'') :
      Follows k (happening :: history) k''

end Kernel

end Sower.Vm.GuestLoop
