import Sower.Lib.Traced
import Sower.Lib.Utf8
import Sower.Activator.Services
import Sower.Activator.Transports

/-!
# The activator's side of a request

One process of the activator serves one connection. It reads a line, decides whether the peer
may have it done and whether it makes sense, runs the commands and writes responses: what the
commands print while they run, and one that completes the request. A request that is refused
runs nothing and is not completed.
-/

namespace Sower.Activator.Handler

open Transports Traced

section Protocol

/-- `Request`, with the defaults of what is left out. -/
structure Request where
  id : String
  kind : String
  path : String := ""
  mode : String := ""
  reason : String := ""
  seeds : List SeedRef := []
  networkAction : Option String := none
  executionId : Option String := none
  lease : Option String := none
  deriving DecidableEq, Repr

/-- `ResponseType`. -/
inductive Kind where
  | output
  | error
  | complete
  deriving DecidableEq, Repr

/-- The lowercase name. -/
def Kind.text : Kind → String
  | .output => "output"
  | .error => "error"
  | .complete => "complete"

/-- `Response`. -/
structure Written where
  id : String
  kind : Kind
  data : String := ""
  exitCode : Option ℤ := none
  deriving DecidableEq, Repr

def Written.output (id data : String) : Written := { id, kind := .output, data }

def Written.error (id data : String) : Written := { id, kind := .error, data }

def Written.complete (id : String) (exitCode : ℤ) : Written :=
  { id, kind := .complete, exitCode := some exitCode }

/-- The fields of the object; empty data and a missing exit code are left out. -/
def Written.fields (response : Written) : List (String × Json) :=
  [("id", .string response.id), ("type", .string response.kind.text)] ++
    (if response.data = "" then [] else [("data", .string response.data)]) ++
    (response.exitCode.map fun code => ("exit_code", Json.int code)).toList

end Protocol

section Commands

structure Command where
  program : String
  args : List String
  deriving DecidableEq, Repr

def rebootCmd : Command := ⟨"systemctl", ["reboot"]⟩

def homeManagerCmd (storePath : String) : Command := ⟨storePath ++ "/activate", []⟩

def nixosProfileCmd (storePath : String) : Command :=
  ⟨"nix-env", ["--set", "--profile", "/nix/var/nix/profiles/system", storePath]⟩

def nixosSwitchCmd (storePath mode : String) : Command :=
  ⟨storePath ++ "/bin/switch-to-configuration", [mode]⟩

/-- A line for the callback. -/
structure Line where
  text : String
  isError : Bool
  deriving DecidableEq, Repr

/-- What the two pumps send, each line with its time, and who of them is first each time. -/
structure Printed where
  stdout : List String := []
  stderr : List String := []
  order : List Bool := []
  deriving DecidableEq, Repr

/-- The lines in the order in which they arrive; `true` is the turn of the error pipe. -/
def arrivals : List Bool → List String → List String → List Line
  | [], stdout, stderr => stdout.map (⟨·, false⟩) ++ stderr.map (⟨·, true⟩)
  | true :: order, stdout, line :: stderr => ⟨line, true⟩ :: arrivals order stdout stderr
  | false :: order, line :: stdout, stderr => ⟨line, false⟩ :: arrivals order stdout stderr
  | true :: order, stdout, [] => arrivals order stdout []
  | false :: order, [], stderr => arrivals order [] stderr

def Printed.lines (printed : Printed) : List Line :=
  arrivals printed.order printed.stdout printed.stderr

/-- `ExitStatus`: no code after a signal, and nothing at all if waiting fails. -/
inductive Exit where
  | code (value : ℤ)
  | signal
  | unknown
  deriving DecidableEq, Repr

/-- What becomes of a command. -/
inductive Attempt where
  | notSpawned
  | ran (printed : Printed) (exit : Exit)
  deriving DecidableEq, Repr

/-- Events of the log that are made while a request is served. -/
inductive LogEvent where
  | runningCommand (command : Command)
  | requestFailed (id kind error : String)
  deriving DecidableEq, Repr

/-- Whether the event has the error level. -/
def LogEvent.isError : LogEvent → Bool
  | .runningCommand _ => false
  | .requestFailed .. => true

/-- What a request does before it is completed: it runs commands and has lines for its
callback. -/
inductive Effect where
  | command (command : Command)
  | line (line : Line)
  deriving DecidableEq, Repr

end Commands

/-- The process that owns the other end of the socket. -/
structure PeerCredentials where
  pid : ℤ
  uid : ℕ
  gid : ℕ
  deriving DecidableEq, Repr

/-- The machine that the activator runs on. -/
structure Host where
  attempt : Command → Attempt
  /-- The line of an event, if its level is logged. -/
  logged : LogEvent → Option String
  /-- `services::run`, which has a model of its own. -/
  services : List SeedRef → Run Effect String ℤ
  /-- `network::request` for the configured policy. -/
  networkRequest : PeerCredentials → Request → Except String (Option String)
  /-- `serde_json::from_str`, which is not part of the repository. -/
  decode : List UInt8 → Option Request

section Running

variable (host : Host)

/-- `CallbackLayer::on_event`, between `set` and `clear` of the slot. -/
def logs (event : LogEvent) : List Effect :=
  ((host.logged event).map fun text => Effect.line ⟨text, event.isError⟩).toList

def stream (command : Command) : Run Effect String ℤ := do
  .performAll (logs host (.runningCommand command) ++ [.command command])
  match host.attempt command with
  | .notSpawned => .lift (.error "spawn child")
  | .ran printed exit => do
    .performAll (printed.lines.map .line)
    match exit with
    | .code value => return value
    | .signal => return 1
    | .unknown => .lift (.error "wait")

/-- `activate::run`. -/
def run (request : Request) : Run Effect String ℤ :=
  if request.kind = "reboot" then stream host rebootCmd
  else if request.kind = "home-manager" then stream host (homeManagerCmd request.path)
  else if request.kind = "nixos" then do
    let exit ← stream host (nixosProfileCmd request.path)
    if exit ≠ 0 then return exit
    else stream host (nixosSwitchCmd request.path request.mode)
  else if request.kind = "services" then host.services request.seeds
  else .lift (.error ("unsupported seed type: " ++ request.kind))

end Running

section Validation

def validModes : List String := ["switch", "boot", "test", "dry-activate"]

def validateStorePath (path : String) : Except String Unit :=
  if "/nix/store/".toList.isPrefixOf path.toList = false then .error "path must be in /nix/store"
  else if (path.toList.splitOn '/').any (· == "..".toList) then .error "invalid path"
  else .ok ()

def validateSeeds : List SeedRef → Except String Unit
  | [] => .ok ()
  | seed :: seeds => do
    if seed.name = "" then .error "seed name must not be empty"
    validateStorePath seed.path
    validateSeeds seeds

def validate (request : Request) : Except String Unit := do
  if request.id = "" then .error "missing request ID"
  if request.kind = "reboot" then return
  if request.kind = "services" then
    if request.seeds = [] then .error "services request requires at least one seed"
    validateSeeds request.seeds
  else
    if request.kind ≠ "nixos" ∧ request.kind ≠ "home-manager" then
      .error ("invalid type: " ++ request.kind)
    validateStorePath request.path
    if request.kind = "nixos" ∧ request.mode ∉ validModes then
      .error ("invalid mode: " ++ request.mode)

end Validation

section Serving

/-- What the handler does. -/
inductive Event where
  | command (command : Command)
  | respond (response : Written)
  deriving DecidableEq, Repr

/-- The callback of a request: the lines become responses. -/
def Effect.event (id : String) : Effect → Event
  | .command asked => .command asked
  | .line said => .respond (if said.isError then .error id said.text else .output id said.text)

/-- Who may have what done, for a socket with a network policy. -/
structure NetworkContext where
  peer : PeerCredentials
  activationAuthorized : Bool
  deriving DecidableEq, Repr

variable (host : Host)

/-- The line that is read first; none if reading fails. -/
def readRequest (input : Option (List UInt8)) : Except String Request :=
  match input with
  | none => .error "read request"
  | some bytes =>
    let line := bytes.takeWhile (· != newline) ++ (if newline ∈ bytes then [newline] else [])
    if line.toByteArray.validateUTF8 = false then .error "read request"
    else if line = [] then .error "empty request"
    else
      match host.decode line with
      | some request => .ok request
      | none => .error "invalid JSON"

def serveNetwork (network : Option NetworkContext) (request : Request) : List Event :=
  let result : Except String (Option String) := do
    if request.id = "" then .error "missing request ID"
    match network with
    | none => .error "network requests require an authorized socket and network policy"
    | some context => host.networkRequest context.peer request
  match result with
  | .ok output =>
    (output.map fun data => Event.respond (.output request.id data)).toList ++
      [.respond (.complete request.id 0)]
  | .error error =>
    [.respond (.error request.id error), .respond (.complete request.id 1)]

/-- What comes of the commands: lines behind them, and the exit code. -/
def conclude (request : Request) : Except String ℤ → List Effect × ℤ
  | .ok code => ([], code)
  | .error error =>
    (logs host (.requestFailed request.id request.kind error) ++ [.line ⟨error, true⟩], 1)

/-- Run a request that has passed validation, and complete it. -/
def serveActivation (request : Request) : List Event :=
  let attempt := run host request
  let (further, code) := conclude host request attempt.ending
  (attempt.effects ++ further).map (Effect.event request.id) ++
    [.respond (.complete request.id code)]

/-- `run_with_network`. -/
def runWithNetwork (network : Option NetworkContext) (input : Option (List UInt8)) : List Event :=
  match readRequest host input with
  | .error error => [.respond (.error "" error)]
  | .ok request =>
    if request.kind = "network" then serveNetwork host network request
    else if network.any (!·.activationAuthorized) then [.respond (.error "" "unauthorized")]
    else
      match validate request with
      | .error error => [.respond (.error request.id error)]
      | .ok _ => serveActivation host request

def isAuthorized (creds : PeerCredentials) (allowedGids : List ℕ) : Bool :=
  creds.uid == 0 || allowedGids.contains creds.gid

/-- `is_authorized_socket`, for the groups that the kernel reports. -/
def isAuthorizedSocket (groups : Except String (List ℕ)) (creds : PeerCredentials)
    (allowedGids : List ℕ) : Except String Bool :=
  if isAuthorized creds allowedGids then .ok true
  else groups.map fun groups => groups.any (allowedGids.contains ·)

/-- What the kernel says about a connection. -/
structure Connection where
  /-- Whether the activator runs as root. -/
  root : Bool
  creds : Option PeerCredentials
  groups : Except String (List ℕ)
  input : Option (List UInt8)

/-- Serve a peer by what it may have done. -/
def serveConnection (creds : PeerCredentials) (activationAuthorized networkAuthorized : Bool)
    (input : Option (List UInt8)) : List Event :=
  if activationAuthorized = false ∧ networkAuthorized = false then
    [.respond (.error "" "unauthorized")]
  else
    let network :=
      if networkAuthorized then some (NetworkContext.mk creds activationAuthorized) else none
    runWithNetwork host network input

/-- `run_socket`: what is done for a connection, and whether a network policy is configured. -/
def runSocket (allowedGids : List ℕ) (policy : Bool) (connection : Connection) :
    Except String (List Event) :=
  if connection.root = false then .error "activator must be run as root in socket mode"
  else
    match connection.creds with
    | none => .ok [.respond (.error "" "failed to get peer credentials")]
    | some creds =>
      let activationAuthorized := isAuthorized creds allowedGids
      let networkAuthorized :=
        if policy then isAuthorizedSocket connection.groups creds allowedGids else .ok false
      networkAuthorized.map fun networkAuthorized =>
        serveConnection host creds activationAuthorized networkAuthorized connection.input

/-- `run_pipe`. -/
def runPipe (input : Option (List UInt8)) : List Event := runWithNetwork host none input

end Serving

section Plans

/-- The commands of a request, in their order. -/
def plan (request : Request) : List Command :=
  if request.kind = "reboot" then [rebootCmd]
  else if request.kind = "home-manager" then [homeManagerCmd request.path]
  else if request.kind = "nixos" then
    [nixosProfileCmd request.path, nixosSwitchCmd request.path request.mode]
  else []

/-- How one command ends. -/
def Attempt.result : Attempt → Except String ℤ
  | .notSpawned => .error "spawn child"
  | .ran _ (.code value) => .ok value
  | .ran _ .signal => .ok 1
  | .ran _ .unknown => .error "wait"

/-- How commands end that are run until one does not exit with zero. -/
def inTurn (attempt : Command → Attempt) : List Command → Except String ℤ
  | [] => .ok 0
  | command :: commands =>
    if (attempt command).result = .ok 0 then inTurn attempt commands
    else (attempt command).result

/-- The commands that are run until one does not exit with zero. -/
def tried (attempt : Command → Attempt) : List Command → List Command
  | [] => []
  | command :: commands =>
    command :: if (attempt command).result = .ok 0 then tried attempt commands else []

variable {attempt : Command → Attempt} {commands : List Command}

end Plans

section Meaning

def Effect.command? : Effect → Option Command
  | .command asked => some asked
  | .line _ => none

def Effect.line? : Effect → Option Line
  | .command _ => none
  | .line said => some said

def Event.command? : Event → Option Command
  | .command asked => some asked
  | .respond _ => none

def Event.response? : Event → Option Written
  | .command _ => none
  | .respond response => some response

/-- The commands that are run. -/
def commands (events : List Event) : List Command := events.filterMap Event.command?

/-- The responses that are written. -/
def responses (events : List Event) : List Written := events.filterMap Event.response?

/-- A line as a response to the request. -/
def Line.response (id : String) (line : Line) : Written :=
  if line.isError then .error id line.text else .output id line.text

variable {host : Host} {request : Request} {network : Option NetworkContext}

/-- The kinds of requests that the commands of a plan belong to. -/
def Request.activates (request : Request) : Bool :=
  request.kind = "reboot" || request.kind = "home-manager" || request.kind = "nixos"

/-- The lines of each pipe stay in their order. -/
theorem arrivals_filter (order : List Bool) (stdout stderr : List String) :
    ((arrivals order stdout stderr).filter (!·.isError)).map Line.text = stdout ∧
      ((arrivals order stdout stderr).filter (·.isError)).map Line.text = stderr := by
  induction order, stdout, stderr using arrivals.induct with
  | case1 stdout stderr =>
    simp [arrivals, List.filter_map, Function.comp_def]
  | case2 order stdout line stderr ih =>
    simpa [arrivals] using ih
  | case3 order line stdout stderr ih =>
    simpa [arrivals] using ih
  | case4 order stdout ih => simpa [arrivals] using ih
  | case5 order stderr ih => simpa [arrivals] using ih

/-- The lines that a request has for its callback, those of its failure with them. -/
def shownLines (host : Host) (request : Request) : List Line :=
  ((run host request).effects ++ (conclude host request (run host request).ending).1).filterMap
    Effect.line?

/-- The exit code of an ending; a request that fails has the code one. -/
def exitCode : Except String ℤ → ℤ
  | .ok code => code
  | .error _ => 1

end Meaning

section Containment

variable {host : Host} {request : Request}

/-- Where a path leads that is followed part by part: a dot stays, two dots go up. -/
def follow (reached : List (List Char)) (part : List Char) : List (List Char) :=
  if part = [] ∨ part = ".".toList then reached
  else if part = "..".toList then reached.dropLast
  else reached ++ [part]

/-- The directories that an absolute path goes down, whatever it looks like. -/
def followed (path : String) : List (List Char) := (path.toList.splitOn '/').foldl follow []

end Containment

end Sower.Activator.Handler
