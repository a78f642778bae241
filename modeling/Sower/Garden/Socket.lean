import Sower.Garden.Deployer

/-!
# The garden's socket process

The socket process receives deployments, starts one task for each and reports
the result the task sends back. It handles its mailbox in order. Most handlers
insist on a successful push: where the private topic is not joined, the failed
match ends the process, and its supervisor restarts it with the initial state
and an empty mailbox. The tasks run under a supervisor of their own and reach
whichever process carries the registered name when they finish.
-/

namespace Sower.Garden.Socket

open Sower.Calendar Sower.Wire

/-- What calls and casts of other processes ask the socket to push. -/
inductive Request where
  | seedStatus (seed : Sid) (status : SeedStatus)
  | seedResult (seed : Sid) (result : Option SeedResult)
  | deploymentRequest (subscription : Sid) (force : Bool)
  | syncSubscriptions
  /-- Not pushed when no profile is found. -/
  | reportSeeds
  | reportGarden
  deriving DecidableEq, Repr

/-- What reaches the mailbox from the server, the connection and other processes. -/
inductive Incoming where
  | lobbyJoined
  | privateJoined
  | disconnected
  /-- A deployment event; nil when its payload cannot be cast. -/
  | deployment (payload : Option Deployment)
  | request (request : Request)
  deriving DecidableEq, Repr

/-- Number of a task; the source's messages do not carry it. -/
abbrev RunId := ℕ

/-- A task that finished: which one, for which deployment, with which result. -/
structure Outcome where
  run : RunId
  sid : Sid
  result : DeploymentResult
  deriving DecidableEq, Repr

/-- Messages of the mailbox. -/
inductive Message where
  | incoming (event : Incoming)
  /-- Sent by the process to itself for a newly received deployment. -/
  | runDeployment (sid : Sid)
  /-- Sent by a task that finished. -/
  | deploymentCompleted (outcome : Outcome)
  deriving DecidableEq, Repr

/-- The result event pushed to the server. -/
structure Report where
  requestId : Option Sid
  outcome : Outcome
  deployedAt : DateTime
  deriving DecidableEq, Repr

/-- Events pushed on the private topic. -/
inductive Push where
  | acknowledged (sid : Sid)
  | request (request : Request)
  | result (report : Report)
  deriving DecidableEq, Repr

/-- A running task. -/
structure Run where
  id : RunId
  sid : Sid
  deriving DecidableEq, Repr

/-- State of the socket process. -/
structure Process where
  /-- Whether the lobby has told the process which garden it is. -/
  identified : Bool := false
  /-- Whether the private topic is joined. -/
  joined : Bool := false
  /-- Deployments in flight, one for each identifier. -/
  activeDeployments : List Deployment := []
  mailbox : List Message := []
  deriving DecidableEq, Repr

/-- The garden as far as deployments are concerned. -/
structure World where
  process : Process := {}
  /-- Tasks that have not finished. -/
  running : List Run := []
  /-- Number of the next task. -/
  nextRun : RunId := 0
  /-- Successful pushes in order. -/
  pushed : List Push := []
  /-- Every task that has finished, in order. -/
  finished : List Outcome := []
  deriving DecidableEq, Repr

section Lifecycle

/-- Answer of `receive_deployment`. -/
inductive Receipt where
  | enqueue (activeDeployments : List Deployment)
  | duplicate
  | skipped

/-- `lookup_deployment`. -/
def lookupDeployment (sid : Sid) (activeDeployments : List Deployment) : Option Deployment :=
  activeDeployments.find? (·.sid = sid)

def receiveDeployment (deployment : Deployment) (activeDeployments : List Deployment) : Receipt :=
  if deployment.skipped then .skipped
  else match lookupDeployment deployment.sid activeDeployments with
    | some _ => .duplicate
    | none => .enqueue (activeDeployments ++ [deployment])

/-- `complete_deployment`: the result event and what stays in flight. -/
def completeDeployment (outcome : Outcome) (now : DateTime) (activeDeployments : List Deployment) :
    Option (Report × List Deployment) :=
  (lookupDeployment outcome.sid activeDeployments).map fun deployment =>
    (⟨deployment.requestId, outcome, now⟩,
      activeDeployments.filter (·.sid ≠ outcome.sid))

end Lifecycle

section Handlers

/-- `{:ok, _} = push(...)`: a push that fails ends the process. -/
def pushMessage (world : World) (push : Push) : Option World :=
  if world.process.joined then some { world with pushed := world.pushed ++ [push] } else none

/-- Put a message behind the mailbox of the current process. -/
def World.send (world : World) (message : Message) : World :=
  { world with
    process := { world.process with mailbox := world.process.mailbox ++ [message] } }

/-- Start the task of a deployment. -/
def startTask (world : World) (sid : Sid) : World :=
  { world with
    running := world.running ++ [⟨world.nextRun, sid⟩]
    nextRun := world.nextRun + 1 }

/-- What a handler reads besides the state. -/
structure Reading where
  /-- The clock. -/
  now : DateTime
  /-- Whether profiles are found for the stored subscriptions. -/
  profilesFound : Bool := true
  deriving DecidableEq, Repr

def handleIncoming (world : World) (reading : Reading) : Incoming → Option World
  | .lobbyJoined => some { world with process := { world.process with identified := true } }
  | .privateJoined =>
    let joined := { world with process := { world.process with joined := true } }
    some (((joined.send (.incoming (.request .syncSubscriptions))).send
      (.incoming (.request .reportSeeds))).send (.incoming (.request .reportGarden)))
  | .disconnected => some { world with process := { world.process with joined := false } }
  | .deployment payload =>
    if world.process.identified then
      match payload with
      | none => some world
      | some deployment =>
        match receiveDeployment deployment world.process.activeDeployments with
        | .enqueue activeDeployments =>
          let enqueued := world.send (.runDeployment deployment.sid)
          some { enqueued with
            process := { enqueued.process with activeDeployments := activeDeployments } }
        | .duplicate => some world
        | .skipped => some world
    else some world
  | .request request =>
    if request = .reportSeeds ∧ reading.profilesFound = false then some world
    else pushMessage world (.request request)

/-- Handle one message; nil when a failed match ends the process. -/
def handle (world : World) (reading : Reading) : Message → Option World
  | .incoming event => handleIncoming world reading event
  | .runDeployment sid =>
    match lookupDeployment sid world.process.activeDeployments with
    | none => some world
    | some deployment => do
      let acknowledged ← pushMessage world (.acknowledged deployment.sid)
      return startTask acknowledged deployment.sid
  | .deploymentCompleted outcome =>
    match completeDeployment outcome reading.now world.process.activeDeployments with
    | none => some world
    | some (report, activeDeployments) => do
      let reported ← pushMessage world (.result report)
      let reporting := reported.send (.incoming (.request .reportSeeds))
      return { reporting with
        process := { reporting.process with activeDeployments := activeDeployments } }

/-- The supervisor starts a new process; tasks and pushes are not its state. -/
def World.restart (world : World) : World := { world with process := {} }

end Handlers

section Steps

/-- What happens next. -/
inductive Event where
  /-- Something from outside reaches the mailbox. -/
  | deliver (event : Incoming)
  /-- The process handles its first message. -/
  | handle (reading : Reading)
  /-- A task finishes. -/
  | finish (run : RunId) (ending : Except Deployer.Stop DeploymentResult)
  deriving Repr

/-- The task rescues and catches everything its run may end with. -/
def taskResult : Except Deployer.Stop DeploymentResult → DeploymentResult
  | .ok result => result
  | .error _ => .failure

/-- The first message is taken out of the mailbox before it is handled. -/
def World.handleFirst (world : World) (reading : Reading) : World :=
  match world.process.mailbox with
  | [] => world
  | message :: rest =>
    let taken := { world with process := { world.process with mailbox := rest } }
    (handle taken reading message).getD taken.restart

/-- A finished task sends its result to the registered name. -/
def World.finishRun (world : World) (run : Run) (result : DeploymentResult) : World :=
  let outcome : Outcome := ⟨run.id, run.sid, result⟩
  let ended := { world with
    running := world.running.erase run
    finished := world.finished ++ [outcome] }
  ended.send (.deploymentCompleted outcome)

def World.step (world : World) : Event → World
  | .deliver event => world.send (.incoming event)
  | .handle reading => world.handleFirst reading
  | .finish run ending =>
    match world.running.find? (·.id = run) with
    | none => world
    | some run => world.finishRun run (taskResult ending)

/-- The garden after a list of events. -/
def World.exec (world : World) (events : List Event) : World := events.foldl World.step world

end Steps

end Sower.Garden.Socket
