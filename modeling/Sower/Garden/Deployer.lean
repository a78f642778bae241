import Sower.Lib.Traced
import Sower.Wire

/-!
# The garden's deployer

One run realises and activates the seeds of a deployment, reports a result for
each of them and finally decides about a reboot. The seeds are handled by
concurrent tasks; what the machine, the stored subscriptions and the clock
answer to a task is the world of that seed.
-/

namespace Sower.Garden.Deployer

open Sower.Calendar Sower.Policy Sower.Wire

/-- The parts of the garden's configuration that decide about direct actions. -/
structure Config where
  policy : Rules := .map []
  timezone : Option String := none
  deriving DecidableEq, Repr

/-- What the run does to the outside. -/
inductive Effect where
  /-- Status of a seed, cast to the socket. -/
  | status (seed : Sid) (status : SeedStatus)
  /-- Result of a seed with its log lines; nil only appends to the log. -/
  | result (seed : Sid) (result : Option SeedResult) (log : List String)
  /-- The activator is asked to activate the closure of the seed. -/
  | activate (seed : Sid) (mode : String)
  /-- A reboot of the machine is requested. -/
  | reboot (reason : String)
  deriving DecidableEq, Repr

/-- Why a task ends without a value. -/
inductive Stop where
  /-- It raised or exited. -/
  | exited
  /-- It was killed at the time limit, which ends the whole run. -/
  | killed
  deriving DecidableEq, Repr

/-- What a call outside the deployer comes back with, if it comes back. -/
inductive Answer (α : Type) where
  | returned (value : α)
  | exited
  | killed
  deriving DecidableEq, Repr

/-- A step of a run. -/
abbrev Step := Traced.Run Effect Stop

/-- Wait for an outside call. -/
def await {α : Type} : Answer α → Step α
  | .returned value => pure value
  | .exited => .lift (.error .exited)
  | .killed => .lift (.error .killed)

/-- Evaluating a policy that cannot be read raises. -/
def orRaise {α : Type} : Except Raise α → Step α
  | .ok value => pure value
  | .error _ => .lift (.error .exited)

/-- Outcome of realising a closure, with the output of the command. -/
inductive Realization where
  | ok (output : List String)
  | failed (output : List String)
  deriving DecidableEq, Repr

/-- Answer of the activator. -/
inductive Activation where
  | ok (output : List String)
  /-- The activation itself failed with an exit code. -/
  | failed (code : ℤ) (output : List String)
  /-- The activator could not be used. -/
  | error (reason : String)
  deriving DecidableEq, Repr

/-- Everything the task of one seed reads from outside. -/
structure SeedWorld where
  /-- Answer of the store to the realisation. -/
  realized : Answer Realization := .returned (.ok [])
  /-- Subscriptions in the garden's storage when the seed's one is looked up. -/
  subscriptions : List Subscription := []
  config : Config := {}
  /-- Clock when the action is resolved. -/
  now : DateTime
  /-- Answer of the activator. -/
  activated : Answer Activation := .returned (.ok [])
  /-- Whether the socket answers to the report of the result. -/
  reported : Answer Unit := .returned ()

/-- What is fixed for the host during a run. -/
structure Host where
  tzdb : TimeZoneDatabase
  /-- Activation is disabled only for tests. -/
  activationEnabled : Bool := true
  /-- Home directory, as the parts of its path. -/
  home : List String := ["root"]

section Resolve

variable (tzdb : TimeZoneDatabase)

/-- Answer of `resolve_action`. -/
inductive Resolved where
  | action (action : Option Action)
  | unsupportedAction
  deriving DecidableEq, Repr

/-- Nil actions retain subscription policy. Direct actions are locally clamped
unless the server authorized an override of deployment policy. -/
def resolveAction (config : Config) (now : DateTime) (seedDeploy : SeedDeployment)
    (subscription : Subscription) : Except Raise Resolved :=
  match seedDeploy.action with
  | none => do
    let action ← highestPermittedAction tzdb subscription.policy now subscription.seedType
      subscription.timezone
    return .action action
  | some action =>
    if seedDeploy.override then
      match Action.ofName? action with
      | some named =>
        if named ∈ actionsBySeedType (some seedDeploy.seed.seedType) then .ok (.action (some named))
        else .ok .unsupportedAction
      | none => .ok .unsupportedAction
    else do
      let permitted ← highestPermittedAction tzdb config.policy now (some seedDeploy.seed.seedType)
        config.timezone
      return .action (some ((clampAction (some action) permitted).getD .stage))

/-- The stored subscription of a seed. -/
def findSubscription (subscriptions : List Subscription) (sid : Option Sid) : Option Subscription :=
  subscriptions.find? (·.sid = sid)

/-- Mode the activator is called with; nil skips the activation. -/
def actionToMode : Option Action → String → Option String
  | some .restart, _ => some "boot"
  | some .activate, seedType => if seedType = "service" then some "restart" else some "switch"
  | some .stage, _ => none
  | none, _ => some "switch"

end Resolve

section Seeds

/-- Seed types whose activation can require a reboot. -/
def rebootable (seedType : String) : Bool := seedType = "nixos"

/-- `Garden.Seed.run_activation`. -/
def runActivation (host : Host) (world : SeedWorld) (seed : Seed) (mode : String) :
    Step Activation :=
  if host.activationEnabled then do
    .perform (.activate seed.sid mode)
    await world.activated
  else return .ok ["noop"]

/-- `Garden.Seed.activate`: only two seed types have a clause. The one for
home-manager drops the mode. -/
def activateSeed (host : Host) (world : SeedWorld) (seed : Seed) (mode : String) :
    Step Activation :=
  if seed.seedType = "home-manager" ∨ seed.seedType = "nixos" then
    runActivation host world seed mode
  else .lift (.error .exited)

def decisionLine (message : String) : String := "[garden] " ++ message

def describe (seed : Seed) : String := seed.name ++ " (" ++ seed.seedType ++ ")"

/-- Report a result of the seed and wait for the socket. -/
def reportSeedResult (world : SeedWorld) (seed : Seed) (result : SeedResult) (log : List String) :
    Step Unit := do
  .perform (.result seed.sid (some result) log)
  await world.reported

/-- What the stream of tasks yields for a seed that did not end the run. -/
inductive Upgrade where
  /-- Staged or activated, with the action of a direct deployment. -/
  | resolved (result : Activation) (directAction : Option Action)
  | unsupportedAction
  | failedToRealize
  /-- The task that realised the closure exited. -/
  | notRealized
  /-- The task that activated the closure exited. -/
  | exited
  deriving DecidableEq, Repr

/-- First stage: download the closure. -/
def realizeTask (world : SeedWorld) (seed : Seed) : Step Realization := do
  .perform (.status seed.sid .downloading)
  await world.realized

/-- Report what the activator answered. A reason that is neither a missing
activator nor a missing command is not reported. -/
def reportActivation (world : SeedWorld) (seed : Seed) (preamble : List String) :
    Activation → Step Unit
  | .ok output => do
    .perform (.status seed.sid .completed)
    reportSeedResult world seed .success (preamble ++ output)
  | .failed _ output => reportSeedResult world seed .failure (preamble ++ output)
  | .error reason =>
    if reason = "activator_unavailable" ∨ reason = "cmd_not_found" then
      reportSeedResult world seed .failure (preamble ++
        ["FATAL: missing activator executable sower-activator; deployment cannot continue"])
    else pure ()

/-- Activate a seed in the given mode and report the answer. -/
def activateAndReport (host : Host) (world : SeedWorld) (seed : Seed) (mode : String)
    (preamble : List String) : Step Activation := do
  .perform (.status seed.sid .activating)
  let result ← activateSeed host world seed mode
  reportActivation world seed preamble result
  return result

/-- Skip the activation of a seed that is only to be staged. -/
def stageOnly (world : SeedWorld) (seed : Seed) (preamble : List String) : Step Activation := do
  .perform (.status seed.sid .completed)
  reportSeedResult world seed .success
    (preamble ++ [decisionLine ("staged " ++ describe seed ++ ", activation not permitted")])
  return .ok ["staged"]

/-- Activate the seed in the mode of the action, or only stage it. -/
def executeAction (host : Host) (world : SeedWorld) (seed : Seed) (action : Option Action)
    (preamble : List String) : Step Activation :=
  match actionToMode action seed.seedType with
  | none => stageOnly world seed preamble
  | some mode => activateAndReport host world seed mode (preamble ++
      [decisionLine ("activating " ++ describe seed ++ " with mode: " ++ mode)])

/-- Second stage for a realised closure. -/
def activateTask (host : Host) (world : SeedWorld) (seedDeploy : SeedDeployment)
    (downloadOutput : List String) : Step Upgrade := do
  let seed := seedDeploy.seed
  let subscription :=
    (findSubscription world.subscriptions seedDeploy.subscriptionSid).getD {}
  let preamble := decisionLine ("downloading " ++ describe seed) :: downloadOutput ++
    [decisionLine ("realized " ++ describe seed)]
  match ← orRaise (resolveAction host.tzdb world.config world.now seedDeploy subscription) with
  | .action action => do
    let result ← executeAction host world seed action preamble
    let directAction :=
      if seedDeploy.action ≠ none ∧ rebootable seed.seedType then action else none
    return .resolved result directAction
  | .unsupportedAction => do
    reportSeedResult world seed .failure (preamble ++
      [decisionLine ("action " ++ seedDeploy.action.getD "" ++ " is not supported for " ++
        seed.seedType)])
    return .unsupportedAction

/-- Second stage for a closure that could not be realised. -/
def failTask (world : SeedWorld) (seed : Seed) (downloadOutput : List String) : Step Upgrade := do
  reportSeedResult world seed .failure
    (decisionLine ("downloading " ++ describe seed) :: downloadOutput ++
      [decisionLine ("realization failed for " ++ describe seed)])
  return .failedToRealize

/-- Both stages of one seed. The second one also runs behind a first one that
exited, but not behind one that was killed. -/
def upgradeSeed (host : Host) (world : SeedWorld) (seedDeploy : SeedDeployment) : Step Upgrade :=
  let first := realizeTask world seedDeploy.seed
  let second : Step Upgrade := match first.ending with
    | .ok (.ok output) => activateTask host world seedDeploy output
    | .ok (.failed output) => failTask world seedDeploy.seed output
    | .error .exited => pure .notRealized
    | .error .killed => .lift (.error .killed)
  ⟨first.effects ++ second.effects, second.ending⟩

/-- The stream's item for a task: an exit becomes an item, a kill ends the run. -/
def streamItem : Except Stop Upgrade → Except Stop Upgrade
  | .ok upgrade => .ok upgrade
  | .error .exited => .ok .exited
  | .error .killed => .error .killed

/-- The tasks of all seeds, each in its own world. -/
def seedTasks (host : Host) (worlds : ℕ → SeedWorld) (deployment : Deployment) :
    List (Step Upgrade) :=
  deployment.seedDeployments.mapIdx fun i seedDeploy => upgradeSeed host (worlds i) seedDeploy

/-- Run the tasks of all seeds. Effects of different seeds come in any order;
here they stand in the order of the seeds. -/
def upgradeWithActions (host : Host) (worlds : ℕ → SeedWorld) (deployment : Deployment) :
    Step (List Upgrade) :=
  let tasks := seedTasks host worlds deployment
  ⟨tasks.flatMap (·.effects), tasks.mapM fun task => streamItem task.ending⟩

/-- `{:ok, {:ok, _}}`. -/
def Upgrade.succeeded : Upgrade → Bool
  | .resolved (.ok _) _ => true
  | _ => false

/-- Overall result over the seeds. -/
def deploymentResult (upgrades : List Upgrade) : DeploymentResult :=
  if upgrades.all Upgrade.succeeded then .success
  else if upgrades.any Upgrade.succeeded then .partialSuccess
  else .failure

/-- A direct action that resolved to a restart and was carried out. -/
def Upgrade.directRestart : Upgrade → Bool
  | .resolved (.ok _) (some .restart) => true
  | _ => false

end Seeds

section Links

/-- An absolute path by its parts. -/
abbrev Path := List String

/-- Text of a link: whether it is absolute, and its parts between slashes. -/
structure LinkTarget where
  absolute : Bool
  parts : List String
  deriving DecidableEq, Repr

/-- Answer of the file system to reading a link. -/
inductive LinkReading where
  | target (target : LinkTarget)
  /-- `einval`: the path is no link. -/
  | notALink
  | failed (reason : String)
  deriving DecidableEq, Repr

/-- Why a chain of links could not be followed. -/
inductive LinkError where
  | symlinkLoop (path : Path)
  | symlinkDepthExceeded (path : Path)
  | unreadable (path : Path) (reason : String)
  deriving DecidableEq, Repr

/-- Remove dots from the parts of a path, behind the reversed parts so far. -/
def expandDots : List String → List String → Path
  | acc, [] => acc.reverse
  | acc, part :: rest =>
    if part = "" ∨ part = "." then expandDots acc rest
    else if part = ".." then expandDots acc.tail rest
    else expandDots (part :: acc) rest

/-- `Path.expand` of a link's text, behind the directory of the link. -/
def resolveLinkTarget (home : Path) (target : LinkTarget) (path : Path) : Path :=
  if target.absolute then expandDots [] target.parts
  else match target.parts with
    | "~" :: rest => expandDots home.reverse rest
    | parts => expandDots path.dropLast.reverse parts

/-- Whether the path lies inside the store. -/
def inStore : Path → Bool
  | "nix" :: "store" :: _ :: _ => true
  | _ => false

/-- Follow links until the store, a plain file or an error. The first argument
counts the links that may still be read. -/
def resolveSymlink (home : Path) (readLink : Path → LinkReading) :
    ℕ → Path → List Path → Except LinkError Path
  | remaining, path, visited =>
    if inStore path then .ok path
    else if path ∈ visited then .error (.symlinkLoop path)
    else match remaining with
      | 0 => .error (.symlinkDepthExceeded path)
      | n + 1 => match readLink path with
        | .target target =>
          resolveSymlink home readLink n (resolveLinkTarget home target path) (path :: visited)
        | .notALink => .ok path
        | .failed reason => .error (.unreadable path reason)

def resolvedSymlink (home : Path) (readLink : Path → LinkReading) (path : Path) :
    Except LinkError Path := resolveSymlink home readLink 20 path []

/-- First boot-critical difference between the profile, the running and the
booted system. -/
def bootCriticalChange (profile current booted : Path) : Option String :=
  if current ≠ profile then some "system_changed"
  else if current ++ ["initrd"] ≠ booted ++ ["initrd"] then some "initrd_changed"
  else if current ++ ["kernel"] ≠ booted ++ ["kernel"] then some "kernel_changed"
  else if current ++ ["kernel-modules"] ≠ booted ++ ["kernel-modules"] then some "modules_changed"
  else none

/-- Links that cannot be followed show no change. -/
def detectBootCriticalChangeReason (home : Path) (readLink : Path → LinkReading) : Option String :=
  let changed : Except LinkError (Option String) := do
    let profile ← resolvedSymlink home readLink ["nix", "var", "nix", "profiles", "system"]
    let current ← resolvedSymlink home readLink ["run", "current-system"]
    let booted ← resolvedSymlink home readLink ["run", "booted-system"]
    return bootCriticalChange profile current booted
  match changed with
  | .ok reason => reason
  | .error _ => none

end Links

section Reboot

/-- Everything the decision about a reboot reads from outside. -/
structure RebootWorld where
  /-- Subscriptions in the garden's storage at the decision. -/
  subscriptions : List Subscription := []
  /-- Clock at the decision. -/
  now : DateTime
  /-- Links of the system. -/
  readLink : Path → LinkReading
  /-- Whether the socket answers to the report of the decision. -/
  reported : Answer Unit := .returned ()
  /-- Whether the call of the activator returns. -/
  rebooted : Answer Unit := .returned ()

/-- Whether the seed's subscription permits a restart at the decision. -/
def restartPermitted (host : Host) (world : RebootWorld) (seedDeploy : SeedDeployment) :
    Except Raise Bool :=
  match seedDeploy.action with
  | some _ => .ok false
  | none => do
    let subscription :=
      (findSubscription world.subscriptions seedDeploy.subscriptionSid).getD {}
    let permitted ← highestPermittedAction host.tzdb subscription.policy world.now
      subscription.seedType subscription.timezone
    return permitted = some .restart

/-- The seeds whose activation can require a reboot. -/
def rebootableSeeds (seedDeployments : List SeedDeployment) : List SeedDeployment :=
  seedDeployments.filter fun seedDeploy => rebootable seedDeploy.seed.seedType

def computeRebootReason (host : Host) (world : RebootWorld) (directRestart : Bool)
    (seedDeployments : List SeedDeployment) : Except Raise (Option String) :=
  if directRestart then .ok (some "direct_restart")
  else do
    let permitted ← (rebootableSeeds seedDeployments).anyM (restartPermitted host world)
    return if permitted then detectBootCriticalChangeReason host.home world.readLink else none

/-- Append the decision to the log of the last seed and wait for the socket. -/
def writeRebootDecision (world : RebootWorld) (deployment : Deployment) (message : String) :
    Step Unit :=
  match deployment.seedDeployments.getLast? with
  | none => pure ()
  | some last => do
    .perform (.result last.seed.sid none [decisionLine message])
    await world.reported

def resultName : DeploymentResult → String
  | .success => "success"
  | .partialSuccess => "partial"
  | .failure => "failure"

/-- Request a reboot when one is required and permitted. -/
def maybeReboot (host : Host) (world : RebootWorld) (directRestart : Bool)
    (deployment : Deployment) (result : DeploymentResult) : Step Unit :=
  if deployment.seedDeployments.any fun seedDeploy => rebootable seedDeploy.seed.seedType then
    if result ≠ .success then
      writeRebootDecision world deployment
        ("reboot skipped: deployment result was " ++ resultName result)
    else do
      match ← orRaise (computeRebootReason host world directRestart deployment.seedDeployments) with
      | none => writeRebootDecision world deployment "no reboot required"
      | some reason =>
        if host.activationEnabled then do
          writeRebootDecision world deployment ("reboot initiated: " ++ reason)
          .perform (.reboot reason)
          await world.rebooted
        else pure ()
  else pure ()

/-- The worlds of all seeds and of the final decision. -/
structure RunWorld where
  seeds : ℕ → SeedWorld
  reboot : RebootWorld

/-- One run of a deployment. -/
def runWithOpts (host : Host) (world : RunWorld) (deployment : Deployment) :
    Step DeploymentResult := do
  let upgrades ← upgradeWithActions host world.seeds deployment
  let result := deploymentResult upgrades
  maybeReboot host world.reboot (upgrades.any Upgrade.directRestart) deployment result
  return result

end Reboot

end Sower.Garden.Deployer
