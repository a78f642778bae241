import Mathlib.Data.Int.Notation
import Sower.Lib.Histories

/-!
# The owner of a hypervisor process

One server owns a virtual machine monitor and the process tree below it. It asks the
monitor's API to create and boot the machine, waits until the machine runs, and
stops the monitor when it is told to, when its own owner is gone or when something
fails. Everything it receives and does is kept in a history.
-/

namespace Sower.Hypervisor

open Traced

section States

/-- How the configuration reaches the monitor. -/
inductive Mode where
  | cli
  | api
  deriving DecidableEq, Repr

inductive Phase where
  | starting
  | ready
  | stopping
  | exited
  | failed
  deriving DecidableEq, Repr

/-- How the monitor ended. -/
inductive Outcome where
  | exitStatus (status : ℤ)
  | signal (signal : ℤ)
  deriving DecidableEq, Repr

inductive RequestKind where
  | ping
  | create
  | boot
  | info
  | shutdown
  deriving DecidableEq, Repr

inductive StopMode where
  | graceful
  | force
  deriving DecidableEq, Repr

inductive ApiErrorKind where
  | http
  | transport
  | decode
  deriving DecidableEq, Repr

/-- Why a request failed. -/
inductive RequestError where
  | api (kind : ApiErrorKind) (reason : String)
  | requestCrashed (reason : String)
  deriving DecidableEq, Repr

/-- Reasons that end up in a status or in an answer. -/
inductive Cause where
  | stopped (mode : StopMode)
  | ownerDown
  | readinessTimeout
  | shutdownTimeout
  /-- A request of the startup failed. -/
  | startupRequest (kind : RequestKind) (error : RequestError)
  /-- The monitor could not be started. -/
  | startup (message : String)
  | cleanupFailed (message : String)
  | exited (outcome : Option Outcome)
  deriving DecidableEq, Repr

/-- Address of the monitor's API. -/
structure Client where
  socket : String
  timeout : ℕ
  deriving DecidableEq, Repr

structure Status where
  phase : Phase := .starting
  mode : Mode
  directory : String
  osPid : Option ℕ := none
  apiReady : Bool := false
  vmState : Option String := none
  outcome : Option Outcome := none
  error : Option Cause := none
  deriving DecidableEq, Repr

/-- A request on its way, made by a process of its own. -/
structure Request where
  pid : ℕ
  kind : RequestKind
  deriving DecidableEq, Repr

/-- What the hook returns when it is run: that it is done, or what it says instead. -/
abbrev Hook := Except String Unit

/-- State of the server. Of a timer it is known whether it has been set. -/
structure State where
  status : Status
  client : Client
  ownerDead : Bool := false
  runner : Option ℕ := none
  cleanupError : Option String := none
  beforeStop : Option Hook := none
  beforeStopError : Option String := none
  readinessTimer : Bool := false
  shutdownTimer : Bool := false
  request : Option Request := none
  startupResult : Option (Except Cause Status) := none
  startupWaiters : List ℕ := []
  stopWaiters : List ℕ := []
  stopStage : Option StopMode := none
  /-- The process that makes the next request. -/
  nextPid : ℕ := 0

end States

section Messages

/-- Calls to the server. -/
inductive Call where
  | client
  | status
  | awaitReady
  | stop (mode : StopMode)
  deriving DecidableEq, Repr

/-- What a caller is told. -/
inductive Answer where
  | client (client : Client)
  | status (status : Status)
  | awaitReady (result : Except Cause Status)
  | stop (result : Except (Option Cause) Outcome)

/-- With what reason the runner of the process tree exits. -/
inductive ExitReason where
  | normal
  | shutdown (outcome : Outcome)
  | cleanupFailed (message : String)
  | other (reason : String)
  deriving DecidableEq, Repr

inductive Stream where
  | stdout
  | stderr
  deriving DecidableEq, Repr

/-- Messages that are not calls. The text of a successful result is the state that
`vm.info` reports; other requests report none. -/
inductive Message where
  | output (stream : Stream) (osPid : Option ℕ) (bytes : String)
  | cleanupError (message : String)
  | exit (pid : ℕ) (reason : ExitReason)
  | requestResult (pid : ℕ) (result : Except RequestError String)
  | ownerDown
  | requestDown (pid : ℕ) (reason : String)
  | poll
  | readinessTimeout
  | forceStop
  | shutdownTimeout
  | other

/-- What the server's owner hears. -/
inductive Event where
  | output (stream : Stream) (bytes : String)
  | apiReady (status : Status)
  | ready (status : Status)
  | failed (cause : Cause)
  | exited (outcome : Outcome)

/-- Entries of the history: what the server receives and what it does. -/
inductive Entry where
  | called (caller : ℕ) (call : Call)
  | received (message : Message)
  | reply (caller : ℕ) (answer : Answer)
  | notify (event : Event)
  /-- The hook is run. -/
  | beforeStop
  /-- A process sends a request to the API. -/
  | request (pid : ℕ) (kind : RequestKind)
  /-- A process that makes a request is killed. -/
  | cancelRequest (pid : ℕ)
  | schedulePoll
  /-- The runner is asked to terminate the monitor. -/
  | kill (runner : Option ℕ)
  /-- The runner is asked to kill the process tree. -/
  | killTree (runner : Option ℕ)
  /-- The runner is told to stop. -/
  | stopRunner (runner : ℕ)

/-- Why a callback of the server raises. -/
inductive Crash where
  /-- A call to the runner exits. -/
  | runner
  /-- No clause is written for the arguments. -/
  | functionClause
  deriving DecidableEq, Repr

/-- Code of a callback. -/
abbrev Code := Run Entry Crash

/-- How a callback goes on. -/
inductive Next where
  | noreply (state : State)
  | stop (state : State)

end Messages

section Teardown

/-- `notify`. -/
def notify (event : Event) : Code Unit := Run.perform (.notify event)

/-- `GenServer.reply` for each of the callers. -/
def replyAll (callers : List ℕ) (answer : Answer) : Code Unit :=
  Run.performAll (callers.map fun caller => .reply caller answer)

/-- `cancel_request`. -/
def cancelRequest (state : State) : Code Unit :=
  match state.request with
  | none => pure ()
  | some request => Run.perform (.cancelRequest request.pid)

/-- A call to the runner that has been made; it exits when nobody answers it. -/
def answered (answers : Bool) : Code Unit :=
  Run.lift (if answers then .ok () else .error .runner)

/-- `Rexec.kill`. -/
def kill (answers : Bool) (runner : Option ℕ) : Code Unit := do
  Run.perform (.kill runner)
  answered answers

/-- `Rexec.kill_tree`. -/
def killTree (answers : Bool) (runner : Option ℕ) : Code Unit := do
  Run.perform (.killTree runner)
  answered answers

/-- Text of a failed hook. -/
def Hook.failure : Hook → Option String
  | .ok _ => none
  | .error result => some ("Before-stop cleanup failed: " ++ result)

/-- `before_stop`. -/
def beforeStop (state : State) : Code State :=
  match state.beforeStop with
  | none => pure state
  | some hook => do
    Run.perform .beforeStop
    return { state with beforeStop := none, beforeStopError := hook.failure }

/-- `request`. -/
def request (state : State) (kind : RequestKind) : Code State :=
  match state.request with
  | some _ => pure state
  | none => do
    Run.perform (.request state.nextPid kind)
    return { state with request := some ⟨state.nextPid, kind⟩, nextPid := state.nextPid + 1 }

/-- `finish_startup`. -/
def finishStartup (state : State) (result : Except Cause Status) : Code State :=
  match state.startupResult with
  | some _ => pure state
  | none => do
    replyAll state.startupWaiters (.awaitReady result)
    return { state with startupResult := some result, startupWaiters := [] }

/-- `stop_result`. -/
def State.stopResult (state : State) : Except (Option Cause) Outcome :=
  match state.status.outcome with
  | none => .error state.status.error
  | some outcome => .ok outcome

/-- `force_stop`. -/
def forceStop (answers : Bool) (state : State) : Code State := do
  cancelRequest state
  let state ← beforeStop state
  killTree answers state.runner
  return { state with stopStage := some .force, shutdownTimer := true, request := none }

/-- The first step of a stop, before the monitor is asked for anything. -/
def enterStop (state : State) (cause : Cause) : Code State := do
  cancelRequest state
  let state ← beforeStop state
  let error := if state.startupResult.isNone then some cause else state.status.error
  return { state with
    status := { state.status with phase := .stopping, error := error }
    readinessTimer := false
    request := none }

/-- A graceful stop asks the API to shut down, or else the runner to terminate. -/
def stopGracefully (answers : Bool) (state : State) : Code State := do
  let state := { state with stopStage := some .graceful, shutdownTimer := true }
  if state.status.apiReady then request state .shutdown
  else do
    kill answers state.runner
    return state

/-- `begin_stop`. -/
def beginStop (answers : Bool) (state : State) (mode : StopMode) (cause : Cause) : Code State :=
  match state.runner, state.stopStage, mode with
  | none, _, _ => pure state
  | some _, some .force, _ => pure state
  | some _, some .graceful, .graceful => pure state
  | some _, some .graceful, .force => forceStop answers state
  | some _, none, .force => do
    let state ← enterStop state cause
    forceStop answers state
  | some _, none, .graceful => do
    let state ← enterStop state cause
    stopGracefully answers state

/-- `completion`: the exit reasons that certify that the tree is gone. -/
def completion : ExitReason → Except String Outcome
  | .normal => .ok (.exitStatus 0)
  | .shutdown outcome => .ok outcome
  | .cleanupFailed message => .error message
  | .other reason =>
    .error ("Rexec exited " ++ reason ++ " without confirming complete process-tree cleanup")

/-- Outcome and cleanup error once the runner has exited. -/
def exitOutcome (state : State) (reason : ExitReason) : Option Outcome × Option String :=
  match completion reason with
  | .ok outcome =>
    if state.cleanupError = none ∧ state.beforeStopError = none then (some outcome, none)
    else (none, state.cleanupError <|> state.beforeStopError)
  | .error message => (none, state.cleanupError <|> state.beforeStopError <|> some message)

/-- The error counts as a failure, not as a stop that was asked for. -/
def Cause.isFailure : Cause → Bool
  | .stopped _ => false
  | .ownerDown => false
  | _ => true

/-- What the exit of the runner leaves, before anybody is told. -/
def exitedState (state : State) (reason : ExitReason) : State :=
  let result := exitOutcome state reason
  let error := match result.2 with
    | some message => some (.cleanupFailed message)
    | none => state.status.error
  { state with
    status := { state.status with
      phase := if error.any Cause.isFailure then .failed else .exited
      error := error
      outcome := result.1 }
    runner := none
    cleanupError := result.2
    request := none
    readinessTimer := false
    shutdownTimer := false }

/-- The owner hears how the monitor ended. -/
def notifyExit (state : State) (notified : Bool) : Code Unit := do
  match state.status.outcome with
  | some outcome => notify (.exited outcome)
  | none => pure ()
  match state.status.error with
  | some cause =>
    if state.status.phase = .failed ∧ notified = false then notify (.failed cause)
  | none => pure ()

/-- `complete_exit`. -/
def completeExit (state : State) (reason : ExitReason) : Code State := do
  cancelRequest state
  let before ← beforeStop state
  let state := exitedState before reason
  notifyExit state before.cleanupError.isSome
  let state ← finishStartup state
    (.error (state.status.error.getD (.exited state.status.outcome)))
  replyAll state.stopWaiters (.stop state.stopResult)
  return { state with stopWaiters := [] }

/-- What a failed cleanup leaves, before anybody is told. -/
def uncleanState (state : State) (message : String) : State :=
  { state with
    status := { state.status with
      phase := .failed
      error := some (.cleanupFailed message)
      outcome := none }
    cleanupError := some message
    request := none
    readinessTimer := false
    shutdownTimer := false
    stopStage := some .force }

/-- `cleanup_failed`. -/
def cleanupFailed (state : State) (message : String) : Code State :=
  match state.cleanupError with
  | some _ => pure state
  | none => do
    let state ← beforeStop state
    cancelRequest state
    let state := uncleanState state message
    notify (.failed (.cleanupFailed message))
    let state ← finishStartup state (.error (.cleanupFailed message))
    replyAll state.stopWaiters (.stop (.error (some (.cleanupFailed message))))
    return { state with stopWaiters := [] }

end Teardown

section Startup

/-- The machine runs. -/
def becomeReady (state : State) : Code State := do
  let state := { state with
    status := { state.status with phase := .ready, vmState := some "Running" }
    readinessTimer := false }
  notify (.ready state.status)
  finishStartup state (.ok state.status)

/-- `schedule_poll`. -/
def schedulePoll (state : State) : Code State := do
  Run.perform .schedulePoll
  return state

/-- `request_result` while the machine starts. -/
def startupResult (answers : Bool) (state : State) :
    RequestKind → Except RequestError String → Code State
  | .ping, .ok _ => do
    let state := { state with status := { state.status with apiReady := true } }
    notify (.apiReady state.status)
    request state (if state.status.mode = .api then .create else .info)
  | .create, .ok _ => request state .boot
  | .boot, .ok _ => request state .info
  | .info, .ok vmState =>
    if vmState = "Running" then becomeReady state
    else schedulePoll { state with status := { state.status with vmState := some vmState } }
  | .shutdown, .ok _ => Run.lift (.error .functionClause)
  | .ping, .error (.api .transport _) => schedulePoll state
  | kind, .error reason => beginStop answers state .force (.startupRequest kind reason)

/-- `request_result`. -/
def requestResult (answers : Bool) (state : State) (kind : RequestKind)
    (result : Except RequestError String) : Code State :=
  if state.status.phase = .stopping ∧ kind = .shutdown then
    match result with
    | .ok _ => pure state
    | .error _ => do
      kill answers state.runner
      return state
  else if state.status.phase ≠ .starting then pure state
  else startupResult answers state kind result

end Startup

section Callbacks

/-- `handle_call`. -/
def handleCall (answers : Bool) (state : State) (caller : ℕ) : Call → Code Next
  | .client => do
    Run.perform (.reply caller (.client state.client))
    return .noreply state
  | .status => do
    Run.perform (.reply caller (.status state.status))
    return .noreply state
  | .awaitReady =>
    match state.startupResult with
    | none => pure (.noreply { state with startupWaiters := caller :: state.startupWaiters })
    | some result => do
      Run.perform (.reply caller (.awaitReady result))
      return .noreply state
  | .stop mode =>
    match state.cleanupError, state.runner with
    | some message, _ => do
      Run.perform (.reply caller (.stop (.error (some (.cleanupFailed message)))))
      return .noreply state
    | none, none => do
      Run.perform (.reply caller (.stop state.stopResult))
      return .noreply state
    | none, some _ =>
      if state.stopStage = some .force ∧ state.shutdownTimer = false then do
        Run.perform (.reply caller (.stop (.error (some .shutdownTimeout))))
        return .noreply state
      else do
        let state := { state with stopWaiters := caller :: state.stopWaiters }
        let state ← beginStop answers state mode (.stopped mode)
        return .noreply state

/-- The stop has not been confirmed in time. -/
def giveUp (state : State) : Code State := do
  replyAll state.stopWaiters (.stop (.error (some .shutdownTimeout)))
  let state := { state with
    status := { state.status with error := some .shutdownTimeout }
    stopWaiters := []
    shutdownTimer := false }
  finishStartup state (.error .shutdownTimeout)

/-- `handle_info`. -/
def handleInfo (answers : Bool) (state : State) : Message → Code Next
  | .output stream osPid bytes => do
    if state.status.osPid = osPid then
      notify (.output stream bytes)
    return .noreply state
  | .cleanupError message => do
    let state ← cleanupFailed state message
    return .noreply state
  | .exit pid reason =>
    if state.runner = some pid then do
      let state ← completeExit state reason
      return if state.ownerDead then .stop state else .noreply state
    else pure (.noreply state)
  | .requestResult pid result =>
    match state.request with
    | some current =>
      if current.pid = pid then do
        let state ← requestResult answers { state with request := none } current.kind result
        return .noreply state
      else pure (.noreply state)
    | none => pure (.noreply state)
  | .ownerDown =>
    let state := { state with ownerDead := true }
    if state.runner = none then pure (.stop state)
    else do
      let state ← beginStop answers state .force .ownerDown
      return .noreply state
  | .requestDown pid reason =>
    match state.request with
    | some current =>
      if current.pid = pid then do
        let state ← requestResult answers { state with request := none } current.kind
          (.error (.requestCrashed reason))
        return .noreply state
      else pure (.noreply state)
    | none => pure (.noreply state)
  | .poll =>
    if state.status.phase = .starting then do
      let state ← request state (if state.status.apiReady then .info else .ping)
      return .noreply state
    else pure (.noreply state)
  | .readinessTimeout =>
    if state.status.phase = .starting then do
      let state ← beginStop answers state .force .readinessTimeout
      return .noreply state
    else pure (.noreply state)
  | .forceStop =>
    if state.stopStage = some .graceful then do
      let state ← forceStop answers state
      return .noreply state
    else pure (.noreply state)
  | .shutdownTimeout =>
    if state.runner.isSome ∧ state.stopStage = some .force ∧ state.cleanupError = none then do
      let state ← giveUp state
      return .noreply state
    else pure (.noreply state)
  | .other => pure (.noreply state)

/-- `await_runner_termination`: the messages that arrive before the deadline. -/
def awaitRunnerTermination (state : State) : List Message → Code (Except String Unit)
  | [] => pure (.error ((state.cleanupError <|> state.beforeStopError).getD
      "Rexec did not confirm complete process-tree cleanup before the shutdown deadline"))
  | .output stream osPid bytes :: rest =>
    if state.status.osPid = osPid then do
      notify (.output stream bytes)
      awaitRunnerTermination state rest
    else awaitRunnerTermination state rest
  | .cleanupError message :: rest =>
    awaitRunnerTermination
      { state with cleanupError := state.cleanupError <|> some message } rest
  | .exit pid reason :: rest =>
    if state.runner = some pid then
      match exitOutcome state reason with
      | (_, none) => pure (.ok ())
      | (_, some message) => pure (.error message)
    else awaitRunnerTermination state rest
  | _ :: rest => awaitRunnerTermination state rest

/-- `terminate`, with the messages that arrive while it waits for the runner. -/
def terminate (state : State) (mailbox : List Message) : Code Unit := do
  cancelRequest state
  match state.runner with
  | none => pure ()
  | some runner => do
    let state ← beforeStop state
    Run.perform (.stopRunner runner)
    match ← awaitRunnerTermination state mailbox with
    | .ok _ => pure ()
    | .error message =>
      if state.cleanupError = none then notify (.failed (.cleanupFailed message))

end Callbacks

section Runs

/-- How the server is set up. -/
structure Settings where
  mode : Mode
  client : Client
  directory : String
  beforeStop : Option Hook := none

/-- What became of the attempt to start the monitor: the runner of its process tree and
its own process, or why it failed, and whether that left something behind. -/
inductive Launched where
  | running (runner osPid : ℕ)
  | failed (message : String) (cleanupError : Option String)

/-- The server's state before the monitor is started. -/
def Settings.state (settings : Settings) : State where
  status := { mode := settings.mode, directory := settings.directory }
  client := settings.client
  beforeStop := settings.beforeStop

/-- `init`. -/
def init (settings : Settings) : Launched → Code State
  | .running runner osPid =>
    let state := settings.state
    request { state with
      status := { state.status with osPid := some osPid }
      runner := some runner
      readinessTimer := true } .ping
  | .failed message cleanupError => do
    let state := settings.state
    let state ← beforeStop
      { state with status := { state.status with phase := .failed, error := some (.startup message) } }
    let cause := match state.beforeStopError with
      | some message => Cause.cleanupFailed message
      | none => .startup message
    let state := { state with status := { state.status with error := some cause } }
    match cleanupError with
    | some message => cleanupFailed state message
    | none => do
      notify (.failed cause)
      finishStartup state (.error cause)

/-- The server: at work, ended by itself, or ended from outside or by a crash. -/
inductive Server where
  | running (state : State)
  | stopped
  | terminated

/-- The server, the calls made to it so far, and everything that happened. -/
structure World where
  server : Server
  calls : ℕ := 0
  history : List Entry

/-- What reaches the server next: a call, a message, or the order to end. For the first
two, whether calls to the runner are answered, and what arrives should the server end. -/
inductive Input where
  | call (call : Call) (answers : Bool) (mailbox : List Message)
  | message (message : Message) (answers : Bool) (mailbox : List Message)
  | shutdown (mailbox : List Message)

/-- The server after a callback; one that raises is terminated with its old state. -/
def World.settle (w : World) (state : State) (mailbox : List Message) (code : Code Next) : World :=
  match code.ending with
  | .ok (.noreply state') =>
    { w with server := .running state', history := w.history ++ code.effects }
  | .ok (.stop state') =>
    { w with
      server := .stopped
      history := w.history ++ code.effects ++ (terminate state' mailbox).effects }
  | .error _ =>
    { w with
      server := .terminated
      history := w.history ++ code.effects ++ (terminate state mailbox).effects }

/-- The world after an input. Whoever calls a server that has ended gets no answer. -/
def World.step (w : World) (input : Input) : World :=
  match w.server with
  | .running state =>
    match input with
    | .call call answers mailbox =>
      World.settle
        { w with calls := w.calls + 1, history := w.history ++ [.called w.calls call] }
        state mailbox (handleCall answers state w.calls call)
    | .message message answers mailbox =>
      World.settle { w with history := w.history ++ [.received message] }
        state mailbox (handleInfo answers state message)
    | .shutdown mailbox =>
      { w with
        server := .terminated
        history := w.history ++ (terminate state mailbox).effects }
  | .stopped => w
  | .terminated => w

/-- The world after the first of the inputs. -/
def World.after (w : World) (inputs : ℕ → Input) : ℕ → World
  | 0 => w
  | n + 1 => (w.after inputs n).step (inputs n)

/-- The server has just been started. -/
def World.start (settings : Settings) (launched : Launched) : World :=
  let code := init settings launched
  match code.ending with
  | .ok state => { server := .running state, history := code.effects }
  | .error _ => { server := .terminated, history := code.effects }

/-- The runner answers whatever it is asked for while the input is handled. -/
def Input.Answered : Input → Prop
  | .call _ answers _ => answers = true
  | .message _ answers _ => answers = true
  | .shutdown _ => True

end Runs

end Sower.Hypervisor
