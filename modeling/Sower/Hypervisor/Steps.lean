import Sower.Hypervisor.Process

/-!
# What the callbacks come to

As long as the runner answers, no callback raises: each one has a list of effects and
a state that it leaves. Both are written down here once for every function, so that
what is kept over a run can be read off them.
-/

namespace Sower.Hypervisor

open Traced

section Pieces

/-- A computation that ends, followed by another one. -/
theorem bind_ended {α β : Type} (es : List Entry) (value : α) (next : α → Code β) :
    ((⟨es, .ok value⟩ : Code α) >>= next) =
      ⟨es ++ (next value).effects, (next value).ending⟩ := rfl

/-- Effects before a computation that ends. -/
theorem bind_ended_eq {α β : Type} {es es' : List Entry} {value : α} {result : Except Crash β}
    {next : α → Code β} (h : next value = ⟨es', result⟩) :
    ((⟨es, .ok value⟩ : Code α) >>= next) = ⟨es ++ es', result⟩ := by
  rw [bind_ended, h]

/-- What `cancel_request` does. -/
def State.cancels (state : State) : List Entry :=
  (state.request.map fun request => Entry.cancelRequest request.pid).toList

theorem cancelRequest_eq (state : State) : cancelRequest state = ⟨state.cancels, .ok ()⟩ := by
  unfold cancelRequest State.cancels
  cases state.request with
  | none => rfl
  | some request => rfl

/-- What `before_stop` does. -/
def State.hooks (state : State) : List Entry :=
  (state.beforeStop.map fun _ => Entry.beforeStop).toList

/-- The state with the hook run. -/
def State.hooked (state : State) : State :=
  { state with
    beforeStop := none
    beforeStopError :=
      match state.beforeStop with
      | none => state.beforeStopError
      | some hook => hook.failure }

theorem hooked_of_none {state : State} (h : state.beforeStop = none) : state.hooked = state := by
  unfold State.hooked
  cases state
  dsimp only at h
  subst h
  rfl

theorem beforeStop_eq (state : State) : beforeStop state = ⟨state.hooks, .ok state.hooked⟩ := by
  unfold beforeStop State.hooks
  cases h : state.beforeStop with
  | none =>
    rw [hooked_of_none h]
    rfl
  | some hook =>
    unfold State.hooked
    rw [h]
    rfl

/-- The state with a request on its way. -/
def State.requested (state : State) (kind : RequestKind) : State :=
  { state with
    request := some (state.request.getD ⟨state.nextPid, kind⟩)
    nextPid := if state.request.isNone then state.nextPid + 1 else state.nextPid }

/-- What `request` does. -/
def State.requests (state : State) (kind : RequestKind) : List Entry :=
  if state.request.isNone then [.request state.nextPid kind] else []

theorem request_eq (state : State) (kind : RequestKind) :
    request state kind = ⟨state.requests kind, .ok (state.requested kind)⟩ := by
  unfold request State.requests State.requested
  cases h : state.request with
  | none => rfl
  | some current =>
    have hsame : state = { state with request := some current } := by
      cases state
      dsimp only at h
      rw [h]
    exact Run.ext rfl (congrArg Except.ok hsame)

/-- The state with the startup decided. -/
def State.finished (state : State) (result : Except Cause Status) : State :=
  { state with
    startupResult := some (state.startupResult.getD result)
    startupWaiters := if state.startupResult.isNone then [] else state.startupWaiters }

/-- What `finish_startup` does. -/
def State.finishes (state : State) (result : Except Cause Status) : List Entry :=
  if state.startupResult.isNone then
    state.startupWaiters.map fun caller => .reply caller (.awaitReady result)
  else []

theorem finishStartup_eq (state : State) (result : Except Cause Status) :
    finishStartup state result = ⟨state.finishes result, .ok (state.finished result)⟩ := by
  unfold finishStartup State.finishes State.finished
  cases h : state.startupResult with
  | some decided =>
    have hsame : state = { state with startupResult := some decided } := by
      cases state
      dsimp only at h
      rw [h]
    exact Run.ext rfl (congrArg Except.ok hsame)
  | none =>
    refine Run.ext ?_ rfl
    change _ ++ [] = _
    rw [List.append_nil]
    rfl

end Pieces

section Stops

/-- The state after `force_stop`. -/
def State.forced (state : State) : State :=
  { state.hooked with stopStage := some .force, shutdownTimer := true, request := none }

theorem forceStop_eq (state : State) :
    forceStop true state =
      ⟨state.cancels ++ (state.hooks ++ [.killTree state.runner]), .ok state.forced⟩ := by
  unfold forceStop
  rw [cancelRequest_eq]
  refine bind_ended_eq ?_
  rw [beforeStop_eq]
  refine bind_ended_eq ?_
  rfl

/-- The state of a stop that begins. -/
def State.entered (state : State) (cause : Cause) : State :=
  { state.hooked with
    status := { state.status with
      phase := .stopping
      error := if state.startupResult.isNone then some cause else state.status.error }
    readinessTimer := false
    request := none }

theorem enterStop_eq (state : State) (cause : Cause) :
    enterStop state cause = ⟨state.cancels ++ state.hooks, .ok (state.entered cause)⟩ := by
  unfold enterStop
  rw [cancelRequest_eq]
  refine bind_ended_eq ?_
  rw [beforeStop_eq]
  refine Run.ext (List.append_nil _) ?_
  rfl

/-- The state of a graceful stop. -/
def State.graceful (state : State) : State :=
  if state.status.apiReady then
    { state with stopStage := some .graceful, shutdownTimer := true }.requested .shutdown
  else { state with stopStage := some .graceful, shutdownTimer := true }

/-- What a graceful stop asks for. -/
def State.asksToStop (state : State) : List Entry :=
  if state.status.apiReady then state.requests .shutdown else [.kill state.runner]

theorem stopGracefully_eq (state : State) :
    stopGracefully true state = ⟨state.asksToStop, .ok state.graceful⟩ := by
  unfold stopGracefully State.asksToStop State.graceful
  dsimp only
  split
  · rw [request_eq]
    rfl
  · rfl

/-- The state after `begin_stop`. -/
def State.begun (state : State) (mode : StopMode) (cause : Cause) : State :=
  match state.runner, state.stopStage, mode with
  | none, _, _ => state
  | some _, some .force, _ => state
  | some _, some .graceful, .graceful => state
  | some _, some .graceful, .force => state.forced
  | some _, none, .force => (state.entered cause).forced
  | some _, none, .graceful => (state.entered cause).graceful

/-- What `begin_stop` does. -/
def State.begins (state : State) (mode : StopMode) (cause : Cause) : List Entry :=
  match state.runner, state.stopStage, mode with
  | none, _, _ => []
  | some _, some .force, _ => []
  | some _, some .graceful, .graceful => []
  | some _, some .graceful, .force => state.cancels ++ (state.hooks ++ [.killTree state.runner])
  | some _, none, .force => state.cancels ++ state.hooks ++ [.killTree state.runner]
  | some _, none, .graceful =>
    state.cancels ++ state.hooks ++ (state.entered cause).asksToStop

@[simp] theorem cancels_entered (state : State) (cause : Cause) :
    (state.entered cause).cancels = [] := rfl

@[simp] theorem hooks_entered (state : State) (cause : Cause) :
    (state.entered cause).hooks = [] := rfl

theorem beginStop_eq (state : State) (mode : StopMode) (cause : Cause) :
    beginStop true state mode cause = ⟨state.begins mode cause, .ok (state.begun mode cause)⟩ := by
  unfold beginStop State.begins State.begun
  cases hrunner : state.runner with
  | none => rfl
  | some runner =>
    cases state.stopStage with
    | none =>
      cases mode with
      | force =>
        dsimp only
        rw [enterStop_eq]
        refine bind_ended_eq ?_
        rw [forceStop_eq, cancels_entered, hooks_entered]
        have hsame : (state.entered cause).runner = some runner := hrunner
        rw [hsame]
        rfl
      | graceful =>
        dsimp only
        rw [enterStop_eq]
        exact bind_ended_eq (stopGracefully_eq _)
    | some stage =>
      cases stage with
      | force => rfl
      | graceful =>
        cases mode with
        | graceful => rfl
        | force =>
          dsimp only
          rw [forceStop_eq, hrunner]

end Stops

section Ends

/-- What the owner hears of an exit. -/
def State.notifiesExit (state : State) (notified : Bool) : List Entry :=
  (state.status.outcome.map fun outcome => Entry.notify (.exited outcome)).toList ++
    (if state.status.phase = .failed ∧ notified = false then
      (state.status.error.map fun cause => Entry.notify (.failed cause)).toList else [])

theorem notifyExit_eq (state : State) (notified : Bool) :
    notifyExit state notified = ⟨state.notifiesExit notified, .ok ()⟩ := by
  unfold notifyExit State.notifiesExit
  cases state.status.outcome with
  | none =>
    cases state.status.error with
    | none =>
      refine Run.ext ?_ rfl
      simp
    | some cause =>
      dsimp only [Option.map_none, Option.map_some, Option.toList_none, Option.toList_some]
      split <;> rfl
  | some outcome =>
    cases state.status.error with
    | none =>
      refine Run.ext ?_ rfl
      simp [notify]
    | some cause =>
      dsimp only [Option.map_some, Option.toList_some]
      split <;> rfl

/-- Result of the startup if it ends with the monitor. -/
def State.startupEnd (state : State) : Except Cause Status :=
  .error (state.status.error.getD (.exited state.status.outcome))

/-- The state after `complete_exit`. -/
def State.completed (state : State) (reason : ExitReason) : State :=
  let exited := exitedState state.hooked reason
  { exited.finished exited.startupEnd with stopWaiters := [] }

/-- What `complete_exit` does. -/
def State.completes (state : State) (reason : ExitReason) : List Entry :=
  let exited := exitedState state.hooked reason
  state.cancels ++ (state.hooks ++ (exited.notifiesExit state.cleanupError.isSome ++
    (exited.finishes exited.startupEnd ++
      state.stopWaiters.map fun caller => .reply caller (.stop exited.stopResult))))

theorem completeExit_eq (state : State) (reason : ExitReason) :
    completeExit state reason = ⟨state.completes reason, .ok (state.completed reason)⟩ := by
  unfold completeExit State.completes State.completed
  rw [cancelRequest_eq]
  refine bind_ended_eq ?_
  rw [beforeStop_eq]
  refine bind_ended_eq ?_
  dsimp only
  rw [notifyExit_eq]
  refine bind_ended_eq ?_
  rw [finishStartup_eq]
  refine bind_ended_eq ?_
  refine Run.ext ?_ rfl
  change List.map _ _ ++ [] = _
  rw [List.append_nil]
  rfl

/-- The state after `cleanup_failed`. -/
def State.unclean (state : State) (message : String) : State :=
  match state.cleanupError with
  | some _ => state
  | none =>
    { (uncleanState state.hooked message).finished (.error (.cleanupFailed message)) with
      stopWaiters := [] }

/-- What `cleanup_failed` does. -/
def State.reportsUnclean (state : State) (message : String) : List Entry :=
  match state.cleanupError with
  | some _ => []
  | none =>
    state.hooks ++ (state.cancels ++ (.notify (.failed (.cleanupFailed message)) ::
      ((uncleanState state.hooked message).finishes (.error (.cleanupFailed message)) ++
        state.stopWaiters.map fun caller =>
          .reply caller (.stop (.error (some (.cleanupFailed message)))))))

theorem cleanupFailed_eq (state : State) (message : String) :
    cleanupFailed state message =
      ⟨state.reportsUnclean message, .ok (state.unclean message)⟩ := by
  unfold cleanupFailed State.reportsUnclean State.unclean
  cases state.cleanupError with
  | some recorded => rfl
  | none =>
    dsimp only
    rw [beforeStop_eq]
    refine bind_ended_eq ?_
    rw [cancelRequest_eq]
    refine bind_ended_eq ?_
    refine @bind_ended_eq Unit _ [_] _ () _ _ ?_
    rw [finishStartup_eq]
    refine bind_ended_eq ?_
    refine Run.ext ?_ rfl
    change List.map _ _ ++ [] = _
    rw [List.append_nil]
    rfl

/-- The state once a stop was given up. -/
def State.givenUp (state : State) : State :=
  { state with
    status := { state.status with error := some .shutdownTimeout }
    stopWaiters := []
    shutdownTimer := false }.finished (.error .shutdownTimeout)

/-- What is said when a stop is given up. -/
def State.givesUp (state : State) : List Entry :=
  (state.stopWaiters.map fun caller => .reply caller (.stop (.error (some .shutdownTimeout)))) ++
    state.finishes (.error .shutdownTimeout)

theorem giveUp_eq (state : State) : giveUp state = ⟨state.givesUp, .ok state.givenUp⟩ := by
  unfold giveUp State.givesUp State.givenUp
  refine @bind_ended_eq Unit _ _ _ () _ _ ?_
  rw [finishStartup_eq]
  rfl

end Ends

section Kinds

variable {state : State} {e : Entry}

/-- Effects of a stop. None of them is an answer or says that the machine is ready. -/
def Entry.isStop : Entry → Bool
  | .beforeStop => true
  | .request _ kind => kind == .shutdown
  | .cancelRequest _ => true
  | .kill _ => true
  | .killTree _ => true
  | .stopRunner _ => true
  | _ => false

theorem isStop_of_cancels (h : e ∈ state.cancels) : e.isStop = true := by
  unfold State.cancels at h
  cases hrequest : state.request with
  | none =>
    rw [hrequest] at h
    cases h
  | some request =>
    rw [hrequest] at h
    rw [List.mem_singleton.mp h]
    rfl

theorem isStop_of_hooks (h : e ∈ state.hooks) : e.isStop = true := by
  unfold State.hooks at h
  cases hhook : state.beforeStop with
  | none =>
    rw [hhook] at h
    cases h
  | some hook =>
    rw [hhook] at h
    rw [List.mem_singleton.mp h]
    rfl

theorem isStop_of_asksToStop (h : e ∈ state.asksToStop) : e.isStop = true := by
  unfold State.asksToStop State.requests at h
  split at h
  · split at h
    · rw [List.mem_singleton.mp h]
      rfl
    · cases h
  · rw [List.mem_singleton.mp h]
    rfl

/-- What is done to stop the monitor is nothing but that. -/
theorem isStop_of_begins {mode : StopMode} {cause : Cause} (h : e ∈ state.begins mode cause) :
    e.isStop = true := by
  have hlast {runner : Option ℕ} (hlast : e ∈ [Entry.killTree runner]) : e.isStop = true := by
    rw [List.mem_singleton.mp hlast]
    rfl
  unfold State.begins at h
  split at h
  · cases h
  · cases h
  · cases h
  · rcases List.mem_append.mp h with hcancel | hrest
    · exact isStop_of_cancels hcancel
    · rcases List.mem_append.mp hrest with hhook | hkill
      · exact isStop_of_hooks hhook
      · exact hlast hkill
  · rcases List.mem_append.mp h with hfirst | hkill
    · rcases List.mem_append.mp hfirst with hcancel | hhook
      · exact isStop_of_cancels hcancel
      · exact isStop_of_hooks hhook
    · exact hlast hkill
  · rcases List.mem_append.mp h with hfirst | hask
    · rcases List.mem_append.mp hfirst with hcancel | hhook
      · exact isStop_of_cancels hcancel
      · exact isStop_of_hooks hhook
    · exact isStop_of_asksToStop hask

theorem isStop_of_forces {runner : Option ℕ}
    (h : e ∈ state.cancels ++ (state.hooks ++ [.killTree runner])) : e.isStop = true := by
  rcases List.mem_append.mp h with hcancel | hrest
  · exact isStop_of_cancels hcancel
  · rcases List.mem_append.mp hrest with hhook | hkill
    · exact isStop_of_hooks hhook
    · rw [List.mem_singleton.mp hkill]
      rfl

/-- The owner hears of the end. -/
def Entry.isEnd : Entry → Bool
  | .notify (.exited _) => true
  | .notify (.failed _) => true
  | _ => false

theorem isEnd_of_notifiesExit {notified : Bool} (h : e ∈ state.notifiesExit notified) :
    e.isEnd = true := by
  unfold State.notifiesExit at h
  rcases List.mem_append.mp h with hexit | hfail
  · cases houtcome : state.status.outcome with
    | none =>
      rw [houtcome] at hexit
      cases hexit
    | some outcome =>
      rw [houtcome] at hexit
      rw [List.mem_singleton.mp hexit]
      rfl
  · split at hfail
    · cases herror : state.status.error with
      | none =>
        rw [herror] at hfail
        cases hfail
      | some cause =>
        rw [herror] at hfail
        rw [List.mem_singleton.mp hfail]
        rfl
    · cases hfail

/-- Those who wait for the startup hear of its end. -/
theorem mem_finishes {result : Except Cause Status} (h : e ∈ state.finishes result) :
    ∃ caller ∈ state.startupWaiters, e = .reply caller (.awaitReady result) := by
  unfold State.finishes at h
  split at h
  · obtain ⟨caller, hcaller, rfl⟩ := List.mem_map.mp h
    exact ⟨caller, hcaller, rfl⟩
  · cases h

/-- What is done when the runner has exited. -/
theorem mem_completes {reason : ExitReason} (h : e ∈ state.completes reason) :
    e.isStop = true ∨ e.isEnd = true ∨
      (∃ caller cause, e = .reply caller (.awaitReady (.error cause))) ∨
        ∃ caller, e = .reply caller (.stop (exitedState state.hooked reason).stopResult) := by
  unfold State.completes at h
  dsimp only at h
  simp only [List.mem_append] at h
  rcases h with hcancel | hhook | hnotify | hfinish | hstop
  · exact Or.inl (isStop_of_cancels hcancel)
  · exact Or.inl (isStop_of_hooks hhook)
  · exact Or.inr (Or.inl (isEnd_of_notifiesExit hnotify))
  · obtain ⟨caller, _, rfl⟩ := mem_finishes hfinish
    exact Or.inr (Or.inr (Or.inl ⟨caller, _, rfl⟩))
  · obtain ⟨caller, _, rfl⟩ := List.mem_map.mp hstop
    exact Or.inr (Or.inr (Or.inr ⟨caller, rfl⟩))

/-- What is done when the cleanup has failed. -/
theorem mem_reportsUnclean {message : String} (h : e ∈ state.reportsUnclean message) :
    e.isStop = true ∨ e.isEnd = true ∨
      (∃ caller cause, e = .reply caller (.awaitReady (.error cause))) ∨
        ∃ caller, e = .reply caller (.stop (.error (some (.cleanupFailed message)))) := by
  unfold State.reportsUnclean at h
  split at h
  · cases h
  · simp only [List.mem_append, List.mem_cons] at h
    rcases h with hhook | hcancel | rfl | hfinish | hstop
    · exact Or.inl (isStop_of_hooks hhook)
    · exact Or.inl (isStop_of_cancels hcancel)
    · exact Or.inr (Or.inl rfl)
    · obtain ⟨caller, _, rfl⟩ := mem_finishes hfinish
      exact Or.inr (Or.inr (Or.inl ⟨caller, _, rfl⟩))
    · obtain ⟨caller, _, rfl⟩ := List.mem_map.mp hstop
      exact Or.inr (Or.inr (Or.inr ⟨caller, rfl⟩))

/-- What is said when a stop is given up. -/
theorem mem_givesUp (h : e ∈ state.givesUp) :
    (∃ caller cause, e = .reply caller (.awaitReady (.error cause))) ∨
      ∃ caller, e = .reply caller (.stop (.error (some .shutdownTimeout))) := by
  unfold State.givesUp at h
  rcases List.mem_append.mp h with hstop | hfinish
  · obtain ⟨caller, _, rfl⟩ := List.mem_map.mp hstop
    exact Or.inr ⟨caller, rfl⟩
  · obtain ⟨caller, _, rfl⟩ := mem_finishes hfinish
    exact Or.inl ⟨caller, _, rfl⟩

end Kinds

section Startups

/-- What the answer to a request comes to, once the machine starts no longer. -/
def State.stopReplied (state : State) (kind : RequestKind)
    (result : Except RequestError String) : List Entry :=
  match kind, result with
  | .shutdown, .error _ => if state.status.phase = .stopping then [.kill state.runner] else []
  | _, _ => []

/-- The answer to a request that comes after the startup changes nothing. -/
theorem requestResult_late {state : State} (kind : RequestKind)
    (result : Except RequestError String) (hphase : state.status.phase ≠ .starting) :
    requestResult true state kind result = ⟨state.stopReplied kind result, .ok state⟩ := by
  unfold requestResult State.stopReplied
  by_cases hstop : state.status.phase = .stopping ∧ kind = .shutdown
  · obtain ⟨hstopping, rfl⟩ := hstop
    rw [if_pos ⟨hstopping, rfl⟩]
    cases result with
    | ok text => rfl
    | error reason =>
      dsimp only
      rw [if_pos hstopping]
      rfl
  · rw [if_neg hstop, if_pos hphase]
    split
    · split
      · rename_i hstopping
        exact absurd ⟨hstopping, rfl⟩ hstop
      · rfl
    · rfl

/-- The state once the API has answered. -/
def State.pinged (state : State) : State :=
  { state with status := { state.status with apiReady := true } }

/-- The state once the machine runs. -/
def State.ready (state : State) : State :=
  { state with
    status := { state.status with phase := .ready, vmState := some "Running" }
    readinessTimer := false }

/-- The state once the machine is known not to run yet. -/
def State.observed (state : State) (vmState : String) : State :=
  { state with status := { state.status with vmState := some vmState } }

/-- The effects of an answer during the startup, and the state that it leaves: a
further step of the startup, another attempt, or the end. -/
inductive Proceeds (state : State) :
    RequestKind → Except RequestError String → List Entry → State → Prop
  | pinged (text : String) :
      Proceeds state .ping (.ok text)
        (.notify (.apiReady state.pinged.status) ::
          state.pinged.requests (if state.status.mode = .api then .create else .info))
        (state.pinged.requested (if state.status.mode = .api then .create else .info))
  | created (text : String) :
      Proceeds state .create (.ok text) (state.requests .boot) (state.requested .boot)
  | booted (text : String) :
      Proceeds state .boot (.ok text) (state.requests .info) (state.requested .info)
  | running :
      Proceeds state .info (.ok "Running")
        (.notify (.ready state.ready.status) :: state.ready.finishes (.ok state.ready.status))
        (state.ready.finished (.ok state.ready.status))
  | waits (vmState : String) :
      Proceeds state .info (.ok vmState) [.schedulePoll] (state.observed vmState)
  | silent (reason : String) :
      Proceeds state .ping (.error (.api .transport reason)) [.schedulePoll] state
  | fails (kind : RequestKind) (error : RequestError) :
      Proceeds state kind (.error error) (state.begins .force (.startupRequest kind error))
        (state.begun .force (.startupRequest kind error))

/-- An answer during the startup proceeds with it. -/
theorem requestResult_starting {state : State} {kind : RequestKind}
    (result : Except RequestError String) (hphase : state.status.phase = .starting)
    (hkind : kind ≠ .shutdown) :
    ∃ es state', requestResult true state kind result = ⟨es, .ok state'⟩ ∧
      Proceeds state kind result es state' := by
  unfold requestResult
  rw [if_neg (fun h => hkind h.2), if_neg (by rw [hphase]; decide)]
  cases result with
  | ok text =>
    cases kind with
    | ping =>
      refine ⟨_, _, ?_, .pinged text⟩
      unfold startupResult
      refine @bind_ended_eq Unit _ [_] _ () _ _ ?_
      rw [request_eq]
      rfl
    | create =>
      refine ⟨_, _, ?_, .created text⟩
      exact request_eq state .boot
    | boot =>
      refine ⟨_, _, ?_, .booted text⟩
      exact request_eq state .info
    | info =>
      have hinfo : startupResult true state .info (.ok text) =
          if text = "Running" then becomeReady state else schedulePoll (state.observed text) := rfl
      rw [hinfo]
      by_cases hrunning : text = "Running"
      · subst hrunning
        rw [if_pos rfl]
        refine ⟨_, _, ?_, .running⟩
        unfold becomeReady
        refine @bind_ended_eq Unit _ [_] _ () _ _ ?_
        exact finishStartup_eq state.ready _
      · rw [if_neg hrunning]
        exact ⟨_, _, rfl, .waits text⟩
    | shutdown => exact absurd rfl hkind
  | error error =>
    have hfails : beginStop true state .force (.startupRequest kind error) =
        ⟨state.begins .force (.startupRequest kind error),
          .ok (state.begun .force (.startupRequest kind error))⟩ := beginStop_eq _ _ _
    by_cases hsilent : kind = .ping ∧ ∃ reason, error = .api .transport reason
    · obtain ⟨rfl, reason, rfl⟩ := hsilent
      exact ⟨_, _, rfl, .silent reason⟩
    · refine ⟨_, _, ?_, .fails kind error⟩
      rw [← hfails]
      cases kind with
      | ping =>
        cases error with
        | requestCrashed reason => rfl
        | api errorKind reason =>
          cases errorKind with
          | transport => exact absurd ⟨rfl, reason, rfl⟩ hsilent
          | http => rfl
          | decode => rfl
      | create => rfl
      | boot => rfl
      | info => rfl
      | shutdown => exact absurd rfl hkind

end Startups

section Callbacks

/-- How the server goes on: at work, or ended without a runner. -/
def Goes (next : Next) (state : State) : Prop :=
  next = .noreply state ∨ next = .stop state ∧ state.runner = none

/-- A state change after which the server goes on. -/
theorem goes_on {code : Code State} {es : List Entry} {state : State}
    (h : code = ⟨es, .ok state⟩) :
    (do let state ← code; return Next.noreply state) = ⟨es, .ok (.noreply state)⟩ := by
  rw [h, bind_ended]
  exact Run.ext (List.append_nil _) rfl

/-- The state with one more caller waiting for the stop. -/
def State.awaitStop (state : State) (caller : ℕ) : State :=
  { state with stopWaiters := caller :: state.stopWaiters }

/-- The effects of a call and the state that it leaves. -/
inductive Answers (state : State) (caller : ℕ) : Call → List Entry → State → Prop
  | client : Answers state caller .client [.reply caller (.client state.client)] state
  | status : Answers state caller .status [.reply caller (.status state.status)] state
  | waits (undecided : state.startupResult = none) :
      Answers state caller .awaitReady []
        { state with startupWaiters := caller :: state.startupWaiters }
  | decided {result : Except Cause Status} (decided : state.startupResult = some result) :
      Answers state caller .awaitReady [.reply caller (.awaitReady result)] state
  | unclean {message : String} (mode : StopMode) (unclean : state.cleanupError = some message) :
      Answers state caller (.stop mode)
        [.reply caller (.stop (.error (some (.cleanupFailed message))))] state
  | ended (mode : StopMode) (clean : state.cleanupError = none) (ended : state.runner = none) :
      Answers state caller (.stop mode) [.reply caller (.stop state.stopResult)] state
  | timedOut (mode : StopMode) (clean : state.cleanupError = none) :
      Answers state caller (.stop mode)
        [.reply caller (.stop (.error (some .shutdownTimeout)))] state
  | stops (mode : StopMode) (clean : state.cleanupError = none) {runner : ℕ}
      (running : state.runner = some runner)
      (timed : state.stopStage = some .force → state.shutdownTimer = true) :
      Answers state caller (.stop mode)
        ((state.awaitStop caller).begins mode (.stopped mode))
        ((state.awaitStop caller).begun mode (.stopped mode))

/-- A call never raises while the runner answers. -/
theorem handleCall_eq (state : State) (caller : ℕ) (call : Call) :
    ∃ es state', handleCall true state caller call = ⟨es, .ok (.noreply state')⟩ ∧
      Answers state caller call es state' := by
  cases call with
  | client => exact ⟨_, _, rfl, .client⟩
  | status => exact ⟨_, _, rfl, .status⟩
  | awaitReady =>
    simp only [handleCall]
    split
    · rename_i hresult
      exact ⟨_, _, rfl, .waits hresult⟩
    · rename_i hresult
      exact ⟨_, _, rfl, .decided hresult⟩
  | stop mode =>
    simp only [handleCall]
    split
    · rename_i hunclean
      exact ⟨_, _, rfl, .unclean mode hunclean⟩
    · rename_i hclean hended
      exact ⟨_, _, rfl, .ended mode hclean hended⟩
    · rename_i hclean hrunning
      by_cases htimed : state.stopStage = some .force ∧ state.shutdownTimer = false
      · rw [if_pos htimed]
        exact ⟨_, _, rfl, .timedOut mode hclean⟩
      · rw [if_neg htimed]
        have hbegin := beginStop_eq (state.awaitStop caller) mode (.stopped mode)
        have hset : state.stopStage = some .force → state.shutdownTimer = true := by
          intro hforce
          by_contra hunset
          exact htimed ⟨hforce, by simpa using hunset⟩
        exact ⟨_, _, goes_on hbegin, .stops mode hclean hrunning hset⟩

/-- The effects of a message and the state that it leaves. -/
inductive Handles (state : State) : Message → List Entry → State → Prop
  | ignored {message : Message} (harmless : ∀ text, message ≠ .cleanupError text) :
      Handles state message [] state
  | heard (stream : Stream) (osPid : Option ℕ) (bytes : String) :
      Handles state (.output stream osPid bytes) [.notify (.output stream bytes)] state
  | unclean (message : String) :
      Handles state (.cleanupError message) (state.reportsUnclean message) (state.unclean message)
  | exited {pid : ℕ} (reason : ExitReason) (runner : state.runner = some pid) :
      Handles state (.exit pid reason) (state.completes reason) (state.completed reason)
  | proceeds {message : Message} {current : Request} {result : Except RequestError String}
      {es : List Entry} {state' : State} (asked : state.request = some current)
      (answer : message = .requestResult current.pid result ∨ ∃ error, result = .error error)
      (harmless : ∀ text, message ≠ .cleanupError text) (starting : state.status.phase = .starting)
      (proceeds : Proceeds { state with request := none } current.kind result es state') :
      Handles state message es state'
  | late {message : Message} (kind : RequestKind) (result : Except RequestError String)
      (harmless : ∀ text, message ≠ .cleanupError text) (late : state.status.phase ≠ .starting) :
      Handles state message (state.stopReplied kind result) { state with request := none }
  | orphaned (gone : state.runner = none) :
      Handles state .ownerDown [] { state with ownerDead := true }
  | ownerDown {runner : ℕ} (running : state.runner = some runner) :
      Handles state .ownerDown
        ({ state with ownerDead := true }.begins .force .ownerDown)
        ({ state with ownerDead := true }.begun .force .ownerDown)
  | poll (starting : state.status.phase = .starting) :
      Handles state .poll (state.requests (if state.status.apiReady then .info else .ping))
        (state.requested (if state.status.apiReady then .info else .ping))
  | expires (starting : state.status.phase = .starting) :
      Handles state .readinessTimeout (state.begins .force .readinessTimeout)
        (state.begun .force .readinessTimeout)
  | escalates (graceful : state.stopStage = some .graceful) :
      Handles state .forceStop
        (state.cancels ++ (state.hooks ++ [.killTree state.runner])) state.forced
  | givesUp (running : state.runner.isSome) (force : state.stopStage = some .force)
      (clean : state.cleanupError = none) :
      Handles state .shutdownTimeout state.givesUp state.givenUp

/-- An answer to the current request, or that its process has ended. -/
theorem requestResult_handles {state : State} {message : Message} {current : Request}
    {result : Except RequestError String} (hcurrent : state.request = some current)
    (hanswer : message = .requestResult current.pid result ∨ ∃ error, result = .error error)
    (hharmless : ∀ text, message ≠ .cleanupError text)
    (hkind : state.status.phase = .starting → current.kind ≠ .shutdown) :
    ∃ es state', (do
        let state ← requestResult true { state with request := none } current.kind result
        return Next.noreply state) = ⟨es, .ok (.noreply state')⟩ ∧ Handles state message es state' := by
  by_cases hphase : state.status.phase = .starting
  · have hphase' : { state with request := none }.status.phase = .starting := hphase
    obtain ⟨es, state', hcode, hproceeds⟩ :=
      requestResult_starting result hphase' (hkind hphase)
    exact ⟨es, state', goes_on hcode, .proceeds hcurrent hanswer hharmless hphase hproceeds⟩
  · have hphase' : { state with request := none }.status.phase ≠ .starting := hphase
    exact ⟨_, _, goes_on (requestResult_late current.kind result hphase'),
      .late current.kind result hharmless hphase⟩

/-- A message never raises while the runner answers. -/
theorem handleInfo_eq {state : State} (message : Message)
    (hkind : state.status.phase = .starting → ∀ r, state.request = some r → r.kind ≠ .shutdown) :
    ∃ es next state', handleInfo true state message = ⟨es, .ok next⟩ ∧ Goes next state' ∧
      Handles state message es state' := by
  have hquiet {m : Message} (hm : ∀ text, m ≠ .cleanupError text) :
      ∃ es next state', (pure (.noreply state) : Code Next) = ⟨es, .ok next⟩ ∧ Goes next state' ∧
        Handles state m es state' := ⟨_, _, _, rfl, Or.inl rfl, .ignored hm⟩
  cases message with
  | output stream osPid bytes =>
    simp only [handleInfo]
    by_cases hown : state.status.osPid = osPid
    · rw [if_pos hown]
      exact ⟨_, _, _, rfl, Or.inl rfl, .heard stream osPid bytes⟩
    · rw [if_neg hown]
      exact ⟨_, _, _, rfl, Or.inl rfl, .ignored fun _ h => by cases h⟩
  | cleanupError text =>
    exact ⟨_, _, _, goes_on (cleanupFailed_eq state text), Or.inl rfl, .unclean text⟩
  | exit pid reason =>
    simp only [handleInfo]
    by_cases hrunner : state.runner = some pid
    · rw [if_pos hrunner, completeExit_eq, bind_ended]
      refine ⟨_, _, state.completed reason, Run.ext (List.append_nil _) rfl, ?_,
        .exited reason hrunner⟩
      unfold Goes
      split
      · exact Or.inr ⟨rfl, rfl⟩
      · exact Or.inl rfl
    · rw [if_neg hrunner]
      exact hquiet fun _ h => by cases h
  | requestResult pid result =>
    simp only [handleInfo]
    split
    · rename_i current hcurrent
      by_cases hpid : current.pid = pid
      · subst hpid
        rw [if_pos rfl]
        obtain ⟨es, state', hcode, hhandles⟩ := requestResult_handles hcurrent (Or.inl rfl)
          (fun _ h => by cases h) fun hphase => hkind hphase current hcurrent
        exact ⟨es, _, state', hcode, Or.inl rfl, hhandles⟩
      · rw [if_neg hpid]
        exact hquiet fun _ h => by cases h
    · exact hquiet fun _ h => by cases h
  | ownerDown =>
    simp only [handleInfo]
    by_cases hgone : state.runner = none
    · rw [if_pos hgone]
      exact ⟨_, _, _, rfl, Or.inr ⟨rfl, hgone⟩, .orphaned hgone⟩
    · rw [if_neg hgone]
      obtain ⟨runner, hrunner⟩ := Option.ne_none_iff_exists'.mp hgone
      have hbegin := beginStop_eq { state with ownerDead := true } .force .ownerDown
      exact ⟨_, _, _, goes_on hbegin, Or.inl rfl, .ownerDown hrunner⟩
  | requestDown pid reason =>
    simp only [handleInfo]
    split
    · rename_i current hcurrent
      by_cases hpid : current.pid = pid
      · subst hpid
        rw [if_pos rfl]
        have hdown : ∀ text, Message.requestDown current.pid reason ≠ .cleanupError text :=
          fun _ h => by cases h
        obtain ⟨es, state', hcode, hhandles⟩ := requestResult_handles hcurrent (Or.inr ⟨_, rfl⟩)
          hdown fun hphase => hkind hphase current hcurrent
        exact ⟨es, _, state', hcode, Or.inl rfl, hhandles⟩
      · rw [if_neg hpid]
        exact hquiet fun _ h => by cases h
    · exact hquiet fun _ h => by cases h
  | poll =>
    simp only [handleInfo]
    by_cases hphase : state.status.phase = .starting
    · rw [if_pos hphase]
      exact ⟨_, _, _, goes_on (request_eq state _), Or.inl rfl, .poll hphase⟩
    · rw [if_neg hphase]
      exact hquiet fun _ h => by cases h
  | readinessTimeout =>
    simp only [handleInfo]
    by_cases hphase : state.status.phase = .starting
    · rw [if_pos hphase]
      exact ⟨_, _, _, goes_on (beginStop_eq state _ _), Or.inl rfl, .expires hphase⟩
    · rw [if_neg hphase]
      exact hquiet fun _ h => by cases h
  | forceStop =>
    simp only [handleInfo]
    by_cases hstage : state.stopStage = some .graceful
    · rw [if_pos hstage]
      exact ⟨_, _, _, goes_on (forceStop_eq state), Or.inl rfl, .escalates hstage⟩
    · rw [if_neg hstage]
      exact hquiet fun _ h => by cases h
  | shutdownTimeout =>
    simp only [handleInfo]
    by_cases hstage : state.runner.isSome ∧ state.stopStage = some .force ∧
        state.cleanupError = none
    · rw [if_pos hstage]
      obtain ⟨hrunner, hforce, hclean⟩ := hstage
      exact ⟨_, _, _, goes_on (giveUp_eq state), Or.inl rfl, .givesUp hrunner hforce hclean⟩
    · rw [if_neg hstage]
      exact hquiet fun _ h => by cases h
  | other => exact hquiet fun _ h => by cases h

end Callbacks

end Sower.Hypervisor
