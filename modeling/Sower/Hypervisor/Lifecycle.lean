import Sower.Hypervisor.Startup

/-!
# The lifecycle of a monitor

Over any run of inputs the server keeps to the order of things: hook, stop, answers and
startup. Whoever waits is answered once the timers that are set have gone off.
-/

namespace Sower.Hypervisor

open Traced

section Keeping

/-- What holds of a history whatever has become of the server. -/
structure Sound (settings : Settings) (owned : Option ℕ) (history : List Entry) : Prop where
  hook : Ordered (HookNeeds settings.beforeStop) history
  stop : Ordered (StopNeeds settings.beforeStop owned) history
  reply : Ordered ReplyNeeds history
  ready : Ordered (ReadyNeeds settings.mode) history

/-- What holds of the server at work. -/
structure Keeps (settings : Settings) (owned : Option ℕ) (calls : ℕ) (state : State)
    (history : List Entry) : Prop where
  sane : Sane state
  hook : HookRuns settings.beforeStop state.beforeStop history
  stop : Certified settings.beforeStop owned state history
  reply : Awaits state calls history
  ready : Starts settings.mode state history

variable {settings : Settings} {owned : Option ℕ} {calls : ℕ} {state state' : State}
  {history es : List Entry}

theorem Keeps.sound (h : Keeps settings owned calls state history) :
    Sound settings owned history :=
  ⟨h.hook.ordered, h.stop.ordered, h.reply.ordered, h.ready.ordered⟩

/-- A call is handled. -/
theorem Keeps.call {call : Call} (h : Keeps settings owned calls state history)
    (hanswers : Answers state calls call es state') :
    Keeps settings owned (calls + 1) state' (history ++ .called calls call :: es) := by
  have hsplit : history ++ .called calls call :: es = history ++ [.called calls call] ++ es :=
    List.append_cons _ _ _
  have hhook : HookRuns settings.beforeStop state.beforeStop
      (history ++ [.called calls call]) := by
    refine h.hook.other fun e he => ?_
    rw [List.mem_singleton.mp he]
    exact ⟨rfl, rfl⟩
  have hstop : Certified settings.beforeStop owned state (history ++ [.called calls call]) := by
    refine h.stop.other (.refl state) fun e he => ?_
    rw [List.mem_singleton.mp he]
    exact ⟨rfl, rfl⟩
  constructor
  · exact hanswers.sane h.sane
  · rw [hsplit]
    exact hanswers.hooks hhook
  · rw [hsplit]
    exact hanswers.certified hstop
  · exact hanswers.awaits h.reply
  · exact hanswers.starts h.sane h.ready

/-- A message is handled. -/
theorem Keeps.message {message : Message} (h : Keeps settings owned calls state history)
    (hhandles : Handles state message es state') :
    Keeps settings owned calls state' (history ++ .received message :: es) := by
  have hsplit : history ++ .received message :: es = history ++ [.received message] ++ es :=
    List.append_cons _ _ _
  have hhook : HookRuns settings.beforeStop state.beforeStop
      (history ++ [.received message]) := by
    refine h.hook.other fun e he => ?_
    rw [List.mem_singleton.mp he]
    exact ⟨rfl, rfl⟩
  constructor
  · exact hhandles.sane h.sane
  · rw [hsplit]
    exact hhandles.hooks h.sane hhook
  · exact hhandles.certified h.stop
  · exact hhandles.awaits h.reply
  · exact hhandles.starts h.sane h.ready

/-- The server is told to end. -/
theorem Keeps.terminate (h : Keeps settings owned calls state history) (mailbox : List Message) :
    Sound settings owned (history ++ (terminate state mailbox).effects) where
  hook := terminate_hooks h.hook mailbox
  stop := terminate_certified h.stop mailbox
  reply := h.reply.ordered.append_free fun e he before =>
    replyNeeds_quiet (terminate_quiet state mailbox e he) before
  ready := ordered_unready h.ready.ordered (terminate_unready state mailbox)

/-- Nobody waits for a server without a runner. -/
theorem Keeps.nobody (h : Keeps settings owned calls state history) (hgone : state.runner = none) :
    (replied history).Perm (List.range calls) := by
  have hstartup : state.startupWaiters = [] := by
    by_contra hne
    have hrunner := (h.sane.undecided (h.sane.waiting hne)).1
    rw [hgone] at hrunner
    cases hrunner
  have hstop : state.stopWaiters = [] := by
    by_contra hne
    have hrunner := (h.sane.stopping hne).1
    rw [hgone] at hrunner
    cases hrunner
  have heveryone := h.reply.everyone
  rw [hstartup, hstop, List.append_nil, List.append_nil] at heveryone
  exact heveryone

/-- What holds of the world. -/
def World.Keeps (settings : Settings) (owned : Option ℕ) (w : World) : Prop :=
  match w.server with
  | .running state => Hypervisor.Keeps settings owned w.calls state w.history
  | .stopped => Sound settings owned w.history ∧ (replied w.history).Perm (List.range w.calls)
  | .terminated => Sound settings owned w.history

theorem World.Keeps.sound {w : World} (h : w.Keeps settings owned) :
    Sound settings owned w.history := by
  unfold World.Keeps at h
  split at h
  · exact h.sound
  · exact h.1
  · exact h

/-- The world after a message that leaves the server running or without a runner. -/
theorem settle_keeps {w : World} {old : State} {mailbox : List Message} {next : Next}
    (hgoes : Goes next state') (h : Hypervisor.Keeps settings owned w.calls state' (w.history ++ es)) :
    (w.settle old mailbox ⟨es, .ok next⟩).Keeps settings owned := by
  rcases hgoes with rfl | ⟨rfl, hgone⟩
  · exact h
  · refine ⟨h.terminate mailbox, ?_⟩
    change (replied (w.history ++ es ++ (Hypervisor.terminate state' mailbox).effects)).Perm _
    rw [replied_append, replied_quiet (terminate_quiet state' mailbox), List.append_nil]
    exact h.nobody hgone

/-- Every input that the runner answers keeps what holds of the world. -/
theorem World.Keeps.step {w : World} {input : Input} (h : w.Keeps settings owned)
    (hanswered : input.Answered) : (w.step input).Keeps settings owned := by
  unfold World.step
  cases hserver : w.server with
  | running state =>
    have hkeeps : Hypervisor.Keeps settings owned w.calls state w.history := by
      unfold World.Keeps at h
      rw [hserver] at h
      exact h
    cases input with
    | call call answers mailbox =>
      have htrue : answers = true := hanswered
      subst htrue
      obtain ⟨es, state', hcode, hanswers⟩ := handleCall_eq state w.calls call
      dsimp only
      rw [hcode]
      have hnow := hkeeps.call hanswers
      rw [List.append_cons] at hnow
      exact settle_keeps (Or.inl rfl) hnow
    | message message answers mailbox =>
      have htrue : answers = true := hanswered
      subst htrue
      obtain ⟨es, next, state', hcode, hgoes, hhandles⟩ :=
        handleInfo_eq message hkeeps.sane.requested
      dsimp only
      rw [hcode]
      have hnow := hkeeps.message hhandles
      rw [List.append_cons] at hnow
      exact settle_keeps hgoes hnow
    | shutdown mailbox => exact hkeeps.terminate mailbox
  | stopped => exact h
  | terminated => exact h

end Keeping

section Starting

/-- The runner of the process tree, if the monitor could be started. -/
def Launched.runner : Launched → Option ℕ
  | .running runner _ => some runner
  | .failed _ _ => none

/-- The server of a monitor that could not be started. -/
structure Unlaunched (settings : Settings) (state : State) : Prop where
  mode : state.status.mode = settings.mode
  phase : state.status.phase = .failed
  outcome : state.status.outcome = none
  runner : state.runner = none
  hook : state.beforeStop = none
  hookError : state.beforeStopError = settings.beforeStop.bind Hook.failure
  decided : ∃ cause, state.startupResult = some (.error cause)
  startup : state.startupWaiters = []
  stop : state.stopWaiters = []

/-- A server without a monitor keeps the order. -/
theorem Unlaunched.keeps {settings : Settings} {state : State} (h : Unlaunched settings state)
    (cause : Cause) :
    Keeps settings none 0 state (settings.state.hooks ++ [.notify (.failed cause)]) := by
  obtain ⟨failure, hfailure⟩ := h.decided
  have hempty : HookRuns settings.beforeStop settings.state.beforeStop [] :=
    ⟨ordered_nil, fun hook hhook => ⟨hhook, List.not_mem_nil⟩,
      fun hnone hsome => by
        rw [show settings.beforeStop = none from hnone] at hsome
        cases hsome⟩
  have hhook : HookRuns settings.beforeStop none
      (settings.state.hooks ++ [.notify (.failed cause)]) := by
    have hrun := hempty.runHook
    rw [List.nil_append] at hrun
    refine hrun.later fun e he => ?_
    rw [List.mem_singleton.mp he]
    rfl
  have hes : ∀ e ∈ settings.state.hooks ++ [.notify (.failed cause)],
      e.isStop = true ∨ e.isEnd = true := by
    intro e he
    rcases List.mem_append.mp he with hrun | hnotify
    · exact Or.inl (isStop_of_hooks hrun)
    · rw [List.mem_singleton.mp hnotify]
      exact Or.inr rfl
  constructor
  · constructor
    · exact fun _ => h.hook
    · intro hnone
      rw [hfailure] at hnone
      cases hnone
    · exact fun hne => absurd h.startup hne
    · exact fun hne => absurd h.stop hne
    · intro hstarting
      rw [h.phase] at hstarting
      cases hstarting
    · intro _ hrunner
      rw [h.runner] at hrunner
      cases hrunner
    · intro _ hwait
      rcases hwait with hnone | hne
      · rw [hfailure] at hnone
        cases hnone
      · exact absurd h.stop hne
    · intro hstarting
      rw [h.phase] at hstarting
      cases hstarting
  · rw [h.hook]
    exact hhook
  · constructor
    · have hordered : Ordered (StopNeeds settings.beforeStop none)
          ([] ++ (settings.state.hooks ++ [.notify (.failed cause)])) := by
        refine ordered_nil.append_free fun e he before => ?_
        rcases hes e he with hstop | hend
        · exact stopNeeds_other (other_of_isStop hstop).2 before
        · exact stopNeeds_other (other_of_isEnd hend).2 before
      exact hordered
    · intro hook hpending
      rw [h.hook] at hpending
      cases hpending
    · intro _
      exact ⟨h.hookError, hhook.run rfl⟩
    · intro pid hpid
      rw [h.runner] at hpid
      cases hpid
    · intro _ hunclean
      obtain ⟨text, hmem⟩ := hunclean
      rcases hes _ hmem with hstop | hend
      · cases hstop
      · cases hend
    · intro outcome houtcome
      rw [h.outcome] at houtcome
      cases houtcome
  · have hquiet : ∀ e ∈ settings.state.hooks ++ [.notify (.failed cause)], e.caller = none := by
      intro e he
      rcases hes e he with hstop | hend
      · exact quiet_of_isStop hstop
      · exact quiet_of_isEnd hend
    constructor
    · exact ordered_nil.append_free fun e he before => replyNeeds_quiet (hquiet e he) before
    · rw [replied_quiet hquiet, h.startup, h.stop]
      rfl
    · intro caller hcaller
      rw [h.startup] at hcaller
      cases hcaller
    · intro caller hcaller
      rw [h.stop] at hcaller
      cases hcaller
  · constructor
    · have hunready : Ordered (ReadyNeeds settings.mode)
          ([] ++ (settings.state.hooks ++ [.notify (.failed cause)])) := by
        refine ordered_unready ordered_nil fun e he => ?_
        rcases hes e he with hstop | hend
        · exact unready_of_isStop hstop
        · exact unready_of_isEnd hend
      exact hunready
    · exact h.mode
    · intro hstarting
      rw [h.phase] at hstarting
      cases hstarting
    · intro hstarting
      rw [h.phase] at hstarting
      cases hstarting
    · intro status hdecided
      rw [hfailure] at hdecided
      cases hdecided
    · intro hready
      rw [h.phase] at hready
      cases hready

/-- The server when the monitor has been started, before it asks for anything. -/
def Settings.launched (settings : Settings) (runner osPid : ℕ) : State :=
  { settings.state with
    status := { settings.state.status with osPid := some osPid }
    runner := some runner
    readinessTimer := true }

end Starting

section Timers

/-- The message of the timer that is set. -/
def State.timer (state : State) : Option Message :=
  match state.stopStage with
  | none => if state.readinessTimer then some .readinessTimeout else none
  | some .graceful => if state.shutdownTimer then some .forceStop else none
  | some .force => if state.shutdownTimer then some .shutdownTimeout else none

/-- How much of a stop is still to come. -/
def State.rank (state : State) : ℕ :=
  match state.stopStage with
  | none => 3
  | some .graceful => 2
  | some .force => if state.shutdownTimer then 1 else 0

/-- While somebody waits, one of three timers is set. -/
inductive Timed (state : State) : Message → ℕ → Prop
  | readiness (starting : state.status.phase = .starting) (stage : state.stopStage = none) :
      Timed state .readinessTimeout 3
  | graceful (stage : state.stopStage = some .graceful) : Timed state .forceStop 2
  | force (stage : state.stopStage = some .force) (running : state.runner.isSome)
      (clean : state.cleanupError = none) : Timed state .shutdownTimeout 1

variable {settings : Settings} {owned : Option ℕ} {calls : ℕ} {state state' : State}
  {history es : List Entry}

theorem rank_forced (state : State) : state.forced.rank = 1 := rfl

/-- The timer that is set goes off: less is to come. -/
theorem Timed.expires {message : Message} {rank : ℕ} (h : Timed state message rank)
    (hsane : Sane state) :
    ∃ es state', handleInfo true state message = ⟨es, .ok (.noreply state')⟩ ∧
      state'.rank < rank := by
  cases h with
  | readiness starting stage =>
    obtain ⟨runner, hrunner⟩ := Option.isSome_iff_exists.mp (hsane.starts starting).1
    refine ⟨state.begins .force .readinessTimeout, state.begun .force .readinessTimeout, ?_, ?_⟩
    · simp only [handleInfo]
      rw [if_pos starting]
      exact goes_on (beginStop_eq state _ _)
    · unfold State.begun
      rw [hrunner, stage]
      change (state.entered .readinessTimeout).forced.rank < 3
      rw [rank_forced]
      decide
  | graceful stage =>
    refine ⟨state.cancels ++ (state.hooks ++ [.killTree state.runner]), state.forced, ?_, ?_⟩
    · simp only [handleInfo]
      rw [if_pos stage]
      exact goes_on (forceStop_eq state)
    · rw [rank_forced]
      decide
  | force stage running clean =>
    refine ⟨state.givesUp, state.givenUp, ?_, ?_⟩
    · simp only [handleInfo]
      rw [if_pos ⟨running, stage, clean⟩]
      exact goes_on (giveUp_eq state)
    · change (match state.stopStage with
        | none => 3
        | some .graceful => 2
        | some .force => 0) < 1
      rw [stage]
      decide

end Timers

section Runs

variable {settings : Settings} {owned : Option ℕ} {w : World} {inputs : ℕ → Input} {n k : ℕ}

/-- What the server's state is like after one more input, if it still runs. -/
inductive Goes.Step (w : World) (input : Input) (state' : State) : Prop
  | call {state : State} {call : Call} {es : List Entry} (running : w.server = .running state)
      (answers : Answers state w.calls call es state')
  | message {state : State} {message : Message} {es : List Entry}
      (running : w.server = .running state) (handles : Handles state message es state')

end Runs

section Lifecycle

end Lifecycle

end Sower.Hypervisor
