import Sower.Vm.Execution

/-!
# The handle of a command

Whoever executes a command gets a process of its own for it. That process waits for the one
result of the command, asks the execution to cancel it when it is told to, when time is up or
when the caller is gone, and answers those who await the result.
-/

namespace Sower.Vm

open Durable

section Messages

/-- `VM.CommandStatus` -/
inductive CommandStatus where
  | running
  | finished (result : Result)
  deriving DecidableEq

/-- Answers of a handle. -/
inductive CommandAnswer where
  | ok
  | status (status : CommandStatus)
  | result (result : Result)
  deriving DecidableEq

/-- What a handle does to the outside. -/
inductive CommandEffect where
  | monitor (ref : Ref) (pid : Pid)
  | demonitor (ref : Ref)
  | sendAfter (timer : Ref) (ms : ℕ)
  | cancelTimer (timer : Ref)
  | reply (caller : Caller) (answer : CommandAnswer)
  /-- Send `{:cancel_command, self(), reason}` to the execution. -/
  | cancelCommand (vm : Pid) (reason : Term)
  deriving DecidableEq

/-- Messages of a handle. -/
inductive CommandMessage where
  | status (caller : Caller)
  | await (caller : Caller)
  | cancel (caller : Caller)
  | deadline
  | commandFinished (result : Result)
  /-- `{:DOWN, ref, :process, pid, reason}` -/
  | down (ref : Ref) (reason : Term)

/-- `CommandExecution` -/
structure CommandExecution where
  vm : Pid
  vmMonitor : Ref
  callerMonitor : Ref
  callerAlive : Bool := true
  retain : Bool
  timer : Ref
  status : CommandStatus := .running
  waiters : List Caller := []
  /-- The process has not ended. -/
  running : Bool := true

/-- A turn of a handle. -/
abbrev CommandTurn := Turn CommandExecution CommandEffect

end Messages

namespace CommandExecution

/-- `init` -/
def start (vm caller : Pid) (deadlineMs : ℕ) (retain : Bool) : CommandTurn :=
  .emit [.monitor 0 vm, .monitor 1 caller, .sendAfter 2 deadlineMs]
    { vm := vm, vmMonitor := 0, callerMonitor := 1, retain := retain, timer := 2 }

/-- `{:error, {:vm_down, reason}}` -/
def vmDown (reason : Term) : Result := .error (.tagged "vm_down" reason)

variable (x : CommandExecution)

section Turns

/-- Nothing is done. -/
def idle : CommandTurn := .emit [] x

/-- The process dies of a message that no clause is for. -/
def crashed : CommandTurn := .emit [] { x with running := false }

/-- `:await` -/
def await (caller : Caller) : CommandTurn :=
  match x.status with
  | .running => .emit [] { x with waiters := caller :: x.waiters }
  | .finished result => .emit [.reply caller (.result result)] x

/-- The execution is asked to cancel a command that is running. -/
def requests (reason : String) : List CommandEffect :=
  match x.status with
  | .running => [.cancelCommand x.vm (.atom reason)]
  | .finished _ => []

/-- `:cancel` -/
def cancel (caller : Caller) : CommandTurn :=
  .emit (x.requests "cancelled" ++ [.reply caller .ok]) x

/-- `:deadline` -/
def deadline : CommandTurn := .emit (x.requests "timeout") x

/-- `complete` -/
def complete (result : Result) : CommandTurn :=
  match x.status with
  | .finished _ => x.idle
  | .running =>
    .emit ([.cancelTimer x.timer, .demonitor x.vmMonitor] ++
        x.waiters.map fun caller => .reply caller (.result result))
      { x with
        waiters := []
        status := .finished result
        running := x.callerAlive && x.retain }

/-- `{:DOWN, ref, :process, pid, reason}` of the caller -/
def callerDown : CommandTurn :=
  match x.status with
  | .running => .emit (x.requests "caller_down") { x with callerAlive := false }
  | .finished _ => .emit [] { x with running := false }

/-- `{:DOWN, ref, :process, pid, reason}` -/
def down (ref : Ref) (reason : Term) : CommandTurn :=
  if ref = x.vmMonitor then x.complete (vmDown reason)
  else if ref = x.callerMonitor then x.callerDown
  else x.crashed

/-- `handle_call` and `handle_info` -/
def handle : CommandMessage → CommandTurn
  | .status caller => .emit [.reply caller (.status x.status)] x
  | .await caller => x.await caller
  | .cancel caller => x.cancel caller
  | .deadline => x.deadline
  | .commandFinished result => x.complete result
  | .down ref reason => x.down ref reason

/-- A message, if the process has not ended. -/
def turn (message : CommandMessage) : CommandTurn :=
  if x.running then x.handle message else x.idle

/-- Messages, one after the other. -/
def run : List CommandMessage → CommandExecution → CommandTurn
  | [], x => x.idle
  | message :: rest, x => (x.turn message).andThen (run rest)

end Turns

section Results

variable {x : CommandExecution} {message : CommandMessage} {result : Result}

/-- The result that a message brings. -/
def outcome? (x : CommandExecution) : CommandMessage → Option Result
  | .commandFinished result => some result
  | .down ref reason => if ref = x.vmMonitor then some (vmDown reason) else none
  | _ => none

/-- The cancels that a turn asks for. -/
def reasons (effects : List CommandEffect) : List Term :=
  effects.filterMap fun effect => match effect with
    | .cancelCommand _ reason => some reason
    | _ => none

theorem complete_of_running (h : x.status = .running) (result : Result) :
    x.complete result = .emit ([.cancelTimer x.timer, .demonitor x.vmMonitor] ++
        x.waiters.map fun caller => .reply caller (.result result))
      { x with
        waiters := []
        status := .finished result
        running := x.callerAlive && x.retain } := by
  unfold complete
  rw [h]

theorem complete_of_finished (h : x.status = .finished result) (later : Result) :
    x.complete later = x.idle := by
  unfold complete
  rw [h]

/-- A handle that is done keeps its result, and asks for no cancel. -/
theorem handle_of_finished (h : x.status = .finished result) :
    (x.handle message).state.status = .finished result ∧
      reasons (x.handle message).effects = [] := by
  cases message with
  | status caller => exact ⟨h, rfl⟩
  | await caller => simp [handle, await, h, reasons]
  | cancel caller => simp [handle, cancel, requests, h, reasons]
  | deadline => simp [handle, deadline, requests, h, reasons]
  | commandFinished later =>
    change (x.complete later).state.status = _ ∧ reasons (x.complete later).effects = []
    rw [complete_of_finished h]
    exact ⟨h, rfl⟩
  | down ref reason =>
    change (x.down ref reason).state.status = _ ∧ reasons (x.down ref reason).effects = []
    unfold down
    split
    · rw [complete_of_finished h]
      exact ⟨h, rfl⟩
    · split
      · simp [callerDown, h, reasons]
      · exact ⟨h, rfl⟩

/-- The first result ends a command that was running. It asks for no cancel. -/
theorem handle_outcome (h : x.status = .running) (houtcome : x.outcome? message = some result) :
    (x.handle message).state.status = .finished result ∧
      reasons (x.handle message).effects = [] := by
  have hcomplete : x.handle message = x.complete result := by
    cases message with
    | commandFinished later =>
      cases houtcome
      rfl
    | down ref reason =>
      change (if ref = x.vmMonitor then some (vmDown reason) else none) = some result at houtcome
      split at houtcome
      · rename_i href
        cases houtcome
        exact if_pos href
      · cases houtcome
    | status caller => cases houtcome
    | await caller => cases houtcome
    | cancel caller => cases houtcome
    | deadline => cases houtcome
  rw [hcomplete, complete_of_running h]
  refine ⟨rfl, ?_⟩
  simp [reasons]

/-- A message without a result leaves the command running. -/
theorem handle_without_outcome (h : x.status = .running) (houtcome : x.outcome? message = none) :
    (x.handle message).state.status = .running := by
  cases message with
  | status caller => exact h
  | await caller => simp [handle, await, h]
  | cancel caller => exact h
  | deadline => exact h
  | commandFinished later => cases houtcome
  | down ref reason =>
    change (if ref = x.vmMonitor then some (vmDown reason) else none) = none at houtcome
    change (x.down ref reason).state.status = .running
    unfold down
    split at houtcome
    · cases houtcome
    · rename_i href
      rw [if_neg href]
      split
      · simp [callerDown, h]
      · exact h

/-- Whoever is answered with a result is answered with the one of the command. -/
theorem handle_reply {caller : Caller}
    (h : .reply caller (.result result) ∈ (x.handle message).effects) :
    (x.handle message).state.status = .finished result := by
  have hcomplete : ∀ later : Result, .reply caller (.result result) ∈ (x.complete later).effects →
      (x.complete later).state.status = .finished result := by
    intro later hmem
    cases hstatus : x.status with
    | running =>
      rw [complete_of_running hstatus] at hmem ⊢
      simp only [Turn.emit_effects, List.cons_append, List.nil_append, List.mem_cons, reduceCtorEq,
        List.mem_map, CommandEffect.reply.injEq, CommandAnswer.result.injEq, false_or] at hmem
      obtain ⟨-, -, -, rfl⟩ := hmem
      rfl
    | finished known =>
      rw [complete_of_finished hstatus] at hmem
      cases hmem
  have hrequests : ∀ reason, CommandEffect.reply caller (.result result) ∉ x.requests reason := by
    intro reason hmem
    cases hstatus : x.status <;> simp [requests, hstatus] at hmem
  cases message with
  | status caller =>
    cases List.mem_singleton.mp h
  | await caller =>
    change _ ∈ (x.await _).effects at h
    change (x.await _).state.status = _
    cases hstatus : x.status with
    | running => simp [await, hstatus] at h
    | finished known =>
      simp only [await, hstatus, Turn.emit_effects, List.mem_singleton, CommandEffect.reply.injEq,
        CommandAnswer.result.injEq] at h
      simp [await, hstatus, h.2]
  | cancel caller =>
    rcases List.mem_append.mp h with hmem | hmem
    · exact absurd hmem (hrequests _)
    · cases List.mem_singleton.mp hmem
  | deadline => exact absurd h (hrequests _)
  | commandFinished later => exact hcomplete later h
  | down ref reason =>
    change _ ∈ (x.down ref reason).effects at h
    change (x.down ref reason).state.status = _
    unfold down at h ⊢
    split at h
    · rename_i href
      rw [if_pos href]
      exact hcomplete _ h
    · split at h
      · cases hstatus : x.status with
        | running => simp [callerDown, requests, hstatus] at h
        | finished known => simp [callerDown, hstatus] at h
      · cases h

/-- Once a command has its result, no message changes that. -/
theorem run_of_finished (messages : List CommandMessage) (h : x.status = .finished result) :
    (run messages x).state.status = .finished result := by
  induction messages generalizing x with
  | nil => exact h
  | cons message rest ih =>
    refine ih ?_
    unfold turn
    split
    · exact (handle_of_finished h).1
    · exact h

/-- All who await a command are told the same. -/
theorem run_reply (messages : List CommandMessage) {caller : Caller}
    (h : .reply caller (.result result) ∈ (run messages x).effects) :
    (run messages x).state.status = .finished result := by
  induction messages generalizing x with
  | nil => cases h
  | cons message rest ih =>
    rcases List.mem_append.mp h with hfirst | hrest
    · refine run_of_finished rest ?_
      unfold turn at hfirst ⊢
      split at hfirst
      · rename_i hrunning
        rw [if_pos hrunning]
        exact handle_reply hfirst
      · cases hfirst
    · exact ih hrest

end Results

end CommandExecution

end Sower.Vm
