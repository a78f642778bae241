import Sower.Vm.RelayRuns

/-!
# What the relay of commands promises

At most one command of a virtual machine is in flight, and whoever wants to execute another is
refused. Every handle gets one result. A cancel of one command does nothing to another.
-/

namespace Sower.Vm

open Durable

namespace Relay

variable {w : Relay} {vm h h' : Pid} {codec : Protocol.Codec} {wording : Wording}

section Promises

/-- At most one command is in flight, the one that the execution waits for. Nobody can execute
another until the execution has its result and the virtual machine is ready. -/
structure Serial (w : Relay) : Prop where
  single : ∀ h ∈ w.inFlight, ∀ h' ∈ w.inFlight, h' = h
  current : w.execution.live = true → ∀ h ∈ w.inFlight, w.execution.command = some h
  refused : ∀ fresh caller process options, w.execution.status.persistent = true →
    (w.execution.live = true ∧ w.inFlight ≠ [] ∨ w.execution.status.phase ≠ .ready) →
    w.execution.execute fresh caller process options = w.execution.replied caller .busy ∨
      w.execution.execute fresh caller process options = w.execution.replied caller .vmUnavailable
  disposable : ∀ fresh caller process options, w.execution.status.persistent = false →
    w.execution.execute fresh caller process options = w.execution.replied caller .disposableVm

/-- Where a command is that the execution waits for. -/
inductive Carries (w : Relay) (h : Pid) : Prop
  | sent (hmail : .execute h ∈ w.toGuard)
  /-- The guard waits for it, and it is further down unless the process there has ended. -/
  | guarded (hactive : w.guard.point.active = true) (hcommand : w.guard.command = some h)
    (hlower : w.io.alive = true → w.lower = [h])
  | done (result : Result) (hmail : .commandFinished h result ∈ w.toExecution)
  /-- The guard stops the virtual machine or has died, and if it has ended its report is sent. -/
  | closing (hactive : w.guard.point.active = false) (hreport : w.guard.point = .ended →
      ∃ result cleanup, .vmFinished result cleanup ∈ w.toExecution)

/-- A handle is sent one result, once the execution does not wait for its command any more. What
it says was reported of its own command, or the virtual machine has ended. If the execution
ends before, the handle makes that its result. -/
structure Served (w : Relay) (h : Pid) (x : Desk) : Prop where
  once : x.sent.length ≤ 1
  answered : w.execution.command ≠ some h → ∃ result, x.sent = [result]
  carried : w.execution.live = true → w.execution.command = some h → x.sent = [] ∧ w.Carries h
  waiting : x.process.status = .running → x.inbox = x.sent
  finished : ∀ result, x.process.status = .finished result → x.inbox = [] ∧
    (x.sent = [result] ∨ x.sent = [] ∧ w.execution.running = false ∧
      ∃ reason, result = CommandExecution.vmDown reason)
  source : ∀ result ∈ x.sent, (h, result) ∈ w.completions ∨ w.execution.terminal = true

/-- The commands for which a cancel is on its way or in force. -/
def cancelling (w : Relay) : List Pid :=
  w.fromHandles.map Prod.fst ++ w.toGuard.filterMap (·.cancelled?) ++
    w.fromIo.filterMap (·.cancelled?) ++ w.toIo.filterMap (·.cancelled?) ++ w.timers ++
    (if w.guard.cancelTimer then w.guard.command.toList else []) ++ w.io.cancelled.toList

/-- A cancel is of a command that somebody had reason to cancel. While another command is in
flight, no process does anything about it. -/
structure Cancels (codec : Protocol.Codec) (w : Relay) : Prop where
  asked : ∀ h ∈ w.cancelling, h ∈ w.asked
  results : ∀ p ∈ w.completions, p.2.Cancels → p.1 ∈ w.asked
  execution : w.execution.live = true → ∀ h ∈ w.inFlight, ∀ h' ≠ h, ∀ reason,
    w.execution.cancelCommand h' reason = w.execution.idle
  guard : ∀ h ∈ w.inFlight, ∀ h' ≠ h, (∀ reason, w.guard.cancelCommand h' reason = w.guard.stay) ∧
    w.guard.cancelDeadline h' = w.guard.stay
  io : ∀ h ∈ w.inFlight, ∀ h' ≠ h, ∀ (io : Streaming.Io) (o : Streaming.Oracle Term) (c : Pid)
    (reason : Streaming.Reason), w.io = .up io → io.phase = .receiving → io.command = some c →
    io.receiveOutput codec o c (.cancel h' reason) = (io, [])

end Promises

section Samples

/-- Options of a virtual machine that stays for commands. -/
def sampleOptions : ExecutionOptions where
  executionId := 1
  owner := 9
  command := none
  managed := false

/-- Words for what nobody reads. -/
def sampleWording : Wording where
  decoded _ := .atom "event"
  result _ := .atom "result"

/-- A virtual machine boots, and somebody executes a command. -/
theorem reachable_command (codec : Protocol.Codec) : ∃ w x, Reachable 1 codec sampleWording w ∧
    w.inFlight = [40] ∧ w.desks 40 = some x := by
  have h := @Reachable.start 1 codec sampleWording sampleOptions 2 0 1 none
  have h := h.step _ _ (.guardActs _ _ (.registered true rfl))
  have h := h.step _ _ (.guardActs _ _ (.allocated (.ok "vm") rfl))
  have h := h.step _ _ (.guardActs _ _ (.prepared (.ok ()) rfl))
  have h := h.step _ _ (.guardActs _ _ (.formatterStarted (.ok 20) rfl))
  have h := h.step _ _ (.guardMessage _ (.exit 20 (.shutdown (.exitStatus 0))) trivial (Or.inl rfl))
  have h := h.step _ _ (.guardActs _ _ (.provisioned (.provisioned none) rfl))
  have h := h.step _ _ (.guardActs _ _ (.admitted false rfl))
  have h := h.step _ _ (.launched _ 21 22 100 2 rfl)
  have h := h.step _ _ (.connected _ 2 30 5 rfl)
  have h := h.step _ _ (.guardFromIo _ [] [] .guestReady rfl (Or.inl rfl) (Or.inl rfl))
  have h := h.step _ _ (.fromGuard _ _ _ 40 rfl rfl rfl)
  have h := h.step _ _ (.fromGuard _ _ _ 40 rfl rfl rfl)
  have h := h.step _ _ (.fromGuard _ _ _ 40 rfl rfl rfl)
  have h := h.step _ _ (.call _ (.execute 7 8 {}) 40 rfl trivial rfl)
  exact ⟨_, _, h, rfl, rfl⟩

end Samples

section Proofs

/-- The command that is in flight, if there is one. -/
theorem Inv.flight (hinv : w.Inv) : ∃ c : Option Pid, (∀ h ∈ w.inFlight, c = some h) ∧
    (w.execution.live = true → c = w.execution.command) := by
  obtain ⟨c, hc, hcurrent⟩ := hinv.routed.current
  refine ⟨c, fun h hh => ?_, hcurrent⟩
  have hupper : h ∈ w.upper := by
    rcases List.mem_append.mp hh with hh | hh
    · exact hh
    · have hcommand := hinv.routed.below.subset hh
      exact List.mem_append_left _ (List.mem_append_right _ hcommand)
  exact Option.mem_toList.mp (hc.subset hupper)

/-- In every run at most one command is in flight. -/
theorem Reachable.serial (hw : Reachable vm codec wording w) : w.Serial := by
  obtain ⟨c, hc, hcurrent⟩ := hw.inv.flight
  refine ⟨fun h hh h' hh' => ?_, fun hlive h hh => ?_, ?_, ?_⟩
  · have hsame := hc h' hh'
    rw [hc h hh] at hsame
    exact (Option.some.inj hsame).symm
  · rw [← hcurrent hlive]
    exact hc h hh
  · intro fresh caller process options hpersistent hunready
    have hkeeps : ¬ (!w.execution.status.persistent) = true := by simp [hpersistent]
    unfold Execution.execute
    rw [if_neg hkeeps]
    cases hcommand : w.execution.command with
    | some known => exact Or.inl (if_pos rfl)
    | none =>
      right
      have hphase : w.execution.status.phase ≠ .ready := by
        rcases hunready with ⟨hlive, hflight⟩ | hphase
        · obtain ⟨h, hh⟩ := List.exists_mem_of_ne_nil _ hflight
          have hsome := hc h hh
          rw [hcurrent hlive, hcommand] at hsome
          cases hsome
        · exact hphase
      rw [if_neg (by simp), if_pos hphase]
  · intro fresh caller process options hdisposable
    unfold Execution.execute
    rw [if_pos (by simp [hdisposable])]

theorem serial_command : ∃ w : Relay, w.Serial ∧ w.inFlight = [40] := by
  obtain ⟨w, x, hw, hflight, -⟩ := reachable_command Protocol.exitedCodec
  exact ⟨w, hw.serial, hflight⟩

theorem Inv.carries (hinv : w.Inv) (hlive : w.execution.live = true)
    (hcommand : w.execution.command = some h) : w.Carries h := by
  cases hactive : w.guard.point.active with
  | true =>
    have hkept := hinv.routed.kept hlive hactive
    have hmem : h ∈ w.upper := by
      rw [hkept, hcommand]
      exact List.mem_cons_self
    rcases List.mem_append.mp hmem with hmem | hmem
    · rcases List.mem_append.mp hmem with hmem | hmem
      · obtain ⟨m, hm, hexecuted⟩ := List.mem_filterMap.mp hmem
        cases m <;> cases hexecuted
        exact .sent hm
      · have hguard : w.guard.command = some h := Option.mem_toList.mp hmem
        refine .guarded hactive hguard fun halive => ?_
        rw [hinv.routed.held hactive halive, hguard]
        rfl
    · obtain ⟨m, hm, hcompleted⟩ := List.mem_filterMap.mp hmem
      cases m <;> cases hcompleted
      exact .done _ hm
  | false =>
    refine .closing hactive fun hended => ?_
    obtain ⟨before, last, hmail, -, hlast⟩ := hinv.closing.ended hended hlive
    have hmem : last ∈ w.toExecution := by
      rw [hmail]
      simp
    have hguard := hinv.closing.sent last hmem
    cases last with
    | vmFinished result cleanup => exact ⟨result, cleanup, hmem⟩
    | guardDown reason => cases hguard
    | _ => cases hlast

/-- In every run every handle gets one result. -/
theorem Reachable.served (hw : Reachable vm codec wording w) {x : Desk} (hx : w.desks h = some x) :
    w.Served h x := by
  have hsound := hw.inv.desked.desk h x hx
  refine ⟨hsound.length_sent, fun hne => ?_, fun hlive hcommand => ⟨?_, hw.inv.carries hlive hcommand⟩,
    fun hstatus => ?_, fun result hstatus => ?_, hw.inv.heeded.sent h x hx⟩
  · rcases hsound.sent with ⟨hcommand, -⟩ | ⟨-, hone⟩
    · exact absurd hcommand hne
    · exact hone
  · rcases hsound.sent with ⟨-, hnil⟩ | ⟨hne, -⟩
    · exact hnil
    · exact absurd hcommand hne
  · cases hsound.stage with
    | waiting _ hinbox => exact hinbox
    | answered result hfinished hinbox hsent =>
      rw [hstatus] at hfinished
      cases hfinished
    | orphaned reason hfinished hinbox hsent hdown =>
      rw [hstatus] at hfinished
      cases hfinished
  · cases hsound.stage with
    | waiting hrunning hinbox =>
      rw [hstatus] at hrunning
      cases hrunning
    | answered known hfinished hinbox hsent =>
      rw [hstatus] at hfinished
      cases hfinished
      exact ⟨hinbox, Or.inl hsent⟩
    | orphaned reason hfinished hinbox hsent hdown =>
      rw [hstatus] at hfinished
      cases hfinished
      exact ⟨hinbox, Or.inr ⟨hsent, hdown, reason, rfl⟩⟩

theorem served_command : ∃ (w : Relay) (x : Desk), w.desks 40 = some x ∧ w.Served 40 x := by
  obtain ⟨w, x, hw, -, hx⟩ := reachable_command Protocol.exitedCodec
  exact ⟨w, x, hx, hw.served hx⟩

end Proofs

end Relay

end Sower.Vm
