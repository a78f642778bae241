import Sower.Vm.CommandExecution
import Sower.Vm.ExecutionStops
import Sower.Vm.Guard

/-!
# Messages about commands, and the execution's turns

A command goes from the execution to the guard and from there to the process that talks to the
guest, and its result goes the same way back. Each of the three has many messages to handle, of
which few are about commands. A turn of the execution leaves the current command alone, begins
one, answers it, or ends them all.
-/

namespace Sower.Vm

open Durable

section Kinds

/-- The command that a message to the guard brings. -/
def GuardMessage.executed? : GuardMessage → Option Pid
  | .execute command => some command
  | _ => none

/-- The command that a message to the guard cancels. -/
def GuardMessage.cancelled? : GuardMessage → Option Pid
  | .cancelCommand command _ => some command
  | _ => none

/-- The command and the result that a message to the guard brings. -/
def GuardMessage.result? : GuardMessage → Option (Pid × Result)
  | .commandFinished command result => some (command, result)
  | _ => none

/-- The command that a message to the guard says has finished. -/
def GuardMessage.completed? (m : GuardMessage) : Option Pid := m.result?.map Prod.fst

/-- The command and the result that a message to the execution brings. -/
def ExecutionMessage.result? : ExecutionMessage → Option (Pid × Result)
  | .commandFinished command result => some (command, result)
  | _ => none

/-- The command that a message to the execution says has finished. -/
def ExecutionMessage.completed? (m : ExecutionMessage) : Option Pid := m.result?.map Prod.fst

/-- The command that a message has the execution cancel. -/
def ExecutionMessage.cancelled? : ExecutionMessage → Option Pid
  | .cancelCommand command _ => some command
  | .down _ command => some command
  | _ => none

/-- Messages of the guard to the process that talks to the guest. -/
inductive IoMessage where
  | execute (command : Pid)
  | cancel (command : Pid) (reason : Term)
  deriving DecidableEq

/-- The command that a message to that process brings. -/
def IoMessage.executed? : IoMessage → Option Pid
  | .execute command => some command
  | .cancel _ _ => none

/-- The command that a message to that process cancels. -/
def IoMessage.cancelled? : IoMessage → Option Pid
  | .execute _ => none
  | .cancel command _ => some command

/-- What the execution does about a handle: it starts it, or sends it the result. -/
inductive News where
  | started (caller : Pid) (deadlineMs : ℕ) (retain : Bool)
  | finished (result : Result)

/-- The message to the guard that an effect is. -/
def ExecutionEffect.toGuard : ExecutionEffect → Option GuardMessage
  | .finish _ result => some (.finish result)
  | .cancelCommand _ command reason => some (.cancelCommand command reason)
  | .execute _ handle => some (.execute handle)
  | _ => none

/-- The handle that an effect is about. -/
def ExecutionEffect.news : ExecutionEffect → Option (Pid × News)
  | .startCommand handle caller deadlineMs retain =>
    some (handle, .started caller deadlineMs retain)
  | .commandFinished command result => some (command, .finished result)
  | _ => none

/-- The message to the execution that an effect is. -/
def GuardEffect.toExecution : GuardEffect → Option ExecutionMessage
  | .status changes => some (.vmStatus changes)
  | .commandFinished command result => some (.commandFinished command result)
  | .report result cleanup _ => some (.vmFinished result cleanup)
  | _ => none

/-- The message to the process that talks to the guest. -/
def GuardEffect.toIo : GuardEffect → Option IoMessage
  | .execute _ command => some (.execute command)
  | .cancel _ command reason => some (.cancel command reason)
  | _ => none

/-- The command for which a deadline is set. -/
def GuardEffect.timer : GuardEffect → Option Pid
  | .armCancel command => some command
  | _ => none

end Kinds

namespace Execution

section Doings

/-- What a turn of the execution can do about commands. -/
inductive Does (e : Execution) (fresh : Pid) (m : ExecutionMessage) (t : ExecutionTurn) : Prop
  | keeps (hcommand : t.state.command = e.command) (hterminal : t.state.terminal = e.terminal)
      (hrunning : t.state.running = true → m.completed? = none)
      (hreport : m.report? = none ∨ e.terminal = true)
      (hnews : t.effects.filterMap (·.news) = [])
      (hmail : ∀ g ∈ t.effects.filterMap (·.toGuard), g.executed? = none ∧ g.completed? = none ∧
        ∀ c, g.cancelled? = some c → m.cancelled? = some c)
  | begins (caller : Pid) (deadlineMs : ℕ) (retain : Bool) (hnone : e.command = none)
      (hlive : e.terminal = false) (hmessage : m.completed? = none ∧ m.report? = none)
      (hcommand : t.state.command = some fresh) (hterminal : t.state.terminal = false)
      (hnews : t.effects.filterMap (·.news) = [(fresh, .started caller deadlineMs retain)])
      (hmail : t.effects.filterMap (·.toGuard) = [.execute fresh])
  | answers (c : Pid) (result : Result) (hmessage : m = .commandFinished c result)
      (hsome : e.command = some c) (hlive : e.terminal = false) (hcommand : t.state.command = none)
      (hterminal : t.state.terminal = false)
      (hnews : t.effects.filterMap (·.news) = [(c, .finished result)])
      (hmail : t.effects.filterMap (·.toGuard) = [])
  | ends (result : Result) (hmessage : m.completed? = none ∧ m.report?.isSome)
      (hcommand : t.state.command = none) (hterminal : t.state.terminal = true)
      (hnews : t.effects.filterMap (·.news) = e.command.toList.map fun c => (c, .finished result))
      (hmail : t.effects.filterMap (·.toGuard) = [])

variable {e : Execution} {m : ExecutionMessage} {fresh : Pid}

/-- An execution that has not ended after a turn had not before, and was told of no end. -/
theorem Does.live {t : ExecutionTurn} (h : e.Does fresh m t) (hlive : t.state.terminal = false) :
    e.terminal = false ∧ m.report? = none := by
  cases h with
  | keeps hcommand hterminal hrunning hreport hnews hmail =>
    have he : e.terminal = false := hterminal.symm.trans hlive
    rw [he] at hreport
    exact ⟨he, hreport.resolve_right Bool.false_ne_true⟩
  | begins caller deadlineMs retain hnone he hmessage hcommand hterminal hnews hmail =>
    exact ⟨he, hmessage.2⟩
  | answers c result hmessage hsome he hcommand hterminal hnews hmail =>
    rw [hmessage]
    exact ⟨he, rfl⟩
  | ends result hmessage hcommand hterminal hnews hmail =>
    rw [hterminal] at hlive
    cases hlive

theorem command_stopping : e.stopping.command = e.command := by
  unfold stopping
  split <;> rfl

theorem terminal_of_stopping : e.stopping.terminal = e.terminal := by
  cases h : e.terminal with
  | false => exact terminal_stopping h
  | true =>
    unfold stopping
    rw [if_pos h, h]

/-- A turn that neither begins a command nor sends anybody anything about one. -/
theorem Does.idle {t : ExecutionTurn} (hcommand : t.state.command = e.command)
    (hterminal : t.state.terminal = e.terminal) (hm : m.completed? = none ∧ m.report? = none)
    (heffects : ∀ effect ∈ t.effects, effect.news = none ∧
      ∀ g, effect.toGuard = some g → ∃ result, g = .finish result) : e.Does fresh m t := by
  refine .keeps hcommand hterminal (fun _ => hm.1) (Or.inl hm.2)
    (List.filterMap_eq_nil_iff.mpr fun effect heffect => (heffects effect heffect).1) ?_
  intro g hg
  obtain ⟨effect, heffect, htoGuard⟩ := List.mem_filterMap.mp hg
  obtain ⟨result, rfl⟩ := (heffects effect heffect).2 g htoGuard
  exact ⟨rfl, rfl, fun c hc => by cases hc⟩

theorem does_replied (caller : Caller) (answer : ExecutionAnswer)
    (hm : m.completed? = none ∧ m.report? = none) : e.Does fresh m (e.replied caller answer) := by
  refine .idle rfl rfl hm ?_
  intro effect heffect
  rw [List.mem_singleton.mp heffect]
  exact ⟨rfl, fun g hg => by cases hg⟩

theorem does_beginCommand {t : ExecutionTurn} {options : CommandOptions} {caller : Pid}
    {e' : Execution} (before after : List ExecutionEffect) (hnone : e.command = none)
    (hlive : e.terminal = false) (hm : m.completed? = none ∧ m.report? = none)
    (hbefore : before.filterMap (·.news) = [] ∧ before.filterMap (·.toGuard) = [])
    (hafter : after.filterMap (·.news) = [] ∧ after.filterMap (·.toGuard) = [])
    (heffects : t.effects = before ++ (e'.beginCommand fresh options caller).effects ++ after)
    (hstate : t.state = (e'.beginCommand fresh options caller).state) : e.Does fresh m t := by
  refine .begins caller options.deadlineMs e'.status.persistent hnone hlive hm ?_ ?_ ?_ ?_
  · rw [hstate]
    rfl
  · rw [hstate]
    apply terminal_eq_false.mpr
    cases hpersistent : e'.status.persistent <;> simp [beginCommand, hpersistent]
  · rw [heffects, List.filterMap_append, List.filterMap_append, hbefore.1, hafter.1]
    rfl
  · rw [heffects, List.filterMap_append, List.filterMap_append, hbefore.2, hafter.2]
    rfl

theorem does_execute (caller : Caller) (process : Pid) (options : CommandOptions) :
    e.Does fresh (.execute caller process options) (e.execute fresh caller process options) := by
  unfold execute
  split
  · exact does_replied _ _ ⟨rfl, rfl⟩
  · split
    · exact does_replied _ _ ⟨rfl, rfl⟩
    · rename_i hcommand
      split
      · exact does_replied _ _ ⟨rfl, rfl⟩
      · rename_i hphase
        split
        · exact does_replied _ _ ⟨rfl, rfl⟩
        · have hready : e.status.phase = .ready := not_not.mp hphase
          have hlive : e.terminal = false := terminal_eq_false.mpr (by simp [hready])
          have hnone : e.command = none := by simpa using hcommand
          exact does_beginCommand [] [.reply caller (.started fresh)] hnone hlive
            ⟨rfl, rfl⟩ ⟨rfl, rfl⟩ ⟨rfl, rfl⟩ rfl rfl

/-- The initial command begins or it does not. -/
theorem beginInitial_cases (handle : Pid) (e : Execution) : beginInitial handle e = e.idle ∨
    e.command = none ∧
      ∃ options, beginInitial handle e = e.beginCommand handle options e.options.owner := by
  unfold beginInitial
  split
  · rename_i options _ hcommand
    exact Or.inr ⟨hcommand, options, rfl⟩
  · exact Or.inl rfl
  · exact Or.inl rfl

theorem does_vmStatus (hlive : e.terminal = false) (changes : List StatusChange) :
    e.Does fresh (.vmStatus changes) (e.vmStatus fresh changes) := by
  have hsame : (e.withChanges changes).terminal = e.terminal := by
    rw [hlive, terminal_withChanges hlive changes]
  unfold vmStatus
  dsimp only
  split
  · rw [Turn.andThen, Turn.emit_state, Turn.emit_effects]
    rcases beginInitial_cases fresh { e.withChanges changes with readyWaiters := [] } with
      hidle | ⟨hnone, options, hbegin⟩
    · rw [hidle]
      refine .idle rfl hsame ⟨rfl, rfl⟩ ?_
      intro effect heffect
      rcases List.mem_append.mp heffect with hmem | hmem
      · obtain ⟨caller, -, rfl⟩ := List.mem_map.mp hmem
        exact ⟨rfl, fun g hg => by cases hg⟩
      · cases hmem
    · rw [hbegin]
      refine does_beginCommand _ [] hnone hlive ⟨rfl, rfl⟩ ⟨?_, ?_⟩ ⟨rfl, rfl⟩
        (List.append_nil _).symm rfl
      · simp [List.filterMap_map, ExecutionEffect.news]
      · simp [List.filterMap_map, ExecutionEffect.toGuard]
  · exact .idle rfl hsame ⟨rfl, rfl⟩ fun effect heffect => by cases heffect

theorem does_vmFinished (hm : m.completed? = none ∧ m.report?.isSome) (result : Result)
    (cleanup : Cleanup) : e.Does fresh m (e.vmFinished result cleanup) := by
  refine .ends (if result = .ok then .error (.atom "vm_stopped") else result) hm rfl ?_ ?_ ?_
  · have hphase := terminal_completedPhase cleanup e.status.persistent
    change ({ e.finished result cleanup with waiters := [] } : Execution).terminal = true
    unfold terminal finished
    simpa [or_assoc] using hphase
  · cases hmonitor : e.commandMonitor <;> cases hcommand : e.command <;>
      simp [vmFinished, hmonitor, hcommand, ExecutionEffect.news, List.filterMap_map]
  · cases hmonitor : e.commandMonitor <;> cases hcommand : e.command <;>
      simp [vmFinished, hmonitor, hcommand, ExecutionEffect.toGuard, List.filterMap_map]

/-- What any message does, if the guard sends none once it has reported. -/
theorem handle_does (h : m.FromGuard → e.terminal = false) : e.Does fresh m (e.handle fresh m) := by
  cases m with
  | status caller => exact does_replied _ _ ⟨rfl, rfl⟩
  | cancel caller =>
    refine .idle command_stopping terminal_of_stopping ⟨rfl, rfl⟩ ?_
    intro effect heffect
    simp only [handle, cancel, Turn.emit_effects, List.mem_cons, List.not_mem_nil, or_false]
      at heffect
    rcases heffect with rfl | rfl
    · exact ⟨rfl, fun g hg => ⟨.cancelled, (Option.some.inj hg).symm⟩⟩
    · exact ⟨rfl, fun g hg => by cases hg⟩
  | stop caller =>
    change e.Does fresh _ (e.stop caller)
    unfold stop
    split
    · exact does_replied _ _ ⟨rfl, rfl⟩
    · refine .idle command_stopping terminal_of_stopping ⟨rfl, rfl⟩ ?_
      intro effect heffect
      rw [List.mem_singleton.mp heffect]
      exact ⟨rfl, fun g hg => ⟨.ok, (Option.some.inj hg).symm⟩⟩
  | awaitReady caller =>
    change e.Does fresh _ (e.awaitReady caller)
    unfold awaitReady
    split
    · exact does_replied _ _ ⟨rfl, rfl⟩
    · split
      · exact does_replied _ _ ⟨rfl, rfl⟩
      · exact .idle rfl rfl ⟨rfl, rfl⟩ fun effect heffect => by cases heffect
  | execute caller process options => exact does_execute caller process options
  | await caller =>
    change e.Does fresh _ (e.await caller)
    unfold await
    split
    · exact does_replied _ _ ⟨rfl, rfl⟩
    · exact .idle rfl rfl ⟨rfl, rfl⟩ fun effect heffect => by cases heffect
  | finish result =>
    refine .idle command_stopping terminal_of_stopping ⟨rfl, rfl⟩ ?_
    intro effect heffect
    rw [List.mem_singleton.mp heffect]
    exact ⟨rfl, fun g hg => ⟨result, (Option.some.inj hg).symm⟩⟩
  | vmStatus changes => exact does_vmStatus (h trivial) changes
  | cancelCommand command reason =>
    change e.Does fresh _ (e.cancelCommand command reason)
    unfold cancelCommand
    split
    · refine .keeps rfl rfl (fun _ => rfl) (Or.inl rfl) rfl ?_
      intro g hg
      rw [List.mem_singleton.mp hg]
      exact ⟨rfl, rfl, fun c hc => hc⟩
    · exact .idle rfl rfl ⟨rfl, rfl⟩ fun effect heffect => by cases heffect
  | commandFinished command result =>
    change e.Does fresh _ (e.commandFinished command result)
    unfold commandFinished
    split
    · rename_i hcommand
      refine .answers command result rfl hcommand (h trivial) rfl ?_ ?_ ?_
      · apply terminal_eq_false.mpr
        by_cases hphase : e.status.phase = .stopping
        · simp [hphase]
        · simp [hphase]
      · cases e.commandMonitor <;> simp [ExecutionEffect.news]
      · cases e.commandMonitor <;> simp [ExecutionEffect.toGuard]
    · refine .keeps rfl rfl ?_ (Or.inl rfl) rfl fun g hg => by cases hg
      intro hrunning
      cases hrunning
  | vmFinished result cleanup => exact does_vmFinished ⟨rfl, rfl⟩ result cleanup
  | down ref process =>
    change e.Does fresh _ (e.down ref process)
    unfold down
    split
    · refine .keeps rfl rfl (fun _ => rfl) (Or.inl rfl) rfl ?_
      intro g hg
      rw [List.mem_singleton.mp hg]
      exact ⟨rfl, rfl, fun c hc => hc⟩
    · exact .idle rfl rfl ⟨rfl, rfl⟩ fun effect heffect => by cases heffect
  | guardDown reason =>
    change e.Does fresh _ (e.guardDown reason)
    unfold guardDown
    split
    · rename_i hterminal
      exact .keeps rfl rfl (fun _ => rfl) (Or.inr hterminal) rfl fun g hg => by cases hg
    · exact does_vmFinished ⟨rfl, rfl⟩ _ _

end Doings

end Execution

end Sower.Vm
