import Sower.Vm.CommandTurns
import Sower.Vm.GuardCleanup

/-!
# The guard's turns about commands

A turn of the guard leaves its command alone, passes one on, cancels it, or passes its result
back. It leaves it alone also while the virtual machine starts and stops, when it takes turns
without a message.
-/

namespace Sower.Vm

open Durable

section Points

/-- The guard still takes commands, or is on its way to do so. -/
def GuardPoint.active : GuardPoint → Bool
  | .registering | .allocating | .preparing | .formatting | .looping | .provisioning | .admitting
  | .launching => true
  | _ => false

/-- The guard takes no more turns. -/
def GuardPoint.over : GuardPoint → Bool
  | .ended | .crashed => true
  | _ => false

end Points

namespace Guard

section Doings

/-- A turn that leaves the command alone. It ends with a report or goes on without one. -/
structure Leaves (g : Guard) (t : GuardTurn) : Prop where
  command : t.state.command = g.command
  cancelTimer : t.state.cancelTimer = g.cancelTimer
  active : t.state.point.active = true → g.point.active = true
  toIo : t.effects.filterMap (·.toIo) = []
  timer : t.effects.filterMap (·.timer) = []
  completed : ∀ m ∈ t.effects.filterMap (·.toExecution), m.FromGuard ∧ m.completed? = none
  report : t.state.point ≠ .ended ∧ (∀ m ∈ t.effects.filterMap (·.toExecution), m.report? = none) ∨
    t.state.point = .ended ∧ ∃ result cleanup,
      t.effects.filterMap (·.toExecution) = [.vmFinished result cleanup]

/-- What a turn of the guard can do about commands. -/
inductive Does (g : Guard) (m : GuardMessage) (t : GuardTurn) : Prop
  | leaves (hleaves : g.Leaves t) (hdrop : t.state.point.active = true →
      (m.executed? ≠ none → g.command ≠ none) ∧ ∀ c, m.completed? = some c → g.command ≠ some c)
  | forwards (c : Pid) (hmessage : m = .execute c) (hnone : g.command = none)
      (hcommand : t.state.command = some c) (htimer : t.state.cancelTimer = g.cancelTimer)
      (hpoint : g.point.active = true ∧ t.state.point = .looping)
      (htoIo : t.effects.filterMap (·.toIo) = [.execute c])
      (harmed : t.effects.filterMap (·.timer) = [])
      (hmail : ∃ changes, t.effects.filterMap (·.toExecution) = [.vmStatus changes])
  | cancels (c : Pid) (reason : Term) (hmessage : m = .cancelCommand c reason)
      (hsome : g.command = some c) (hcommand : t.state.command = some c)
      (hpoint : g.point.active = true ∧ t.state.point = .looping)
      (htoIo : t.effects.filterMap (·.toIo) = [.cancel c reason])
      (harmed : ∀ c' ∈ t.effects.filterMap (·.timer), c' = c)
      (hmail : t.effects.filterMap (·.toExecution) = [])
  | completes (c : Pid) (result : Result) (g' : Guard) (t' : GuardTurn)
      (hmessage : m = .commandFinished c result) (hsome : g.command = some c)
      (hcommand : g'.command = none) (htimer : g'.cancelTimer = false)
      (hpoint : g.point.active = true) (hleaves : g'.Leaves t') (hstate : t.state = t'.state)
      (heffects : t.effects = .commandFinished c result :: t'.effects)

variable {g : Guard} {m : GuardMessage} {result : Result}

/-- Effects that tell the execution of the status at most, and nobody else anything. -/
def Silent (effects : List GuardEffect) : Prop :=
  ∀ effect ∈ effects, effect.toIo = none ∧ effect.timer = none ∧
    ∀ m, effect.toExecution = some m → ∃ changes, m = .vmStatus changes

theorem silent_nil : Silent [] := fun effect heffect => by cases heffect

theorem silent_killIo (io : Option Pid) : Silent (io.toList.map .killIo) := by
  intro effect heffect
  obtain ⟨pid, -, rfl⟩ := List.mem_map.mp heffect
  exact ⟨rfl, rfl, fun m hm => by cases hm⟩

theorem silent_cons {effect : GuardEffect} {effects : List GuardEffect} (h : Silent effects)
    (heffect : effect.toIo = none ∧ effect.timer = none ∧
      ∀ m, effect.toExecution = some m → ∃ changes, m = .vmStatus changes) :
    Silent (effect :: effects) := by
  intro other hother
  rcases List.mem_cons.mp hother with rfl | hmem
  · exact heffect
  · exact h other hmem

theorem silent_status {effects : List GuardEffect} (h : Silent effects)
    (changes : List StatusChange) : Silent (.status changes :: effects) :=
  silent_cons h ⟨rfl, rfl, fun _ hm => ⟨changes, (Option.some.inj hm).symm⟩⟩

/-- A turn with such effects that leaves the command alone. -/
theorem Leaves.of_silent {t : GuardTurn} (hsilent : Silent t.effects)
    (hcommand : t.state.command = g.command) (htimer : t.state.cancelTimer = g.cancelTimer)
    (hactive : t.state.point.active = true → g.point.active = true)
    (hended : t.state.point ≠ .ended) : g.Leaves t := by
  have hstatus : ∀ m ∈ t.effects.filterMap (·.toExecution), ∃ changes, m = .vmStatus changes := by
    intro m hm
    obtain ⟨effect, heffect, hsome⟩ := List.mem_filterMap.mp hm
    exact (hsilent effect heffect).2.2 m hsome
  refine ⟨hcommand, htimer, hactive,
    List.filterMap_eq_nil_iff.mpr fun effect heffect => (hsilent effect heffect).1,
    List.filterMap_eq_nil_iff.mpr fun effect heffect => (hsilent effect heffect).2.1, ?_,
    Or.inl ⟨hended, ?_⟩⟩
  · intro m hm
    obtain ⟨changes, rfl⟩ := hstatus m hm
    exact ⟨trivial, rfl⟩
  · intro m hm
    obtain ⟨changes, rfl⟩ := hstatus m hm
    rfl

theorem leaves_go {point : GuardPoint} (hactive : point.active = true → g.point.active = true)
    (hended : point ≠ .ended) : g.Leaves (g.go point []) :=
  .of_silent silent_nil rfl rfl hactive hended

theorem leaves_finish (certification : Cleanup) : g.Leaves (g.finish result certification) :=
  .of_silent (silent_killIo g.io) rfl rfl (fun h => by cases h) (by simp [finish, go])

theorem leaves_conclude (cleanup : Cleanup) : g.Leaves (g.conclude result cleanup) := by
  refine ⟨rfl, rfl, (fun h => by cases h), rfl, rfl, ?_, Or.inr ⟨rfl, _, _, rfl⟩⟩
  intro m hm
  rw [List.mem_singleton.mp hm]
  exact ⟨trivial, rfl⟩

theorem leaves_stop (hactive : g.point.active = true) : g.Leaves (g.stop result) := by
  unfold stop
  split
  · exact leaves_go (fun _ => hactive) (by simp)
  · split
    · refine .of_silent (silent_status (silent_cons (silent_cons silent_nil ?_) ?_) _) rfl rfl
        (fun _ => hactive) (by simp)
      · exact ⟨rfl, rfl, fun m hm => by cases hm⟩
      · exact ⟨rfl, rfl, fun m hm => by cases hm⟩
    · split
      · exact leaves_finish _
      · exact .of_silent (silent_status (silent_killIo g.io) _) rfl rfl (fun h => by cases h)
          (by simp)

/-- A turn that leaves a command alone does so whatever else of the guard changes before it. -/
theorem Leaves.rebase {g' : Guard} {t : GuardTurn} (h : g'.Leaves t)
    (hcommand : g'.command = g.command) (htimer : g'.cancelTimer = g.cancelTimer)
    (hpoint : g'.point.active = true → g.point.active = true) : g.Leaves t :=
  ⟨h.command.trans hcommand, h.cancelTimer.trans htimer, fun ht => hpoint (h.active ht), h.toIo,
    h.timer, h.completed, h.report⟩

/-- A message that is not about commands. -/
theorem Leaves.does {t : GuardTurn} (h : g.Leaves t)
    (hm : m.executed? = none ∧ m.completed? = none) : g.Does m t :=
  .leaves h fun _ => ⟨fun hexecuted => absurd hm.1 hexecuted,
    fun c hc => by rw [hm.2] at hc; cases hc⟩

theorem leaves_awaitStop (m : GuardMessage) : g.Leaves (g.awaitStop m) ∧
    (g.awaitStop m).state.point.active = false := by
  unfold awaitStop
  split
  · exact ⟨leaves_finish _, rfl⟩
  · exact ⟨leaves_finish _, rfl⟩
  · exact ⟨leaves_finish _, rfl⟩
  · exact ⟨leaves_finish _, rfl⟩
  · exact ⟨leaves_go (fun h => by cases h) (by simp), rfl⟩

theorem leaves_formatterExit (hpoint : g.point.active = true) (reason : Hypervisor.ExitReason) :
    g.Leaves (g.formatterExit reason) := by
  unfold formatterExit
  split
  · split
    · exact leaves_finish _
    · exact .of_silent silent_nil rfl rfl (fun _ => hpoint) (by simp)
  · exact leaves_finish _
  · exact leaves_finish _
  · exact leaves_finish _

theorem does_execute (hpoint : g.point.active = true) (c : Pid) :
    g.Does (.execute c) (g.execute c) := by
  unfold execute
  split
  · rename_i known _ hcommand
    refine .leaves (leaves_go (fun _ => hpoint) (by simp)) fun _ => ⟨fun _ => ?_, fun c hc => by cases hc⟩
    rw [hcommand]
    simp
  · exact .leaves (leaves_go (fun h => by cases h) (by simp)) fun h => by cases h
  · rename_i hcommand _
    exact .forwards c rfl hcommand rfl rfl ⟨hpoint, rfl⟩ rfl rfl ⟨_, rfl⟩

theorem does_cancelCommand (hpoint : g.point.active = true) (c : Pid) (reason : Term) :
    g.Does (.cancelCommand c reason) (g.cancelCommand c reason) := by
  unfold cancelCommand
  split
  · rename_i hcommand
    split
    · exact Leaves.does (leaves_go (fun h => by cases h) (by simp)) ⟨rfl, rfl⟩
    · refine .cancels c reason rfl hcommand hcommand ⟨hpoint, rfl⟩ ?_ ?_ ?_
      · cases htimer : g.cancelTimer <;> simp [GuardEffect.toIo]
      · cases htimer : g.cancelTimer <;> simp [GuardEffect.timer]
      · cases htimer : g.cancelTimer <;> simp [GuardEffect.toExecution]
  · exact Leaves.does (leaves_go (fun _ => hpoint) (by simp)) ⟨rfl, rfl⟩

theorem does_commandFinished (hpoint : g.point.active = true) (c : Pid) (result : Result) :
    g.Does (.commandFinished c result) (g.commandFinished c result) := by
  unfold commandFinished
  split
  · rename_i hcommand
    refine .completes c result { g with command := none, cancelTimer := false, point := .looping }
      (if g.options.command.isSome then
        Guard.stop { g with command := none, cancelTimer := false, point := .looping } result
      else .emit [.status [.phase .ready]]
        { g with command := none, cancelTimer := false, point := .looping })
      rfl hcommand rfl rfl hpoint ?_ rfl rfl
    split
    · exact leaves_stop rfl
    · exact .of_silent (silent_status silent_nil _) rfl rfl (fun _ => rfl) (by simp)
  · rename_i hcommand
    refine .leaves (leaves_go (fun _ => hpoint) (by simp)) fun _ => ⟨fun h => absurd rfl h, ?_⟩
    intro c' hc'
    cases hc'
    exact hcommand

/-- Any message in the loop. -/
theorem loop_does (hpoint : g.point.active = true) (m : GuardMessage) : g.Does m (g.loop m) := by
  have hstay : g.Leaves g.stay := leaves_go (fun _ => hpoint) (by simp)
  cases m with
  | exit pid reason =>
    refine Leaves.does ?_ ⟨rfl, rfl⟩
    change g.Leaves (g.exit pid reason)
    unfold exit
    split
    · exact leaves_formatterExit hpoint reason
    · split
      · exact leaves_finish _
      · exact hstay
  | cleanupError message =>
    exact Leaves.does (.of_silent silent_nil rfl rfl (fun _ => hpoint) (by simp [loop])) ⟨rfl, rfl⟩
  | finish result => exact Leaves.does (leaves_stop hpoint) ⟨rfl, rfl⟩
  | deadline =>
    refine Leaves.does ?_ ⟨rfl, rfl⟩
    change g.Leaves (if g.bootTimer then g.stop (.error (.atom "timeout")) else g.stay)
    split
    · exact leaves_stop hpoint
    · exact hstay
  | cleanupDeadline => exact Leaves.does (leaves_finish _) ⟨rfl, rfl⟩
  | down ref pid reason =>
    refine Leaves.does ?_ ⟨rfl, rfl⟩
    change g.Leaves (g.down ref pid reason)
    unfold down
    split
    · exact leaves_stop hpoint
    · split
      · exact leaves_stop hpoint
      · exact hstay
  | guestReady =>
    refine Leaves.does ?_ ⟨rfl, rfl⟩
    change g.Leaves g.guestReady
    unfold guestReady
    split
    · exact .of_silent (silent_status silent_nil _) rfl rfl (fun _ => hpoint) (by simp)
    · exact leaves_go (fun h => by cases h) (by simp)
  | execute command => exact does_execute hpoint command
  | cancelCommand command reason => exact does_cancelCommand hpoint command reason
  | cancelDeadline command =>
    refine Leaves.does ?_ ⟨rfl, rfl⟩
    change g.Leaves (g.cancelDeadline command)
    unfold cancelDeadline
    split
    · exact leaves_stop hpoint
    · exact hstay
  | commandFinished command result => exact does_commandFinished hpoint command result
  | hypervisor vmm event =>
    refine Leaves.does ?_ ⟨rfl, rfl⟩
    change g.Leaves (g.hypervisor vmm event)
    unfold hypervisor
    split
    · cases event with
      | exited outcome => exact leaves_stop hpoint
      | failed reason => exact leaves_stop hpoint
      | other => exact hstay
    · exact hstay
  | stopped answer => exact Leaves.does hstay ⟨rfl, rfl⟩
  | other => exact Leaves.does hstay ⟨rfl, rfl⟩

/-- A message where the guard takes it. -/
theorem receive_does (htakes : g.takes m) : g.Does m (g.receive m) := by
  rcases htakes with hpoint | hpoint | ⟨hpoint, hadmits⟩
  · have hreceive : g.receive m = g.loop m := by
      unfold receive
      rw [hpoint]
    rw [hreceive]
    exact loop_does (by rw [hpoint]; rfl) m
  · have hreceive : g.receive m = g.awaitStop m := by
      unfold receive
      rw [hpoint]
    rw [hreceive]
    refine .leaves (leaves_awaitStop m).1 fun hactive => ?_
    rw [(leaves_awaitStop m).2] at hactive
    cases hactive
  · have hreceive : g.receive m = g.refused m := by
      unfold receive
      rw [hpoint]
    have hactive : g.point.active = true := by rw [hpoint]; rfl
    rw [hreceive]
    cases m with
    | finish result => exact Leaves.does (leaves_stop hactive) ⟨rfl, rfl⟩
    | deadline => exact Leaves.does (leaves_stop hactive) ⟨rfl, rfl⟩
    | down ref pid reason => exact Leaves.does (leaves_stop hactive) ⟨rfl, rfl⟩
    | _ => cases hadmits

end Doings

section Acts

/-- The turns that the guard takes without a message, but for the start of the monitor. -/
inductive Acts (g : Guard) : GuardTurn → Prop
  | registered (admitted : Bool) (hpoint : g.point = .registering) : Acts g (g.registered admitted)
  | allocated (answer : Except Term String) (hpoint : g.point = .allocating) :
    Acts g (g.allocated answer)
  | prepared (answer : Except Term Unit) (hpoint : g.point = .preparing) :
    Acts g (g.prepared answer)
  | formatterStarted (answer : Except Term Pid) (hpoint : g.point = .formatting) :
    Acts g (g.formatterStarted answer)
  | provisioned (answer : Provision) (hpoint : g.point = .provisioning) :
    Acts g (g.provisioned answer)
  | admitted (late : Bool) (hpoint : g.point = .admitting) : Acts g (g.admitted late)
  | withdrawn (answer : Option Term) (hpoint : g.point = .withdrawing) : Acts g (g.withdrawn answer)
  | revoked (result : Result) (certification : Cleanup) (answer : Option Term)
    (hpoint : g.point = .revoking result certification) :
    Acts g (g.revoked result certification answer)
  | released (result : Result) (answer : Option Term) (hpoint : g.point = .releasing result) :
    Acts g (g.released result answer)
  | listed (result : Result) (answer : Except FileError (List String))
    (hpoint : g.point = .listing result) : Acts g (g.listed result answer)
  | removal (result : Result) (files : List String) (answer : Except FileError Unit)
    (hpoint : g.point = .removing result files) : Acts g (g.removal result files answer)

variable {g : Guard}

theorem leaves_removalFailed (result : Result) (error : FileError) :
    g.Leaves (g.removalFailed result error) := by
  cases error with
  | enoent => exact leaves_conclude _
  | error reason => exact leaves_conclude _

theorem acts_leaves {t : GuardTurn} (h : g.Acts t) : g.Leaves t := by
  cases h with
  | registered admitted hpoint =>
    unfold registered
    split
    · exact leaves_go (fun _ => by rw [hpoint]; rfl) (by simp)
    · exact leaves_finish _
  | allocated answer hpoint =>
    cases answer with
    | ok directory =>
      exact .of_silent (silent_status silent_nil _) rfl rfl (fun _ => by rw [hpoint]; rfl)
        (by simp [allocated])
    | error reason =>
      exact Leaves.rebase (leaves_finish _) rfl rfl fun h => h
  | prepared answer hpoint =>
    cases answer with
    | ok _ => exact leaves_go (fun _ => by rw [hpoint]; rfl) (by simp)
    | error reason => exact leaves_finish _
  | formatterStarted answer hpoint =>
    cases answer with
    | ok formatter =>
      exact .of_silent silent_nil rfl rfl (fun _ => by rw [hpoint]; rfl)
        (by simp [formatterStarted])
    | error reason => exact leaves_finish _
  | provisioned answer hpoint =>
    cases answer with
    | provisioned network =>
      exact .of_silent silent_nil rfl rfl (fun _ => by rw [hpoint]; rfl) (by simp [provisioned])
    | unconfirmed reason => exact leaves_finish _
    | unreached reason => exact leaves_finish _
  | admitted late hpoint =>
    have hactive : g.point.active = true := by rw [hpoint]; rfl
    unfold admitted
    split
    · exact leaves_stop hactive
    · exact leaves_go (fun _ => hactive) (by simp)
  | withdrawn answer hpoint =>
    refine .of_silent ?_ rfl rfl (fun h => by cases h) (by simp [withdrawn])
    intro effect heffect
    rcases List.mem_append.mp heffect with hmem | hmem
    · obtain ⟨vmm, -, rfl⟩ := List.mem_map.mp hmem
      exact ⟨rfl, rfl, fun m hm => by cases hm⟩
    · rw [List.mem_singleton.mp hmem]
      exact ⟨rfl, rfl, fun m hm => by cases hm⟩
  | revoked result certification answer hpoint =>
    unfold revoked
    split
    · exact leaves_go (fun h => by cases h) (by simp)
    · exact leaves_conclude _
    · exact leaves_conclude _
  | released result answer hpoint =>
    unfold released
    split
    · exact leaves_conclude _
    · exact leaves_conclude _
    · split
      · exact leaves_conclude _
      · exact leaves_go (fun h => by cases h) (by simp)
  | listed result answer hpoint =>
    unfold listed
    split
    · exact leaves_removalFailed _ _
    · split
      · exact leaves_go (fun h => by cases h) (by simp)
      · exact leaves_conclude _
  | removal result files answer hpoint =>
    unfold removal
    split
    · unfold directoryRemoved
      split
      · exact leaves_removalFailed _ _
      · exact leaves_conclude _
    · unfold removed
      split
      · exact leaves_removalFailed _ _
      · exact leaves_go (fun h => by cases h) (by simp)

theorem launched_leaves (hpoint : g.point = .launching) (answer : Except Term (Pid × ℕ × Pid)) :
    g.Leaves (g.launched answer) := by
  unfold launched
  split
  · exact .of_silent (silent_status silent_nil _) rfl rfl (fun _ => by rw [hpoint]; rfl) (by simp)
  · exact leaves_finish _

end Acts

section Order

/-- The guard is on its way to launch the monitor. -/
def launches : GuardPoint → Bool
  | .registering | .allocating | .preparing | .formatting | .provisioning | .admitting
  | .launching => true
  | _ => false

/-- The disk is formatted before the monitor is launched. -/
structure Ordered (g : Guard) : Prop where
  formatter : g.formatter ≠ none → g.vmm = none
  launches : launches g.point = true → g.vmm = none ∧ g.formatter = none

/-- The state after a turn in which no process was started or ended. -/
structure Same (g : Guard) (t : GuardTurn) : Prop where
  vmm : t.state.vmm = g.vmm
  formatter : t.state.formatter = g.formatter
  point : launches t.state.point = true → launches g.point = true

variable {g : Guard} {m : GuardMessage} {t : GuardTurn} {result : Result}

theorem Ordered.same (h : g.Ordered) (hsame : g.Same t) : t.state.Ordered := by
  refine ⟨?_, ?_⟩
  · rw [hsame.formatter, hsame.vmm]
    exact h.formatter
  · rw [hsame.formatter, hsame.vmm]
    exact fun ht => h.launches (hsame.point ht)

theorem same_go {point : GuardPoint} {effects : List GuardEffect}
    (hpoint : launches point = true → launches g.point = true) : g.Same (g.go point effects) :=
  ⟨rfl, rfl, hpoint⟩

theorem same_finish (certification : Cleanup) : g.Same (g.finish result certification) :=
  same_go fun h => by cases h

theorem same_conclude (cleanup : Cleanup) : g.Same (g.conclude result cleanup) :=
  same_go fun h => by cases h

theorem same_stop : g.Same (g.stop result) := by
  unfold stop
  split
  · exact same_go fun h => by cases h
  · split
    · exact ⟨rfl, rfl, fun h => by cases h⟩
    · split
      · exact same_finish _
      · exact ⟨rfl, rfl, fun h => by cases h⟩

theorem same_awaitStop (m : GuardMessage) : g.Same (g.awaitStop m) := by
  unfold awaitStop
  split
  · exact same_finish _
  · exact same_finish _
  · exact same_finish _
  · exact same_finish _
  · exact same_go fun h => by cases h

/-- The end of the formatting process. -/
theorem Ordered.formatterExit (h : g.Ordered) (hformatter : g.formatter ≠ none)
    (reason : Hypervisor.ExitReason) :
    (g.formatterExit reason).state.Ordered ∧ (g.formatterExit reason).state.vmm = g.vmm := by
  have hfinish : ∀ result certification, (g.finish result certification).state.Ordered ∧
      (g.finish result certification).state.vmm = g.vmm :=
    fun _ certification => ⟨h.same (same_finish certification), rfl⟩
  unfold Guard.formatterExit
  split
  · split
    · exact hfinish _ _
    · exact ⟨⟨fun hne => absurd rfl hne, fun _ => ⟨h.formatter hformatter, rfl⟩⟩, rfl⟩
  · exact hfinish _ _
  · exact hfinish _ _
  · exact hfinish _ _

/-- Messages that are no exit start and end no process. -/
theorem same_loop (hm : ∀ pid reason, m ≠ .exit pid reason) : g.Same (g.loop m) := by
  have hstay : g.Same g.stay := same_go fun h => by cases h
  cases m with
  | exit pid reason => exact absurd rfl (hm pid reason)
  | cleanupError message => exact ⟨rfl, rfl, fun h => by cases h⟩
  | finish result => exact same_stop
  | deadline =>
    change g.Same (if g.bootTimer then g.stop (.error (.atom "timeout")) else g.stay)
    split
    · exact same_stop
    · exact hstay
  | cleanupDeadline => exact same_finish _
  | down ref pid reason =>
    change g.Same (g.down ref pid reason)
    unfold down
    split
    · exact same_stop
    · split
      · exact same_stop
      · exact hstay
  | guestReady =>
    change g.Same g.guestReady
    unfold guestReady
    split
    · exact ⟨rfl, rfl, fun h => by cases h⟩
    · exact same_go fun h => by cases h
  | execute command =>
    change g.Same (g.execute command)
    unfold execute
    split
    · exact hstay
    · exact same_go fun h => by cases h
    · exact ⟨rfl, rfl, fun h => by cases h⟩
  | cancelCommand command reason =>
    change g.Same (g.cancelCommand command reason)
    unfold cancelCommand
    split
    · split
      · exact same_go fun h => by cases h
      · exact ⟨rfl, rfl, fun h => by cases h⟩
    · exact hstay
  | cancelDeadline command =>
    change g.Same (g.cancelDeadline command)
    unfold cancelDeadline
    split
    · exact same_stop
    · exact hstay
  | commandFinished command result =>
    change g.Same (g.commandFinished command result)
    unfold commandFinished
    split
    · rw [Turn.andThen, Turn.emit_state]
      dsimp only
      split
      · have hstop := @same_stop
          { g with command := none, cancelTimer := false, point := .looping } result
        exact ⟨hstop.vmm, hstop.formatter, fun ht => by cases hstop.point ht⟩
      · exact ⟨rfl, rfl, fun h => by cases h⟩
    · exact hstay
  | hypervisor vmm event =>
    change g.Same (g.hypervisor vmm event)
    unfold hypervisor
    split
    · cases event with
      | exited outcome => exact same_stop
      | failed reason => exact same_stop
      | other => exact hstay
    · exact hstay
  | stopped answer => exact hstay
  | other => exact hstay

theorem Ordered.loop (h : g.Ordered) (m : GuardMessage) :
    (g.loop m).state.Ordered ∧ (g.loop m).state.vmm = g.vmm := by
  by_cases hexit : ∃ pid reason, m = .exit pid reason
  · obtain ⟨pid, reason, rfl⟩ := hexit
    change (g.exit pid reason).state.Ordered ∧ (g.exit pid reason).state.vmm = g.vmm
    unfold Guard.exit
    split
    · rename_i hformatter
      exact h.formatterExit (by simp [hformatter]) reason
    · split
      · exact ⟨h.same (same_finish _), rfl⟩
      · exact ⟨h.same (same_go fun ht => by cases ht), rfl⟩
  · have hsame : g.Same (g.loop m) := same_loop fun pid reason hm => hexit ⟨pid, reason, hm⟩
    exact ⟨h.same hsame, hsame.vmm⟩

theorem Ordered.receive (h : g.Ordered) (m : GuardMessage) :
    (g.receive m).state.Ordered ∧ (g.receive m).state.vmm = g.vmm := by
  unfold Guard.receive
  split
  · exact ⟨h.same (same_awaitStop m), (same_awaitStop m).vmm⟩
  · rename_i hpoint
    have hsame : g.Same (g.refused m) := by
      unfold refused
      split
      · exact same_stop
      · exact same_stop
      · exact same_stop
      · exact same_go fun _ => by rw [hpoint]; rfl
    exact ⟨h.same hsame, hsame.vmm⟩
  · exact h.loop m

theorem Ordered.acts (h : g.Ordered) (hacts : g.Acts t) :
    t.state.Ordered ∧ t.state.vmm = g.vmm := by
  have hsame : ∀ {t : GuardTurn}, g.Same t → t.state.Ordered ∧ t.state.vmm = g.vmm :=
    fun hs => ⟨h.same hs, hs.vmm⟩
  have hfailed : ∀ result error, g.Same (g.removalFailed result error) := by
    intro result error
    cases error with
    | enoent => exact same_conclude _
    | error reason => exact same_conclude _
  cases hacts with
  | registered admitted hpoint =>
    unfold registered
    split
    · exact hsame (same_go fun _ => by rw [hpoint]; rfl)
    · exact hsame (same_finish _)
  | allocated answer hpoint =>
    cases answer with
    | ok directory => exact hsame ⟨rfl, rfl, fun _ => by rw [hpoint]; rfl⟩
    | error reason => exact hsame ⟨rfl, rfl, fun ht => by cases ht⟩
  | prepared answer hpoint =>
    cases answer with
    | ok _ => exact hsame (same_go fun _ => by rw [hpoint]; rfl)
    | error reason => exact hsame (same_finish _)
  | formatterStarted answer hpoint =>
    cases answer with
    | ok formatter =>
      have hnone := (h.launches (by rw [hpoint]; rfl)).1
      exact ⟨⟨fun _ => hnone, fun ht => by cases ht⟩, rfl⟩
    | error reason => exact hsame (same_finish _)
  | provisioned answer hpoint =>
    cases answer with
    | provisioned network => exact hsame ⟨rfl, rfl, fun _ => by rw [hpoint]; rfl⟩
    | unconfirmed reason => exact hsame (same_finish _)
    | unreached reason => exact hsame (same_finish _)
  | admitted late hpoint =>
    unfold admitted
    split
    · exact hsame same_stop
    · exact hsame (same_go fun _ => by rw [hpoint]; rfl)
  | withdrawn answer hpoint => exact hsame ⟨rfl, rfl, fun ht => by cases ht⟩
  | revoked result certification answer hpoint =>
    unfold revoked
    split
    · exact hsame (same_go fun ht => by cases ht)
    · exact hsame (same_conclude _)
    · exact hsame (same_conclude _)
  | released result answer hpoint =>
    unfold released
    split
    · exact hsame (same_conclude _)
    · exact hsame (same_conclude _)
    · split
      · exact hsame (same_conclude _)
      · exact hsame (same_go fun ht => by cases ht)
  | listed result answer hpoint =>
    unfold listed
    split
    · exact hsame (hfailed _ _)
    · split
      · exact hsame (same_go fun ht => by cases ht)
      · exact hsame (same_conclude _)
  | removal result files answer hpoint =>
    unfold removal
    split
    · unfold directoryRemoved
      split
      · exact hsame (hfailed _ _)
      · exact hsame (same_conclude _)
    · unfold removed
      split
      · exact hsame (hfailed _ _)
      · exact hsame (same_go fun ht => by cases ht)

/-- Once the monitor is launched the guard knows it, and else it finishes. -/
theorem Ordered.launched (h : g.Ordered) (hpoint : g.point = .launching)
    (answer : Except Term (Pid × ℕ × Pid)) : (g.launched answer).state.Ordered ∧
      ((g.launched answer).state.vmm = none → g.vmm = none ∧ ∃ reason, answer = .error reason) := by
  have hnone := h.launches (by rw [hpoint]; rfl)
  cases answer with
  | ok started =>
    refine ⟨⟨fun hne => absurd hnone.2 hne, fun ht => by cases ht⟩, fun ht => by cases ht⟩
  | error reason => exact ⟨h.same (same_finish _), fun _ => ⟨hnone.1, reason, rfl⟩⟩

end Order

end Guard

end Sower.Vm
