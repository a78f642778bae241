import Sower.Vm.Guard

/-!
# What a guard certifies

The guard is put among the things that it owns: the runtime directory with its files, the
process that formats the disk, the monitor and the lease. Their messages arrive in any order,
apart from those of the formatting process, which keep theirs. A certificate has to be true of
the resources at the moment at which it is reported.
-/

namespace Sower.Vm

open Durable Guard

section Belongings

/-- What the formatting process sends the guard. -/
inductive FormatterMessage where
  | cleanupError (message : Term)
  | exit (reason : Hypervisor.ExitReason)

/-- The formatting process. -/
structure Formatter where
  pid : Pid
  /-- Its messages that the guard has not taken, the oldest first. -/
  mail : List FormatterMessage := []
  running : Bool := true
  /-- It reported a cleanup error or did not confirm its end. -/
  failed : Bool := false

/-- The monitor. -/
inductive VmmCondition where
  | absent
  /-- It was started, or may have been. -/
  | launched
  /-- It confirmed that it has stopped. -/
  | stopped
  deriving DecidableEq

/-- A lease of the network. -/
structure Lease where
  revoked : Bool := false
  released : Bool := false

/-- What there is of a virtual machine outside of its guard. -/
structure Belongings where
  /-- The files of the runtime directory, while it exists. -/
  directory : Option (List String) := none
  formatter : Option Formatter := none
  vmm : VmmCondition := .absent
  lease : Option Lease := none

/-- The process ended and left nothing behind. -/
def Formatter.Ended (f : Formatter) : Prop := f.running = false ∧ f.failed = false ∧ f.mail = []

/-- Nothing of the virtual machine is left. -/
structure Belongings.Cleared (r : Belongings) : Prop where
  vmm : r.vmm ≠ .launched
  formatter : ∀ f, r.formatter = some f → f.running = false ∧ f.failed = false
  lease : ∀ l, r.lease = some l → l.revoked = true ∧ l.released = true
  directory : r.directory = none

/-- A report of the guard, with what there was at that moment. -/
structure GuardReport where
  result : Result
  cleanup : Cleanup
  belongings : Belongings

/-- The report that an effect is. -/
def GuardEffect.reported (r : Belongings) : GuardEffect → Option GuardReport
  | .report result cleanup _ => some ⟨result, cleanup, r⟩
  | _ => none

end Belongings

section Worlds

/-- A guard among its resources. -/
structure Custody where
  guard : Guard
  belongings : Belongings := {}
  /-- The reports so far. -/
  reports : List GuardReport := []
  /-- The guard came to remove a listed file that was gone, from a directory that was not. -/
  missed : Bool := false

/-- The guard takes a turn. -/
def Custody.after (w : Custody) (t : GuardTurn) : Custody :=
  { w with
    guard := t.state
    reports := w.reports ++ t.effects.filterMap (·.reported w.belongings) }

/-- The resources change. -/
def Custody.with (w : Custody) (r : Belongings) : Custody := { w with belongings := r }

/-- The messages that the guard looks for where it is. -/
def Guard.takes (g : Guard) (m : GuardMessage) : Prop :=
  g.point = .looping ∨ g.point = .awaitingStop ∨ g.point = .admitting ∧ g.admits m

/-- What a message does where the guard is. -/
def Guard.receive (g : Guard) (m : GuardMessage) : GuardTurn :=
  match g.point with
  | .awaitingStop => g.awaitStop m
  | .admitting => g.refused m
  | _ => g.loop m

/-- The messages that only the formatting process and the process that stops the monitor send. -/
def GuardMessage.own (g : Guard) : GuardMessage → Prop
  | .exit pid _ => g.formatter = some pid
  | .cleanupError _ => True
  | .stopped _ => True
  | _ => False

/-- The message of the formatting process. -/
def FormatterMessage.toGuard (pid : Pid) : FormatterMessage → GuardMessage
  | .cleanupError message => .cleanupError message
  | .exit reason => .exit pid reason

/-- The monitor's answers say that it does not run: it stopped, or it never started. -/
def Confirms (stop : Except Term (Except (Option Hypervisor.Cause) Hypervisor.Outcome))
    (ready : Except Hypervisor.Cause Hypervisor.Status) (status : Hypervisor.Status) : Prop :=
  (∃ outcome, stop = .ok (.ok outcome)) ∨
    ∃ message, stop = .ok (.error (some (.startup message))) ∧
      ready = .error (.startup message) ∧ status.phase = .failed ∧
      status.error = some (.startup message) ∧ status.osPid = none ∧ status.outcome = none

/-- An operation on the lease; without a network there is nobody to ask for it. -/
def Belongings.leased (r : Belongings) (network : Option ℕ) (change : Lease → Lease) :
    Belongings :=
  { r with lease := if network = none then r.lease else r.lease.map change }

/-- `Network.revoke` was answered. -/
def Belongings.revoke (r : Belongings) (network : Option ℕ) (answer : Option Term) : Belongings :=
  r.leased network fun l => { l with revoked := l.revoked || answer.isNone }

/-- `Network.release` was answered. -/
def Belongings.release (r : Belongings) (network : Option ℕ) (answer : Option Term) :
    Belongings :=
  r.leased network fun l => { l with released := l.released || answer.isNone }

/-- One thing happens: to the resources, or the guard takes a turn. -/
inductive Custody.Step : Custody → Custody → Prop
  /-- The files of the directory change, by whatever hand, or it is removed. -/
  | files (w : Custody) (old : List String) (new : Option (List String))
      (hold : w.belongings.directory = some old) :
      Step w (w.with { w.belongings with directory := new })
  | formatterError (w : Custody) (f : Formatter) (message : Term)
      (hf : w.belongings.formatter = some f) (hrunning : f.running = true) :
      Step w (w.with { w.belongings with
        formatter := some { f with
          mail := f.mail ++ [.cleanupError message], failed := true } })
  | formatterExit (w : Custody) (f : Formatter) (reason : Hypervisor.ExitReason)
      (hf : w.belongings.formatter = some f) (hrunning : f.running = true) :
      Step w (w.with { w.belongings with
        formatter := some { f with
          mail := f.mail ++ [.exit reason]
          running := false
          failed := f.failed || (Hypervisor.completion reason).isOk.not } })
  | crash (w : Custody) (hpoint : w.guard.point ≠ .ended) :
      Step w (w.after (w.guard.go .crashed []))
  | registered (w : Custody) (admitted : Bool) (hpoint : w.guard.point = .registering) :
      Step w (w.after (w.guard.registered admitted))
  | allocated (w : Custody) (directory : String) (hpoint : w.guard.point = .allocating) :
      Step w ((w.with { w.belongings with directory := some [] }).after
        (w.guard.allocated (.ok directory)))
  | unallocated (w : Custody) (reason : Term) (hpoint : w.guard.point = .allocating) :
      Step w (w.after (w.guard.allocated (.error reason)))
  | prepared (w : Custody) (answer : Except Term Unit) (hpoint : w.guard.point = .preparing) :
      Step w (w.after (w.guard.prepared answer))
  | formatterStarted (w : Custody) (pid : Pid) (hpoint : w.guard.point = .formatting) :
      Step w ((w.with { w.belongings with formatter := some { pid := pid } }).after
        (w.guard.formatterStarted (.ok pid)))
  /-- The formatting process may run, although it was not said to have been started. -/
  | formatterFailed (w : Custody) (reason : Term) (f : Option Formatter)
      (hpoint : w.guard.point = .formatting) :
      Step w ((w.with { w.belongings with formatter := f }).after
        (w.guard.formatterStarted (.error reason)))
  | message (w : Custody) (m : GuardMessage) (htakes : w.guard.takes m)
      (hown : ¬ m.own w.guard) :
      Step w (w.after (w.guard.receive m))
  | formatterMessage (w : Custody) (f : Formatter) (m : FormatterMessage)
      (rest : List FormatterMessage) (hf : w.belongings.formatter = some f)
      (hmail : f.mail = m :: rest) (htakes : w.guard.takes (m.toGuard f.pid)) :
      Step w ((w.with { w.belongings with formatter := some { f with mail := rest } }).after
        (w.guard.receive (m.toGuard f.pid)))
  | provisioned (w : Custody) (lease : ℕ) (hpoint : w.guard.point = .provisioning) :
      Step w ((w.with { w.belongings with lease := some {} }).after
        (w.guard.provisioned (.provisioned (some lease))))
  /-- The virtual machine has no network. -/
  | unnetworked (w : Custody) (hpoint : w.guard.point = .provisioning) :
      Step w (w.after (w.guard.provisioned (.provisioned none)))
  /-- There may be a lease. -/
  | unconfirmed (w : Custody) (reason : Term) (l : Option Lease)
      (hpoint : w.guard.point = .provisioning) :
      Step w ((w.with { w.belongings with lease := l }).after
        (w.guard.provisioned (.unconfirmed reason)))
  | unreached (w : Custody) (reason : Term) (hpoint : w.guard.point = .provisioning) :
      Step w (w.after (w.guard.provisioned (.unreached reason)))
  | admitted (w : Custody) (late : Bool) (hpoint : w.guard.point = .admitting) :
      Step w (w.after (w.guard.admitted late))
  /-- The monitor is started, or may have been. -/
  | launched (w : Custody) (answer : Except Term (Pid × ℕ × Pid))
      (hpoint : w.guard.point = .launching) :
      Step w ((w.with { w.belongings with vmm := .launched }).after (w.guard.launched answer))
  | withdrawn (w : Custody) (answer : Option Term) (hpoint : w.guard.point = .withdrawing)
      (hanswer : w.guard.network = none → answer = none) :
      Step w ((w.with (w.belongings.revoke w.guard.network answer)).after
        (w.guard.withdrawn answer))
  /-- The process that stops the monitor sends what it was told. -/
  | confirmed (w : Custody)
      (stop : Except Term (Except (Option Hypervisor.Cause) Hypervisor.Outcome))
      (ready : Except Hypervisor.Cause Hypervisor.Status) (status : Hypervisor.Status)
      (hpoint : w.guard.point = .awaitingStop) (hconfirms : Confirms stop ready status) :
      Step w ((w.with { w.belongings with vmm := .stopped }).after
        (w.guard.receive (.stopped (stopCleanup stop ready status))))
  | unstopped (w : Custody)
      (stop : Except Term (Except (Option Hypervisor.Cause) Hypervisor.Outcome))
      (ready : Except Hypervisor.Cause Hypervisor.Status) (status : Hypervisor.Status)
      (hpoint : w.guard.point = .awaitingStop) (hconfirms : ¬ Confirms stop ready status) :
      Step w (w.after (w.guard.receive (.stopped (stopCleanup stop ready status))))
  | revoked (w : Custody) (result : Result) (certification : Cleanup) (answer : Option Term)
      (hpoint : w.guard.point = .revoking result certification)
      (hanswer : w.guard.network = none → answer = none) :
      Step w ((w.with (w.belongings.revoke w.guard.network answer)).after
        (w.guard.revoked result certification answer))
  | released (w : Custody) (result : Result) (answer : Option Term)
      (hpoint : w.guard.point = .releasing result)
      (hanswer : w.guard.network = none → answer = none) :
      Step w ((w.with (w.belongings.release w.guard.network answer)).after
        (w.guard.released result answer))
  | listed (w : Custody) (result : Result) (files : List String)
      (hpoint : w.guard.point = .listing result) (hfiles : w.belongings.directory = some files) :
      Step w (w.after (w.guard.listed result (.ok files)))
  | vanished (w : Custody) (result : Result) (hpoint : w.guard.point = .listing result)
      (hfiles : w.belongings.directory = none) :
      Step w (w.after (w.guard.listed result (.error .enoent)))
  | unlisted (w : Custody) (result : Result) (reason : Term)
      (hpoint : w.guard.point = .listing result) :
      Step w (w.after (w.guard.listed result (.error (.error reason))))
  | removed (w : Custody) (result : Result) (file : String) (rest files : List String)
      (hpoint : w.guard.point = .removing result (file :: rest))
      (hfiles : w.belongings.directory = some files) (hfile : file ∈ files) :
      Step w ((w.with { w.belongings with directory := some (files.erase file) }).after
        (w.guard.removal result (file :: rest) (.ok ())))
  /-- The directory is there, but not the file. -/
  | missing (w : Custody) (result : Result) (file : String) (rest files : List String)
      (hpoint : w.guard.point = .removing result (file :: rest))
      (hfiles : w.belongings.directory = some files) (hfile : file ∉ files) :
      Step w { w.after (w.guard.removal result (file :: rest) (.error .enoent)) with
        missed := true }
  | directoryRemoved (w : Custody) (result : Result)
      (hpoint : w.guard.point = .removing result []) (hfiles : w.belongings.directory = some []) :
      Step w ((w.with { w.belongings with directory := none }).after
        (w.guard.removal result [] (.ok ())))
  /-- The directory is gone altogether. -/
  | gone (w : Custody) (result : Result) (files : List String)
      (hpoint : w.guard.point = .removing result files) (hfiles : w.belongings.directory = none) :
      Step w (w.after (w.guard.removal result files (.error .enoent)))
  | unremoved (w : Custody) (result : Result) (files : List String) (reason : Term)
      (hpoint : w.guard.point = .removing result files) :
      Step w (w.after (w.guard.removal result files (.error (.error reason))))

/-- The custodies that a guard gets into. -/
inductive Custody.Reachable : Custody → Prop
  | start (serverMonitor ownerMonitor : Ref) (ledgerMonitor : Option Ref)
      (options : ExecutionOptions) :
      Reachable { guard := .run serverMonitor ownerMonitor ledgerMonitor options }
  | step (w w' : Custody) (h : Reachable w) (hstep : Step w w') : Reachable w'

/-- The certificates are true. -/
def Custody.Certified (w : Custody) : Prop :=
  ∀ c ∈ w.reports, c.cleanup = .ok → c.belongings.Cleared

end Worlds

section Knowledge

/-- What the guard knows that it owns. -/
structure Holding where
  directory : Option String
  formatter : Option Pid
  vmm : Option Pid
  network : Option ℕ
  cleanupError : Option Term

def Guard.holding (g : Guard) : Holding :=
  ⟨g.directory, g.formatter, g.vmm, g.network, g.cleanupError⟩

/-- What is wrong with a formatting process was told, is on its way, or is in its exit. -/
def Formatter.Told (f : Formatter) (known : Option Term) : Prop :=
  ∃ (errors : List Term) (ending : Option Hypervisor.ExitReason),
    f.mail = errors.map .cleanupError ++ ending.toList.map .exit ∧
    (f.running = true ↔ ending = none) ∧
    (f.failed = true → known ≠ none ∨ errors ≠ [] ∨
      ∃ reason, ending = some reason ∧ (Hypervisor.completion reason).isOk = false)

/-- The guard knows of everything that is there. -/
structure Holding.Knows (h : Holding) (r : Belongings) : Prop where
  directory : h.directory = none → r.directory = none
  lease : h.network = none → r.lease = none
  vmm : h.vmm = none → r.vmm = .absent
  idle : h.formatter = none → ∀ f, r.formatter = some f → f.Ended
  busy : ∀ pid, h.formatter = some pid → h.vmm = none ∧ h.network = none ∧
    ∃ f, r.formatter = some f ∧ f.pid = pid ∧ f.Told h.cleanupError

/-- Nothing runs any more, and the guard knows of what is left. -/
structure Holding.Stilled (h : Holding) (r : Belongings) : Prop where
  directory : h.directory = none → r.directory = none
  lease : h.network = none → r.lease = none
  vmm : r.vmm ≠ .launched
  formatter : ∀ f, r.formatter = some f → f.Ended

/-- The lease was revoked, and released. -/
def Belongings.Revoked (r : Belongings) : Prop := ∀ l, r.lease = some l → l.revoked = true

def Belongings.Released (r : Belongings) : Prop := ∀ l, r.lease = some l → l.released = true

/-- What the guard relies on where it is. -/
def Guard.SafeAt (g : Guard) (r : Belongings) : GuardPoint → Prop
  | .registering | .allocating | .preparing | .formatting | .provisioning =>
    g.holding.Knows r ∧ g.formatter = none ∧ g.vmm = none ∧ g.network = none
  | .looping => g.holding.Knows r
  | .admitting | .launching => g.holding.Knows r ∧ g.formatter = none
  | .withdrawing | .awaitingStop => g.holding.Knows r ∧ g.formatter = none ∧ g.vmm ≠ none
  | .revoking _ certification => certification = .ok → g.holding.Stilled r
  | .releasing _ => g.holding.Stilled r ∧ r.Revoked
  | .listing _ | .removing _ _ => g.holding.Stilled r ∧ r.Revoked ∧ r.Released
  | .ended | .crashed => True

def Guard.Safe (g : Guard) (r : Belongings) : Prop := g.SafeAt r g.point

/-- A turn either goes on without a report, or ends with one that is true. -/
inductive GuardTurn.Sound (r : Belongings) (t : GuardTurn) : Prop
  | goes (hquiet : t.effects.filterMap (·.reported r) = []) (hpoint : t.state.point ≠ .ended)
      (hsafe : t.state.Safe r) : Sound r t
  | reports (c : GuardReport) (hreport : t.effects.filterMap (·.reported r) = [c])
      (hpoint : t.state.point = .ended) (htrue : c.cleanup = .ok → c.belongings.Cleared) :
      Sound r t

end Knowledge

section Turns

variable {g : Guard} {r : Belongings} {result : Result}

theorem Holding.Knows.stilled {h : Holding} (hknows : h.Knows r) (hformatter : h.formatter = none)
    (hvmm : h.vmm = none) : h.Stilled r := by
  refine ⟨hknows.directory, hknows.lease, ?_, hknows.idle hformatter⟩
  rw [hknows.vmm hvmm]
  decide

theorem Holding.Stilled.cleared {h : Holding} (hstilled : h.Stilled r) (hrevoked : r.Revoked)
    (hreleased : r.Released) (hdirectory : r.directory = none) : r.Cleared :=
  ⟨hstilled.vmm, fun f hf => ⟨(hstilled.formatter f hf).1, (hstilled.formatter f hf).2.1⟩,
    fun l hl => ⟨hrevoked l hl, hreleased l hl⟩, hdirectory⟩

theorem quiet_killIo (io : Option Pid) :
    (io.toList.map GuardEffect.killIo).filterMap (·.reported r) = [] := by
  cases io <;> rfl

/-- The guard goes on elsewhere, without a word. -/
theorem Guard.go_sound {point : GuardPoint} (hpoint : point ≠ .ended)
    (hsafe : Guard.Safe { g with point := point } r) : GuardTurn.Sound r (g.go point []) :=
  .goes rfl hpoint hsafe

theorem Guard.stay_sound (h : g.holding.Knows r) : GuardTurn.Sound r g.stay :=
  Guard.go_sound (by simp) h

theorem Guard.finish_sound {certification : Cleanup}
    (h : certification = .ok → g.holding.Stilled r) :
    GuardTurn.Sound r (g.finish result certification) :=
  .goes (quiet_killIo _) (by simp [Guard.finish, Guard.go]) h

/-- The report is true if it is about a failure, or if nothing is left. -/
theorem Guard.conclude_sound {cleanup : Cleanup} (h : cleanup = .ok → r.Cleared) :
    GuardTurn.Sound r (g.conclude result cleanup) :=
  .reports _ rfl rfl h

theorem Guard.stop_sound (h : g.holding.Knows r) : GuardTurn.Sound r (g.stop result) := by
  unfold Guard.stop
  split
  · exact Guard.go_sound (by simp) h
  · split
    · exact .goes rfl (by simp) h
    · rename_i hformatter
      split
      · rename_i hvmm
        exact Guard.finish_sound fun _ => h.stilled hformatter hvmm
      · rename_i vmm hvmm
        have hsome : g.vmm ≠ none := by simp [hvmm]
        exact .goes (quiet_killIo g.io) (by simp) ⟨h, hformatter, hsome⟩

theorem GuardTurn.Sound.andThen {effects : List GuardEffect} {f : Guard → GuardTurn}
    (hquiet : effects.filterMap (·.reported r) = []) (h : GuardTurn.Sound r (f g)) :
    GuardTurn.Sound r ((Turn.emit effects g).andThen f) := by
  have heffects : ((Turn.emit effects g).andThen f).effects.filterMap (·.reported r) =
      (f g).effects.filterMap (·.reported r) := by
    rw [Turn.andThen_effects, List.filterMap_append, Turn.emit_effects, hquiet]
    rfl
  cases h with
  | goes hq hpoint hsafe => exact .goes (heffects.trans hq) hpoint hsafe
  | reports c hreport hpoint htrue => exact .reports c (heffects.trans hreport) hpoint htrue

/-- Messages that the formatting process does not send leave the guard with what it knows. -/
theorem Guard.loop_sound (h : g.holding.Knows r) {m : GuardMessage} (hm : ¬ m.own g) :
    GuardTurn.Sound r (g.loop m) := by
  cases m with
  | exit pid reason =>
    change GuardTurn.Sound r (g.exit pid reason)
    rw [Guard.exit, if_neg (show ¬ g.formatter = some pid from hm)]
    split
    · exact Guard.finish_sound fun hok => by cases hok
    · exact Guard.stay_sound h
  | cleanupError message => exact absurd trivial hm
  | finish result => exact Guard.stop_sound h
  | deadline =>
    simp only [Guard.loop]
    split
    · exact Guard.stop_sound h
    · exact Guard.stay_sound h
  | cleanupDeadline => exact Guard.finish_sound fun hok => by cases hok
  | down ref pid reason =>
    simp only [Guard.loop, Guard.down]
    split
    · exact Guard.stop_sound h
    · split
      · exact Guard.stop_sound h
      · exact Guard.stay_sound h
  | guestReady =>
    simp only [Guard.loop, Guard.guestReady]
    split
    · exact .goes rfl (by simp) h
    · exact Guard.go_sound (by simp) trivial
  | execute command =>
    simp only [Guard.loop, Guard.execute]
    split
    · exact Guard.stay_sound h
    · exact Guard.go_sound (by simp) trivial
    · exact .goes rfl (by simp) h
  | cancelCommand command reason =>
    simp only [Guard.loop, Guard.cancelCommand]
    split
    · split
      · exact Guard.go_sound (by simp) trivial
      · exact .goes (by split <;> rfl) (by simp) h
    · exact Guard.stay_sound h
  | cancelDeadline command =>
    simp only [Guard.loop, Guard.cancelDeadline]
    split
    · exact Guard.stop_sound h
    · exact Guard.stay_sound h
  | commandFinished command result =>
    simp only [Guard.loop, Guard.commandFinished]
    split
    · refine GuardTurn.Sound.andThen rfl ?_
      split
      · exact Guard.stop_sound h
      · exact .goes rfl (by simp) h
    · exact Guard.stay_sound h
  | hypervisor vmm event =>
    simp only [Guard.loop, Guard.hypervisor]
    split
    · cases event with
      | exited outcome => exact Guard.stop_sound h
      | failed reason => exact Guard.stop_sound h
      | other => exact Guard.stay_sound h
    · exact Guard.stay_sound h
  | stopped answer => exact Guard.stay_sound h
  | other => exact Guard.stay_sound h

theorem Guard.revoked_sound {certification : Cleanup} {answer : Option Term}
    (hstilled : certification = .ok → g.holding.Stilled r)
    (hrevoked : certification = .ok → answer = none → r.Revoked) :
    GuardTurn.Sound r (g.revoked result certification answer) := by
  cases certification with
  | failed term => cases answer <;> exact Guard.conclude_sound fun hok => by cases hok
  | ok =>
    cases answer with
    | some error => exact Guard.conclude_sound fun hok => by cases hok
    | none => exact Guard.go_sound (by simp) ⟨hstilled rfl, hrevoked rfl rfl⟩

theorem Guard.released_sound {answer : Option Term} (hstilled : g.holding.Stilled r)
    (hrevoked : r.Revoked) (hreleased : answer = none → r.Released) :
    GuardTurn.Sound r (g.released result answer) := by
  unfold Guard.released
  split
  · exact Guard.conclude_sound fun hok => by cases hok
  · exact Guard.conclude_sound fun hok => by cases hok
  · split
    · rename_i hdirectory
      exact Guard.conclude_sound fun _ =>
        hstilled.cleared hrevoked (hreleased rfl) (hstilled.directory hdirectory)
    · exact Guard.go_sound (by simp) ⟨hstilled, hrevoked, hreleased rfl⟩

/-- An error of a removal is no harm if the directory is gone. -/
theorem Guard.removalFailed_sound {error : FileError} (hstilled : g.holding.Stilled r)
    (hrevoked : r.Revoked) (hreleased : r.Released)
    (hgone : error = .enoent → r.directory = none) :
    GuardTurn.Sound r (g.removalFailed result error) := by
  cases error with
  | enoent =>
    exact Guard.conclude_sound fun _ => hstilled.cleared hrevoked hreleased (hgone rfl)
  | error reason => exact Guard.conclude_sound fun hok => by cases hok

theorem Guard.listed_sound {files : List String} (hstilled : g.holding.Stilled r)
    (hrevoked : r.Revoked) (hreleased : r.Released) :
    GuardTurn.Sound r (g.listed result (.ok files)) := by
  simp only [Guard.listed]
  split
  · exact Guard.go_sound (by simp) ⟨hstilled, hrevoked, hreleased⟩
  · exact Guard.conclude_sound fun hok => by cases hok

theorem Guard.removal_failed (files : List String) (error : FileError) :
    g.removal result files (.error error) = g.removalFailed result error := by
  cases files <;> rfl

theorem Guard.awaitStop_sound (h : g.holding.Knows r) (hformatter : g.formatter = none)
    (hvmm : g.vmm ≠ none) {m : GuardMessage}
    (hstopped : m = .stopped .stopped ∨ m = .stopped .startupCleanupConfirmed →
      r.vmm ≠ .launched) : GuardTurn.Sound r (g.awaitStop m) := by
  have hstilled : m = .stopped .stopped ∨ m = .stopped .startupCleanupConfirmed →
      g.holding.Stilled r :=
    fun hm => ⟨h.directory, h.lease, hstopped hm, h.idle hformatter⟩
  unfold Guard.awaitStop
  split
  · exact Guard.finish_sound fun _ => hstilled (.inl rfl)
  · exact Guard.finish_sound fun _ => hstilled (.inr rfl)
  · exact Guard.finish_sound fun hok => by cases hok
  · exact Guard.finish_sound fun hok => by cases hok
  · exact Guard.go_sound (by simp) ⟨h, hformatter, hvmm⟩

theorem Guard.refused_sound (h : g.holding.Knows r) (hformatter : g.formatter = none)
    {m : GuardMessage} : GuardTurn.Sound r (g.refused m) := by
  unfold Guard.refused
  split
  · exact Guard.stop_sound h
  · exact Guard.stop_sound h
  · exact Guard.stop_sound h
  · exact Guard.go_sound (by simp) ⟨h, hformatter⟩

end Turns

section Formatting

variable {g : Guard} {r : Belongings} {f : Formatter} {known : Option Term}
  {rest : List FormatterMessage}

theorem Formatter.Told.sendError (h : f.Told known) (hrunning : f.running = true)
    (message : Term) :
    Formatter.Told { f with mail := f.mail ++ [.cleanupError message], failed := true }
      known := by
  obtain ⟨errors, ending, hmail, hending, -⟩ := h
  have hnone : ending = none := hending.mp hrunning
  subst hnone
  refine ⟨errors ++ [message], none, ?_, hending, fun _ => .inr (.inl (by simp))⟩
  simp [hmail]

theorem Formatter.Told.sendExit (h : f.Told known) (hrunning : f.running = true)
    (reason : Hypervisor.ExitReason) :
    Formatter.Told { f with
      mail := f.mail ++ [.exit reason]
      running := false
      failed := f.failed || (Hypervisor.completion reason).isOk.not } known := by
  obtain ⟨errors, ending, hmail, hending, hfailed⟩ := h
  have hnone : ending = none := hending.mp hrunning
  subst hnone
  refine ⟨errors, some reason, by simp [hmail], by simp, fun hbad => ?_⟩
  rcases Bool.or_eq_true_iff.mp hbad with hbefore | hreason
  · rcases hfailed hbefore with hknown | herrors | ⟨_, hsome, -⟩
    · exact .inl hknown
    · exact .inr (.inl herrors)
    · cases hsome
  · exact .inr (.inr ⟨reason, rfl, by simpa using hreason⟩)

/-- A cleanup error is known once it was taken. -/
theorem Formatter.Told.takeError {message : Term} (h : f.Told known)
    (hmail : f.mail = .cleanupError message :: rest) :
    Formatter.Told { f with mail := rest } (some message) := by
  obtain ⟨errors, ending, hsent, hending, -⟩ := h
  rw [hmail] at hsent
  cases errors with
  | nil => cases ending <;> simp at hsent
  | cons error errors =>
    rw [List.map_cons, List.cons_append] at hsent
    exact ⟨errors, ending, (List.cons.inj hsent).2, hending, fun _ => .inl (by simp)⟩

/-- The exit is the last message, so that nothing is wrong if it says so and nothing was told. -/
theorem Formatter.Told.takeExit {reason : Hypervisor.ExitReason} (h : f.Told none)
    (hmail : f.mail = .exit reason :: rest)
    (hok : (Hypervisor.completion reason).isOk = true) :
    Formatter.Ended { f with mail := rest } := by
  obtain ⟨errors, ending, hsent, hending, hfailed⟩ := h
  rw [hmail] at hsent
  cases errors with
  | cons error errors => simp at hsent
  | nil =>
    cases ending with
    | none => simp at hsent
    | some last =>
      obtain ⟨hreason, hrest⟩ : reason = last ∧ rest = [] := by simpa using hsent
      subst hreason
      have hrunning : f.running = false := by
        rw [← Bool.not_eq_true]
        exact fun hrunning => by cases hending.mp hrunning
      have hclean : f.failed = false := by
        rw [← Bool.not_eq_true]
        intro hbad
        rcases hfailed hbad with hknown | herrors | ⟨_, hsome, hbadly⟩
        · exact hknown rfl
        · exact herrors rfl
        · cases hsome
          rw [hok] at hbadly
          cases hbadly
      exact ⟨hrunning, hclean, hrest⟩

/-- The formatting process of the belongings, as it is now. -/
def Belongings.formatting (r : Belongings) (f : Formatter) : Belongings :=
  { r with formatter := some f }

theorem Holding.Knows.formatting {h : Holding} {pid : Pid} (hknows : h.Knows r)
    (hf : h.formatter = some pid) {f' : Formatter} (hpid : f'.pid = pid)
    (htold : f'.Told h.cleanupError) : h.Knows (r.formatting f') where
  directory := hknows.directory
  lease := hknows.lease
  vmm := hknows.vmm
  idle := fun hnone => by rw [hf] at hnone; cases hnone
  busy := fun pid' hpid' => by
    rw [hf] at hpid'
    cases hpid'
    exact ⟨(hknows.busy pid hf).1, (hknows.busy pid hf).2.1, f', rfl, hpid, htold⟩

/-- A formatting process with something to tell is one that the guard waits for. -/
theorem Holding.Knows.waits {h : Holding} (hknows : h.Knows r) (hf : r.formatter = some f)
    (hbusy : ¬ f.Ended) :
    h.formatter = some f.pid ∧ h.vmm = none ∧ h.network = none ∧ f.Told h.cleanupError := by
  cases hformatter : h.formatter with
  | none => exact absurd (hknows.idle hformatter f hf) hbusy
  | some pid =>
    obtain ⟨hvmm, hnetwork, f', hf', hpid, htold⟩ := hknows.busy pid hformatter
    rw [hf] at hf'
    cases hf'
    exact ⟨by rw [hpid], hvmm, hnetwork, htold⟩

theorem Guard.formatterExit_sound {reason : Hypervisor.ExitReason}
    (hknows : g.holding.Knows r) (hf : r.formatter = some f)
    (hmail : f.mail = .exit reason :: rest) :
    GuardTurn.Sound (r.formatting { f with mail := rest }) (g.formatterExit reason) := by
  obtain ⟨-, hvmm, hnetwork, htold⟩ := hknows.waits hf fun hended => by
    rw [hended.2.2] at hmail
    cases hmail
  have hstilled : g.cleanupError = none → (Hypervisor.completion reason).isOk = true →
      g.holding.Stilled (r.formatting { f with mail := rest }) := by
    intro hnone hok
    refine ⟨hknows.directory, hknows.lease, ?_, fun f' hf' => ?_⟩
    · change r.vmm ≠ _
      rw [hknows.vmm hvmm]
      decide
    · cases hf'
      refine Formatter.Told.takeExit ?_ hmail hok
      rw [← hnone]
      exact htold
  unfold Guard.formatterExit
  split
  · rename_i hcompletion hnone
    have hended := hstilled hnone (by rw [hcompletion]; rfl)
    split
    · exact Guard.finish_sound fun _ => hended
    · refine .goes rfl (by simp)
        ⟨⟨hknows.directory, hknows.lease, hknows.vmm, ?_, ?_⟩, rfl, hvmm, hnetwork⟩
      · exact fun _ => hended.formatter
      · exact fun pid hpid => by cases hpid
  · rename_i hcompletion hnone
    exact Guard.finish_sound fun _ => hstilled hnone (by rw [hcompletion]; rfl)
  · exact Guard.finish_sound fun hok => by cases hok
  · exact Guard.finish_sound fun hok => by cases hok

/-- The guard takes the oldest message of the formatting process. -/
theorem Guard.formatterMessage_sound {m : FormatterMessage} (hknows : g.holding.Knows r)
    (hf : r.formatter = some f) (hmail : f.mail = m :: rest) :
    GuardTurn.Sound (r.formatting { f with mail := rest }) (g.loop (m.toGuard f.pid)) := by
  obtain ⟨hformatter, hvmm, hnetwork, htold⟩ := hknows.waits hf fun hended => by
    rw [hended.2.2] at hmail
    cases hmail
  cases m with
  | cleanupError message =>
    refine .goes rfl (by simp [Guard.loop, FormatterMessage.toGuard]) ?_
    refine ⟨hknows.directory, hknows.lease, hknows.vmm, fun hnone => ?_, fun pid hpid => ?_⟩
    · exact absurd (hformatter.symm.trans hnone) (by simp)
    · exact ⟨hvmm, hnetwork, _, rfl, Option.some.inj (hformatter.symm.trans hpid), htold.takeError hmail⟩
  | exit reason =>
    have hexit : g.loop (FormatterMessage.toGuard f.pid (.exit reason)) =
        g.formatterExit reason := if_pos hformatter
    rw [hexit]
    exact Guard.formatterExit_sound hknows hf hmail

end Formatting

section Steps

variable {g : Guard} {r r' : Belongings} {w w' : Custody}

/-- A change of the belongings that the guard's knowledge survives. -/
theorem Guard.Safe.mono (hknows : g.holding.Knows r → g.holding.Knows r')
    (hstilled : g.holding.Stilled r → g.holding.Stilled r') (hlease : r'.lease = r.lease)
    (h : g.Safe r) : g.Safe r' := by
  have hrevoked : r.Revoked → r'.Revoked := fun hr l hl => hr l (hlease ▸ hl)
  have hreleased : r.Released → r'.Released := fun hr l hl => hr l (hlease ▸ hl)
  unfold Guard.Safe Guard.SafeAt at h ⊢
  split at h
  · exact ⟨hknows h.1, h.2⟩
  · exact ⟨hknows h.1, h.2⟩
  · exact ⟨hknows h.1, h.2⟩
  · exact ⟨hknows h.1, h.2⟩
  · exact ⟨hknows h.1, h.2⟩
  · exact hknows h
  · exact ⟨hknows h.1, h.2⟩
  · exact ⟨hknows h.1, h.2⟩
  · exact ⟨hknows h.1, h.2⟩
  · exact ⟨hknows h.1, h.2⟩
  · exact fun hok => hstilled (h hok)
  · exact ⟨hstilled h.1, hrevoked h.2⟩
  · exact ⟨hstilled h.1, hrevoked h.2.1, hreleased h.2.2⟩
  · exact ⟨hstilled h.1, hrevoked h.2.1, hreleased h.2.2⟩
  · trivial
  · trivial

/-- The directory is the guard's own while it exists. -/
theorem Guard.Safe.files {old : List String} (hold : r.directory = some old)
    (new : Option (List String)) (h : g.Safe r) : g.Safe { r with directory := new } := by
  have hsome : ¬ r.directory = none := fun hnone => by rw [hold] at hnone; cases hnone
  refine Guard.Safe.mono (r := r) (fun hknows => ?_) (fun hstilled => ?_) rfl h
  · exact ⟨fun hnone => absurd (hknows.directory hnone) hsome, hknows.lease, hknows.vmm,
      hknows.idle, hknows.busy⟩
  · exact ⟨fun hnone => absurd (hstilled.directory hnone) hsome, hstilled.lease, hstilled.vmm,
      hstilled.formatter⟩

/-- What a running formatting process sends is kept for the guard. -/
theorem Guard.Safe.formatting {f f' : Formatter} (hf : r.formatter = some f)
    (hrunning : f.running = true) (hpid : f'.pid = f.pid)
    (htold : ∀ known, f.Told known → f'.Told known) (h : g.Safe r) :
    g.Safe (r.formatting f') := by
  have hbusy : ¬ f.Ended := fun hended => by rw [hended.1] at hrunning; cases hrunning
  refine h.mono (fun hknows => ?_) (fun hstilled => absurd (hstilled.formatter f hf) hbusy) rfl
  obtain ⟨hformatter, -, -, hheard⟩ := hknows.waits hf hbusy
  exact hknows.formatting hformatter hpid (htold _ hheard)

/-- Without a report there is nothing yet; the one report is true unless a file was missed, and
is false if one was. -/
inductive Custody.Kept (w : Custody) : Prop
  | open (hpoint : w.guard.point ≠ .ended) (hsafe : w.guard.Safe w.belongings)
      (hreports : w.reports = []) (hmissed : w.missed = false) : Kept w
  | closed (c : GuardReport) (hpoint : w.guard.point = .ended) (hreports : w.reports = [c])
      (htrue : w.missed = false → c.cleanup = .ok → c.belongings.Cleared)
      (hfalse : w.missed = true → c.cleanup = .ok ∧ c.belongings.directory ≠ none) : Kept w

/-- What the guard relies on while it is not at the end. -/
theorem Custody.Kept.safe (h : w.Kept) (hpoint : w.guard.point ≠ .ended) :
    w.guard.Safe w.belongings ∧ w.reports = [] ∧ w.missed = false := by
  cases h with
  | «open» _ hsafe hreports hmissed => exact ⟨hsafe, hreports, hmissed⟩
  | closed _ hend => exact absurd hend hpoint

/-- Only the belongings change. -/
theorem Custody.Kept.with (h : w.Kept) (hsafe : w.guard.Safe w.belongings → w.guard.Safe r) :
    (w.with r).Kept := by
  cases h with
  | «open» hpoint hbefore hreports hmissed =>
    exact .open hpoint (hsafe hbefore) hreports hmissed
  | closed c hpoint hreports htrue hfalse => exact .closed c hpoint hreports htrue hfalse

/-- A turn of the guard, from where it is. -/
theorem Custody.Kept.turn {t : GuardTurn} {point : GuardPoint} (h : w.Kept)
    (hpoint : w.guard.point = point) (hopen : point ≠ .ended)
    (hsound : w.guard.SafeAt w.belongings point → GuardTurn.Sound r t) :
    ((w.with r).after t).Kept := by
  obtain ⟨hsafe, hreports, hmissed⟩ := h.safe (hpoint ▸ hopen)
  rw [Guard.Safe, hpoint] at hsafe
  cases hsound hsafe with
  | goes hquiet hend hsafe =>
    refine .open hend hsafe ?_ hmissed
    change w.reports ++ _ = []
    rw [hreports]
    exact hquiet
  | reports c hreport hend htrue =>
    refine .closed c hend ?_ (fun _ => htrue) fun htrue => ?_
    · change w.reports ++ _ = [c]
      rw [hreports]
      exact hreport
    · rw [show w.missed = true from htrue] at hmissed
      cases hmissed

theorem Guard.receive_looping {m : GuardMessage} (h : g.point = .looping) :
    g.receive m = g.loop m := by
  rw [Guard.receive, h]

theorem Guard.receive_awaiting {m : GuardMessage} (h : g.point = .awaitingStop) :
    g.receive m = g.awaitStop m := by
  rw [Guard.receive, h]

theorem Guard.receive_admitting {m : GuardMessage} (h : g.point = .admitting) :
    g.receive m = g.refused m := by
  rw [Guard.receive, h]

/-- The answer to a stop of the monitor is good exactly if the monitor confirmed it. -/
theorem stopCleanup_good_iff
    {stop : Except Term (Except (Option Hypervisor.Cause) Hypervisor.Outcome)}
    {ready : Except Hypervisor.Cause Hypervisor.Status} {status : Hypervisor.Status} :
    stopCleanup stop ready status = .stopped ∨
        stopCleanup stop ready status = .startupCleanupConfirmed ↔
      Confirms stop ready status := by
  constructor
  · intro h
    unfold stopCleanup at h
    split at h
    · exact .inl ⟨_, rfl⟩
    · split at h
      · split at h
        · rename_i hstatus
          exact .inr ⟨_, rfl, by rw [hstatus.1], hstatus.2⟩
        · simp at h
      · simp at h
    · simp at h
    · simp at h
  · rintro (⟨outcome, rfl⟩ | ⟨message, rfl, rfl, hstatus⟩)
    · exact .inl rfl
    · exact .inr (if_pos ⟨rfl, hstatus⟩)

theorem Belongings.leased_none {network : Option ℕ} (hlease : network = none → r.lease = none)
    (change : Lease → Lease) (hnone : network = none) :
    (r.leased network change).lease = none :=
  (if_pos hnone).trans (hlease hnone)

/-- What an operation on the lease brings about is true of it afterwards. -/
theorem Belongings.leased_all {network : Option ℕ} (hlease : network = none → r.lease = none)
    {change : Lease → Lease} {P : Lease → Prop} (hP : ∀ l, P (change l)) :
    ∀ l, (r.leased network change).lease = some l → P l := by
  intro l hl
  by_cases hnone : network = none
  · rw [Belongings.leased_none hlease change hnone] at hl
    cases hl
  · obtain ⟨l', -, rfl⟩ := Option.map_eq_some_iff.mp ((if_neg hnone).symm.trans hl)
    exact hP l'

theorem Belongings.revoke_revoked {network : Option ℕ}
    (hlease : network = none → r.lease = none) : (r.revoke network none).Revoked :=
  Belongings.leased_all hlease fun _ => by simp

theorem Belongings.release_released {network : Option ℕ}
    (hlease : network = none → r.lease = none) : (r.release network none).Released :=
  Belongings.leased_all hlease fun _ => by simp

/-- A release leaves the lease as revoked as it was. -/
theorem Belongings.Revoked.release (h : r.Revoked) (network : Option ℕ)
    (answer : Option Term) : (r.release network answer).Revoked := by
  intro l hl
  by_cases hnone : network = none
  · exact h l ((if_pos hnone).symm.trans hl)
  · obtain ⟨l', hl', rfl⟩ := Option.map_eq_some_iff.mp ((if_neg hnone).symm.trans hl)
    exact h l' hl'

theorem Holding.Stilled.leased {h : Holding} (hstilled : h.Stilled r) (change : Lease → Lease) :
    h.Stilled (r.leased h.network change) :=
  ⟨hstilled.directory, Belongings.leased_none hstilled.lease change, hstilled.vmm,
    hstilled.formatter⟩

theorem Holding.Knows.leased {h : Holding} (hknows : h.Knows r) (change : Lease → Lease) :
    h.Knows (r.leased h.network change) :=
  ⟨hknows.directory, Belongings.leased_none hknows.lease change, hknows.vmm, hknows.idle,
    hknows.busy⟩

/-- A message from elsewhere, wherever the guard takes it. -/
theorem Custody.Kept.message (h : w.Kept) {m : GuardMessage} (htakes : w.guard.takes m)
    (hown : ¬ m.own w.guard) : (w.after (w.guard.receive m)).Kept := by
  rcases htakes with hpoint | hpoint | ⟨hpoint, -⟩
  · refine h.turn hpoint (by simp) fun hknows => ?_
    rw [Guard.receive_looping hpoint]
    exact Guard.loop_sound hknows hown
  · refine h.turn hpoint (by simp) fun hsafe => ?_
    rw [Guard.receive_awaiting hpoint]
    refine Guard.awaitStop_sound hsafe.1 hsafe.2.1 hsafe.2.2 fun hstopped => absurd ?_ hown
    rcases hstopped with rfl | rfl <;> trivial
  · refine h.turn hpoint (by simp) fun hsafe => ?_
    rw [Guard.receive_admitting hpoint]
    exact Guard.refused_sound hsafe.1 hsafe.2

/-- Only in its loop is there mail of the formatting process for the guard. -/
theorem Custody.Kept.formatterMessage (h : w.Kept) {f : Formatter} {m : FormatterMessage}
    {rest : List FormatterMessage} (hf : w.belongings.formatter = some f)
    (hmail : f.mail = m :: rest) (htakes : w.guard.takes (m.toGuard f.pid)) :
    ((w.with (w.belongings.formatting { f with mail := rest })).after
      (w.guard.receive (m.toGuard f.pid))).Kept := by
  have hnone : ¬ f.Ended := fun hended => by
    rw [hended.2.2] at hmail
    cases hmail
  rcases htakes with hpoint | hpoint | ⟨hpoint, -⟩
  · refine h.turn hpoint (by simp) fun hknows => ?_
    rw [Guard.receive_looping hpoint]
    exact Guard.formatterMessage_sound hknows hf hmail
  · exact h.turn hpoint (by simp) fun hsafe => absurd (hsafe.1.idle hsafe.2.1 f hf) hnone
  · exact h.turn hpoint (by simp) fun hsafe => absurd (hsafe.1.idle hsafe.2 f hf) hnone

/-- The monitor's answers reach the guard. -/
theorem Custody.Kept.stopped (h : w.Kept) (hpoint : w.guard.point = .awaitingStop)
    {answer : StopAnswer} {vmm : VmmCondition}
    (hvmm : answer = .stopped ∨ answer = .startupCleanupConfirmed → vmm = .stopped) :
    ((w.with { w.belongings with vmm := vmm }).after
      (w.guard.receive (.stopped answer))).Kept := by
  refine h.turn hpoint (by simp) fun hsafe => ?_
  rw [Guard.receive_awaiting hpoint]
  refine Guard.awaitStop_sound (r := { w.belongings with vmm := vmm })
    ⟨hsafe.1.directory, hsafe.1.lease, ?_, hsafe.1.idle, ?_⟩ hsafe.2.1 hsafe.2.2
    fun hgood => ?_
  · exact fun hnone => absurd hnone hsafe.2.2
  · exact hsafe.1.busy
  · change vmm ≠ _
    rw [hvmm (by simpa using hgood)]
    decide

theorem Custody.Step.kept (hstep : Step w w') (h : w.Kept) : w'.Kept := by
  cases hstep with
  | files old new hold => exact h.with fun hsafe => hsafe.files hold new
  | formatterError f message hf hrunning =>
    exact h.with fun hsafe => hsafe.formatting hf hrunning rfl
      fun _ htold => htold.sendError hrunning message
  | formatterExit f reason hf hrunning =>
    exact h.with fun hsafe => hsafe.formatting hf hrunning rfl
      fun _ htold => htold.sendExit hrunning reason
  | crash hpoint =>
    exact h.turn rfl hpoint fun _ => Guard.go_sound (by simp) trivial
  | registered admitted hpoint =>
    refine h.turn hpoint (by simp) fun hsafe => ?_
    cases admitted with
    | true => exact Guard.go_sound (by simp) hsafe
    | false => exact Guard.finish_sound fun _ => hsafe.1.stilled hsafe.2.1 hsafe.2.2.1
  | allocated directory hpoint =>
    refine h.turn hpoint (by simp) fun hsafe => .goes rfl (by simp [Guard.allocated]) ?_
    refine ⟨⟨?_, hsafe.1.lease, hsafe.1.vmm, hsafe.1.idle, hsafe.1.busy⟩, hsafe.2⟩
    intro hnone
    cases hnone
  | unallocated reason hpoint =>
    exact h.turn hpoint (by simp) fun hsafe =>
      Guard.finish_sound fun _ => hsafe.1.stilled hsafe.2.1 hsafe.2.2.1
  | prepared answer hpoint =>
    refine h.turn hpoint (by simp) fun hsafe => ?_
    cases answer with
    | ok => exact Guard.go_sound (by simp) hsafe
    | error reason => exact Guard.finish_sound fun _ => hsafe.1.stilled hsafe.2.1 hsafe.2.2.1
  | formatterStarted pid hpoint =>
    refine h.turn hpoint (by simp) fun hsafe => .goes rfl (by simp [Guard.formatterStarted]) ?_
    refine ⟨hsafe.1.directory, hsafe.1.lease, hsafe.1.vmm, fun hnone => (by cases hnone), ?_⟩
    intro pid' hpid'
    cases hpid'
    exact ⟨hsafe.2.2.1, hsafe.2.2.2, _, rfl, rfl, [], none, rfl, by simp, by simp⟩
  | formatterFailed reason f hpoint =>
    exact h.turn hpoint (by simp) fun _ => Guard.finish_sound fun hok => by cases hok
  | message m htakes hown => exact h.message htakes hown
  | formatterMessage f m rest hf hmail htakes => exact h.formatterMessage hf hmail htakes
  | provisioned lease hpoint =>
    refine h.turn hpoint (by simp) fun hsafe => .goes rfl (by simp [Guard.provisioned]) ?_
    refine ⟨⟨hsafe.1.directory, fun hnone => ?_, hsafe.1.vmm, hsafe.1.idle, ?_⟩, hsafe.2.1⟩
    · cases hnone
    · exact fun pid hpid => by cases hsafe.2.1.symm.trans hpid
  | unnetworked hpoint =>
    refine h.turn hpoint (by simp) fun hsafe => .goes rfl (by simp [Guard.provisioned]) ?_
    refine ⟨⟨hsafe.1.directory, ?_, hsafe.1.vmm, hsafe.1.idle, ?_⟩, hsafe.2.1⟩
    · exact fun _ => hsafe.1.lease hsafe.2.2.2
    · exact fun pid hpid => by cases hsafe.2.1.symm.trans hpid
  | unconfirmed reason l hpoint =>
    exact h.turn hpoint (by simp) fun _ => Guard.finish_sound fun hok => by cases hok
  | unreached reason hpoint =>
    exact h.turn hpoint (by simp) fun hsafe =>
      Guard.finish_sound fun _ => hsafe.1.stilled hsafe.2.1 hsafe.2.2.1
  | admitted late hpoint =>
    refine h.turn hpoint (by simp) fun hsafe => ?_
    cases late with
    | true => exact Guard.stop_sound hsafe.1
    | false => exact Guard.go_sound (by simp) hsafe
  | launched answer hpoint =>
    refine h.turn hpoint (by simp) fun hsafe => ?_
    cases answer with
    | ok started =>
      refine .goes rfl (by simp [Guard.launched]) ?_
      refine ⟨hsafe.1.directory, hsafe.1.lease, fun hnone => (by cases hnone), hsafe.1.idle, ?_⟩
      exact fun pid hpid => by cases hsafe.2.symm.trans hpid
    | error reason => exact Guard.finish_sound fun hok => by cases hok
  | withdrawn answer hpoint hanswer =>
    refine h.turn hpoint (by simp) fun hsafe => .goes ?_ (by simp [Guard.withdrawn]) ?_
    · unfold Guard.withdrawn
      cases w.guard.vmm <;> rfl
    · have hleased := hsafe.1.leased fun l => { l with revoked := l.revoked || answer.isNone }
      refine ⟨⟨hleased.directory, hleased.lease, hleased.vmm, hleased.idle, ?_⟩, hsafe.2⟩
      exact fun pid hpid => by cases hsafe.2.1.symm.trans hpid
  | confirmed stop ready status hpoint hconfirms => exact h.stopped hpoint fun _ => rfl
  | unstopped stop ready status hpoint hconfirms =>
    exact h.stopped hpoint fun hgood => absurd (stopCleanup_good_iff.mp hgood) hconfirms
  | revoked result certification answer hpoint hanswer =>
    refine h.turn hpoint (by simp) fun hsafe => Guard.revoked_sound ?_ ?_
    · exact fun hok => (hsafe hok).leased _
    · rintro hok rfl
      exact Belongings.revoke_revoked (hsafe hok).lease
  | released result answer hpoint hanswer =>
    refine h.turn hpoint (by simp) fun hsafe => ?_
    refine Guard.released_sound (hsafe.1.leased _) (hsafe.2.release _ _) ?_
    rintro rfl
    exact Belongings.release_released hsafe.1.lease
  | listed result files hpoint hfiles =>
    exact h.turn hpoint (by simp) fun hsafe => Guard.listed_sound hsafe.1 hsafe.2.1 hsafe.2.2
  | vanished result hpoint hfiles =>
    refine h.turn hpoint (by simp) fun hsafe => ?_
    rw [Guard.listed]
    exact Guard.removalFailed_sound hsafe.1 hsafe.2.1 hsafe.2.2 fun _ => hfiles
  | unlisted result reason hpoint =>
    refine h.turn hpoint (by simp) fun hsafe => ?_
    rw [Guard.listed]
    exact Guard.removalFailed_sound hsafe.1 hsafe.2.1 hsafe.2.2 fun herror => by cases herror
  | removed result file rest files hpoint hfiles hfile =>
    refine h.turn hpoint (by simp) fun hsafe => Guard.go_sound (by simp) ?_
    refine ⟨⟨fun hnone => ?_, hsafe.1.lease, hsafe.1.vmm, hsafe.1.formatter⟩, hsafe.2⟩
    rw [hsafe.1.directory hnone] at hfiles
    cases hfiles
  | missing result file rest files hpoint hfiles hfile =>
    obtain ⟨-, hreports, -⟩ := h.safe (by rw [hpoint]; simp)
    refine .closed ⟨result, .ok, w.belongings⟩ rfl ?_ (fun hmissed => by cases hmissed) ?_
    · change w.reports ++ _ = _
      rw [hreports]
      rfl
    · exact fun _ => ⟨rfl, by rw [hfiles]; simp⟩
  | directoryRemoved result hpoint hfiles =>
    refine h.turn hpoint (by simp) fun hsafe => Guard.conclude_sound fun _ => ?_
    exact ⟨hsafe.1.vmm,
      fun f hf => ⟨(hsafe.1.formatter f hf).1, (hsafe.1.formatter f hf).2.1⟩,
      fun l hl => ⟨hsafe.2.1 l hl, hsafe.2.2 l hl⟩, rfl⟩
  | gone result files hpoint hfiles =>
    refine h.turn hpoint (by simp) fun hsafe => ?_
    rw [Guard.removal_failed]
    exact Guard.removalFailed_sound hsafe.1 hsafe.2.1 hsafe.2.2 fun _ => hfiles
  | unremoved result files reason hpoint =>
    refine h.turn hpoint (by simp) fun hsafe => ?_
    rw [Guard.removal_failed]
    exact Guard.removalFailed_sound hsafe.1 hsafe.2.1 hsafe.2.2 fun herror => by cases herror

end Steps

section Runs

variable {w : Custody}

theorem Custody.Reachable.kept (h : w.Reachable) : w.Kept := by
  induction h with
  | start serverMonitor ownerMonitor ledgerMonitor options =>
    refine .open (by simp [Guard.run]) ⟨⟨fun _ => rfl, fun _ => rfl, fun _ => rfl, ?_, ?_⟩,
      rfl, rfl, rfl⟩ rfl rfl
    · exact fun _ f hf => by cases hf
    · exact fun pid hpid => by cases hpid
  | step _ _ _ hstep ih => exact hstep.kept ih

/-- In every run the guard reports at most once, and what it certifies is true, exactly if it
never comes to remove a listed file that is gone from a directory that is not. A report that
follows such a removal certifies a directory that is still there. -/
theorem Custody.certified_iff (h : w.Reachable) :
    w.reports.length ≤ 1 ∧ w.Certified ↔ w.missed = false := by
  cases h.kept with
  | «open» hpoint hsafe hreports hmissed =>
    refine iff_of_true ⟨by simp [hreports], fun c hc => ?_⟩ hmissed
    rw [hreports] at hc
    cases hc
  | closed c hpoint hreports htrue hfalse =>
    constructor
    · rintro ⟨-, hcertified⟩
      rw [← Bool.not_eq_true]
      intro hmissed
      obtain ⟨hok, hdirectory⟩ := hfalse hmissed
      exact hdirectory (hcertified c (by simp [hreports]) hok).directory
    · refine fun hmissed => ⟨by simp [hreports], fun c' hc' => ?_⟩
      rw [hreports, List.mem_singleton] at hc'
      subst hc'
      exact htrue hmissed

/-- A virtual machine whose disk could not be made, when the guard removes its files. -/
def discarded : Custody where
  guard :=
    { serverMonitor := 0, ownerMonitor := 1, ledgerMonitor := none
      directory := some "sower-vm-1-1"
      options := { executionId := 0, owner := 1, command := none, managed := false }
      bootTimer := true
      point := .removing (.tagged "scratch_startup" (.atom "enospc")) ["scratch.ext4"] }
  belongings := { directory := some ["scratch.ext4"] }

theorem discarded_reachable : discarded.Reachable := by
  have hstart := Custody.Reachable.start 0 1 none
    { executionId := 0, owner := 1, command := none, managed := false }
  have hregistered := hstart.step _ _ (.registered _ true rfl)
  have hallocated := hregistered.step _ _ (.allocated _ "sower-vm-1-1" rfl)
  have hfiles := hallocated.step _ _ (.files _ [] (some ["scratch.ext4"]) rfl)
  have hprepared := hfiles.step _ _ (.prepared _ (.error (.atom "enospc")) rfl)
  have hrevoked := hprepared.step _ _ (.revoked _ _ _ none rfl fun _ => rfl)
  have hreleased := hrevoked.step _ _ (.released _ _ none rfl fun _ => rfl)
  exact hreleased.step _ _ (.listed _ _ ["scratch.ext4"] rfl rfl)

theorem certified_discarded :
    ∃ w : Custody, w.reports ≠ [] ∧ w.reports.length ≤ 1 ∧ w.Certified := by
  have hremoved := discarded_reachable.step _ _
    (.removed _ _ "scratch.ext4" [] ["scratch.ext4"] rfl rfl (by decide))
  have hgone := hremoved.step _ _ (.directoryRemoved _ _ rfl rfl)
  exact ⟨_, List.cons_ne_nil _ _, (Custody.certified_iff hgone).mpr rfl⟩

/-- The disk vanishes while the guard removes the files, and the directory stays. -/
theorem missed_file_certified :
    ¬ ∀ w : Custody, w.Reachable → w.reports.length ≤ 1 ∧ w.Certified := by
  intro hall
  have hfiles := discarded_reachable.step _ _ (.files _ ["scratch.ext4"] (some []) rfl)
  have hmissing := hfiles.step _ _
    (.missing _ _ "scratch.ext4" [] [] rfl rfl (by decide))
  have hcleared := (hall _ hmissing).2 _ List.mem_cons_self rfl
  cases hcleared.directory

end Runs

end Sower.Vm
