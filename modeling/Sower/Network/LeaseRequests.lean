import Sower.Network.LeaseOperations

/-!
# Requests keep the discipline

A request reads its lease behind the lock of the execution before it acts on it:
a lease that was read without that lock may have changed since, but its token
still names the same execution. What a request does with its lease, its caller
is entitled to do.
-/

namespace Sower.Network

open Process Interleaving Contract

variable {η α : Type} {env : Environment η} {initial : List Lease} {i : ℕ} {me : Session}

section Loading

variable {P : Site η → Prop} {name : LockName}

theorem Lasting.and {P Q : Site η → Prop} (hP : Lasting env initial i me name P)
    (hQ : Firm env initial i Q)
    (hunlocked : ∀ w, Q w → Q ⟨w.store.setLock name none, w.log⟩) :
    Lasting env initial i me name fun w => P w ∧ Q w :=
  ⟨firm_and hP.firm hQ, fun w hw => hP.mine w hw.1,
    fun w hw => ⟨hP.unlocked w hw.1, hunlocked w hw.2⟩⟩

/-- A lease that is loaded is known from then on. -/
theorem safe_load_known {instanceName token : String} (hP : Lasting env initial i me .global P) :
    Keeps env initial i (withGlobal env me (load env instanceName token)) P
      (fun found w => P w ∧ ∀ l, found = some l →
        Known initial l w ∧ l.instanceName = instanceName ∧ l.token = token)
      (fun w => Mine i w me.id) := by
  have hfound : ∀ found : Option Lease, Lasting env initial i me .global fun w =>
      P w ∧ ∀ l, found = some l →
        Known initial l w ∧ l.instanceName = instanceName ∧ l.token = token := by
    intro found
    refine hP.and (firm_forall fun l => firm_imp (firm_and (firm_known l) (firm_const _))) ?_
    exact fun _ hw => hw
  refine safe_withLock hP.firm hP.mine hP.mine hfound lasting_mine ?_
  have hbase : Firm env initial i fun w => P w ∧ HoldsLock i w .global :=
    firm_and hP.firm (firm_holdsLock _)
  refine (safe_load hbase (fun l => firm_and hbase (firm_known l)) (firm_mine me.id)
    (fun w hw => hP.mine w hw.1) fun w l hinv _ hl _ _ => known_of_mem hinv hl).conseq
    (fun _ hw => hw) (fun _ _ hw => ⟨hw.1.1, hw.2⟩) fun _ hw => hw

/-- A lease that is loaded behind the lock of its execution stays as it was loaded. -/
theorem safe_load_locked {lease : Lease} (hP : Lasting env initial i me .global P)
    (hknown : ∀ w, P w → Known initial lease w)
    (hlock : ∀ w, P w → HoldsLock i w (lease.lock env)) :
    Keeps env initial i (withGlobal env me (load env lease.instanceName lease.token)) P
      (fun found w => P w ∧ ∀ l, found = some l → l.core = lease.core ∧ l ∈ w.store.files)
      (fun w => Mine i w me.id) := by
  have hsame : ∀ l, Firm env initial i fun w =>
      P w ∧ l.core = lease.core ∧ l ∈ w.store.files := by
    rintro l w w' hrely ⟨hw, hcore, hmem⟩
    have hheld : HoldsLock i w (l.lock env) := @lock_of_core η env _ _ hcore ▸ hlock w hw
    exact ⟨hP.firm hrely hw, hcore, (firm_file l hrely ⟨hheld, hmem⟩).2⟩
  have hfound : ∀ found : Option Lease, Lasting env initial i me .global fun w =>
      P w ∧ ∀ l, found = some l → l.core = lease.core ∧ l ∈ w.store.files := by
    intro found
    refine ⟨?_, fun w hw => hP.mine w hw.1, fun w hw => ⟨hP.unlocked w hw.1, hw.2⟩⟩
    rintro w w' hrely ⟨hw, hall⟩
    exact ⟨hP.firm hrely hw, fun l hl => (hsame l hrely ⟨hw, hall l hl⟩).2⟩
  refine safe_withLock hP.firm hP.mine hP.mine hfound lasting_mine ?_
  refine (@safe_load η env initial i (fun w => P w ∧ HoldsLock i w .global) _
    (fun l w => l.core = lease.core ∧ l ∈ w.store.files) _ _
    (firm_and hP.firm (firm_holdsLock _)) (fun l => ?_) (firm_mine me.id)
    (fun w hw => hP.mine w hw.1) fun w l _ hw hl _ htoken => ?_).conseq
    (fun _ hw => hw) (fun found w hw => ⟨hw.1.1, fun l hl => (hw.2 l hl).1⟩) fun _ hw => hw
  · rintro w w' hrely ⟨⟨hw, hglobal⟩, hl⟩
    exact ⟨⟨hP.firm hrely hw, firm_holdsLock _ hrely hglobal⟩, (hsame l hrely ⟨hw, hl⟩).2⟩
  · exact ⟨(hknown w hw.1).2 l hl htoken, hl⟩

end Loading

section Provision

variable {owner : Owner} {execution : String} {lease : Lease}

/-- A lease that is active for its owner goes back to it. -/
theorem safe_output (hphase : lease.phase = .active) (howned : lease.OwnedBy owner) :
    Keeps env initial i (output owner lease)
      (fun w => Mine i w me.id ∧ lease ∈ w.store.files ∧ Requests i owner w)
      (fun _ w => Mine i w me.id) (fun w => Mine i w me.id) := by
  refine Safe.bind (Safe.atomic (fun w hinv hw => ?_)
    (fun _ => firm_mine me.id) (firm_mine me.id)) fun _ => .pure fun _ hw => hw
  obtain ⟨hmine, hmem, s, req, hopened, -⟩ := hw
  refine ⟨⟨hinv, hinv.announce (by simp) (by simp) (by simp), .announce hinv (by simp) (by simp) ?_⟩,
    mine_mono (log_announced _) hmine⟩
  intro owner' l hl
  cases hl
  exact ⟨hmem, hphase, howned, s, req, hopened⟩

theorem lasting_applying : Lasting env initial i me .global (Applying env i me owner execution) :=
  ⟨firm_applying, fun _ hw => hw.mine, fun _ hw =>
    ⟨hw.mine, holdsLock_setLock (executionLock_ne_global _) hw.lock, hw.requests⟩⟩

/-- The lease that an execution already has is found, and stays as it was read. -/
theorem safe_existing : Keeps env initial i (withGlobal env me do
    let leases ← recordsIn env owner.instanceName
    pure (leases.find? (·.executionId == execution))) (Applying env i me owner execution)
    (fun found w => Applying env i me owner execution w ∧ ∀ l, found = some l →
      l ∈ w.store.files) (fun w => Mine i w me.id) := by
  have hread : ∀ l : Lease, Firm env initial i fun w => Applying env i me owner execution w ∧
      l.instanceName = owner.instanceName ∧ (l.executionId = execution → l ∈ w.store.files) := by
    rintro l w w' hrely ⟨hw, hinstance, hmem⟩
    refine ⟨firm_applying hrely hw, hinstance, fun hexecution => ?_⟩
    have hlock : HoldsLock i w (l.lock env) := by
      rw [Lease.lock, hinstance, hexecution]
      exact hw.lock
    exact (firm_file l hrely ⟨hlock, hmem hexecution⟩).2
  have hfound : ∀ found : Option Lease, Lasting env initial i me .global fun w =>
      Applying env i me owner execution w ∧ ∀ l, found = some l →
        l.instanceName = owner.instanceName ∧ l.executionId = execution ∧ l ∈ w.store.files := by
    intro found
    refine ⟨?_, fun _ hw => hw.1.mine,
      fun w hw => ⟨(@lasting_applying η env initial i me _ _).unlocked w hw.1, hw.2⟩⟩
    rintro w w' hrely ⟨hw, hall⟩
    refine ⟨firm_applying hrely hw, fun l hl => ?_⟩
    obtain ⟨hinstance, hexecution, hmem⟩ := hall l hl
    exact ⟨hinstance, hexecution, (hread l hrely ⟨hw, hinstance, fun _ => hmem⟩).2.2 hexecution⟩
  refine Safe.conseq (safe_withLock firm_applying (fun _ hw => hw.mine) (fun _ hw => hw.mine)
    hfound lasting_mine ?_) (fun _ hw => hw)
    (fun _ _ hw => ⟨hw.1, fun l hl => (hw.2 l hl).2.2⟩) fun _ hw => hw
  have hbase : Firm env initial i fun w =>
      Applying env i me owner execution w ∧ HoldsLock i w .global :=
    firm_and firm_applying (firm_holdsLock _)
  refine Safe.bind (@safe_recordsIn η env initial i _ _
    (fun l w => l.instanceName = owner.instanceName ∧ (l.executionId = execution →
      l ∈ w.store.files)) (fun _ _ => True) _ (fun _ => firm_and hbase (firm_const _))
    (fun l => ?_) (firm_mine me.id) (fun _ hw => hw.1.mine) (fun _ _ _ _ => trivial)
    fun _ l _ _ hl hinstance => ⟨hinstance, fun _ => hl⟩) fun leases => .pure ?_
  · rintro w w' hrely ⟨hw, hl⟩
    exact ⟨hbase hrely hw, (hread l hrely ⟨hw.1, hl⟩).2⟩
  · rintro w ⟨hw, -, hleases⟩
    refine ⟨hw.1, fun l hl => ?_⟩
    obtain ⟨-, hinstance, hmem⟩ := hleases l (List.mem_of_find?_eq_some hl)
    have hexecution : l.executionId = execution := by simpa using List.find?_some hl
    exact ⟨hinstance, hexecution, hmem hexecution⟩

/-- Provision returns a lease that the journal has as active for the owner. -/
theorem safe_provision (hdistinct : DrawsDistinct env initial)
    (hunit : owner.instanceName ∈ env.policy.gardenUnits) :
    Keeps env initial i (provision env me owner execution)
      (fun w => Mine i w me.id ∧ Requests i owner w) (fun _ w => Mine i w me.id)
      (fun w => Mine i w me.id) := by
  have hstart : Firm env initial i fun w => Mine i w me.id ∧ Requests i owner w :=
    firm_and (firm_mine _) (firm_requests _)
  unfold provision
  refine Safe.bind ((tame_lift _).keep hstart fun _ hw => hw.1) fun _ => ?_
  refine safe_withLock hstart (fun _ hw => hw.1) (fun _ hw => hw.1) (fun _ => lasting_mine)
    lasting_mine ?_
  refine Safe.bind (safe_existing.conseq (fun w hw => ⟨hw.1.1, hw.2, hw.1.2⟩) (fun _ _ hw => hw)
    fun _ hw => hw) fun found => ?_
  cases found with
  | some lease =>
    refine Safe.bind (Safe.outcome fun _ hw => hw.1.mine) fun _ => .assume fun howner => ?_
    refine Safe.bind (safe_require fun _ hw => hw.1.mine) fun _ => .assume fun hphase => ?_
    exact (safe_output (beq_iff_eq.mp hphase) (requireOwner_ok.mp howner)).conseq
      (fun w hw => ⟨hw.1.mine, hw.2 lease rfl, hw.1.requests⟩) (fun _ _ hw => hw) fun _ hw => hw
  | none =>
    have hrequests : ∀ w w', (leaseContract env initial).guar i w w' → Requests i owner w →
        Requests i owner w' := by
      rintro w w' ⟨-, -, hstep⟩ ⟨s, req, hopened, haction⟩
      exact ⟨s, req, hstep.log_mono hopened, haction⟩
    have hreserve := (@safe_reserve η env initial i me owner execution hdistinct hunit).frame
      (firm_requests owner) hrequests
    have hreserved : Keeps env initial i (reserve env me owner execution)
        (Applying env i me owner execution) (fun lease w => (Building env i me lease w ∧
          Requests i owner w) ∧ lease.OwnedBy owner) (fun w => Mine i w me.id) :=
      hreserve.conseq (fun _ hw => ⟨hw, hw.requests⟩) (fun _ _ hw => ⟨⟨hw.1.1, hw.2⟩, hw.1.2⟩)
        fun _ hw => hw.1
    refine Safe.bind (hreserved.conseq (fun _ hw => hw.1) (fun _ _ hw => hw) fun _ hw => hw)
      fun lease => .assume fun howned => ?_
    refine Safe.bind ((safe_setup.frame (firm_requests owner) hrequests).conseq (fun _ hw => hw)
      (fun _ _ hw => hw) fun _ hw => hw.1.mine) fun out => ?_
    obtain ⟨out, outcome⟩ := out
    cases outcome with
    | ok _ =>
      refine Sat.conseq (Safe.assume
        fun hout : out.core = lease.core ∧ out.phase = .active => safe_output hout.2 (ownedBy_of_core hout.1 howned)) ?_ fun _ _ hw => hw
      rintro w ⟨⟨hbuilding, hcore, hdone⟩, hrequested⟩
      obtain ⟨hmem, hactive⟩ := hdone rfl
      exact ⟨⟨hbuilding.mine, hmem, hrequested⟩, hcore, hactive⟩
    | error message =>
      refine Safe.bind (((@safe_revokeAndRelease η env initial i me out).conseq
        (fun w hw => (hw.1.1.of_core hw.1.2.1).charge) (fun _ _ hw => hw)
        fun _ hw => hw).attempt) fun ending => .throw fun w hw => ?_
      cases ending with
      | ok _ => exact hw
      | error _ => exact hw

end Provision

section Operate

variable {owner : Owner} {lease : Lease}

/-- The owner is in charge of its lease behind the lock of the execution. -/
theorem charge_of_owned {w : Site η} (hmine : Mine i w me.id) (hrequests : Requests i owner w)
    (hlock : HoldsLock i w (lease.lock env)) (hmem : lease ∈ w.store.files)
    (howned : lease.OwnedBy owner) : Charge env i me lease w :=
  ⟨hmine, hlock, lease, hmem, rfl, fun _ _ => entitles_of_requests hrequests howned⟩

/-- A request to revoke or to release acts on a lease of its peer. -/
theorem safe_operate (token : String) (releasing : Bool) :
    Keeps env initial i (operate env me owner token releasing)
      (fun w => Mine i w me.id ∧ Requests i owner w) (fun _ w => Mine i w me.id)
      (fun w => Mine i w me.id) := by
  have hstart : ∀ name, Lasting env initial i me name fun w =>
      Mine i w me.id ∧ Requests i owner w :=
    fun _ => lasting_mine.and (firm_requests owner) fun _ hw => hw
  unfold operate
  refine Safe.bind (safe_load_known (hstart _)) fun found => ?_
  cases found with
  | none => exact .pure fun _ hw => hw.1.1
  | some lease =>
    refine Safe.bind (Safe.outcome fun _ hw => hw.1.1) fun _ => ?_
    -- What follows the lock reloads the lease under the token that names it.
    suffices hlocked : lease.instanceName = owner.instanceName ∧ lease.token = token →
        Keeps env initial i _
          (fun w => (Mine i w me.id ∧ Requests i owner w) ∧ Known initial lease w)
          (fun _ w => Mine i w me.id) (fun w => Mine i w me.id) by
      refine (Safe.assume hlocked).conseq (fun w hw => ?_) (fun _ _ hw => hw) fun _ hw => hw
      obtain ⟨hknown, hnames⟩ := hw.1.2 lease rfl
      exact ⟨⟨hw.1.1, hknown⟩, hnames⟩
    · rintro ⟨hinstance, rfl⟩
      have hpre : ∀ name, Lasting env initial i me name fun w =>
          (Mine i w me.id ∧ Requests i owner w) ∧ Known initial lease w :=
        fun name => (hstart name).and (firm_known lease) fun _ hw => hw
      refine safe_withLock (hpre .global).firm (fun _ hw => hw.1.1) (fun _ hw => hw.1.1)
        (fun _ => lasting_mine) lasting_mine ?_
      rw [← hinstance]
      have hheld : Lasting env initial i me .global fun w =>
          ((Mine i w me.id ∧ Requests i owner w) ∧ Known initial lease w) ∧
            HoldsLock i w (lease.lock env) :=
        (hpre .global).and (firm_holdsLock _)
          fun _ hw => holdsLock_setLock (executionLock_ne_global _) hw
      refine Safe.bind (safe_load_locked hheld (fun _ hw => hw.1.2) fun _ hw => hw.2)
        fun found => ?_
      cases found with
      | none => exact .pure fun _ hw => hw.1.1.1.1
      | some l =>
        refine Safe.bind (Safe.outcome fun _ hw => hw.1.1.1.1) fun _ => .assume fun howner => ?_
        have hcharge : ∀ w, ((((Mine i w me.id ∧ Requests i owner w) ∧ Known initial lease w) ∧
            HoldsLock i w (lease.lock env)) ∧ ∀ l', some l = some l' →
              l'.core = lease.core ∧ l' ∈ w.store.files) → Charge env i me l w := by
          rintro w ⟨⟨⟨⟨hmine, hrequests⟩, -⟩, hlock⟩, hall⟩
          obtain ⟨hcore, hmem⟩ := hall l rfl
          exact charge_of_owned hmine hrequests (@lock_of_core η env _ _ hcore ▸ hlock) hmem
            (requireOwner_ok.mp howner)
        split
        · exact (Safe.bind ((tame_require _ _).keep firm_charge fun _ hw => hw.mine)
            fun _ => safe_revokeAndRelease).conseq hcharge (fun _ _ hw => hw) fun _ hw => hw
        · exact (Safe.bind (safe_revoke.conseq (fun _ hw => hw) (fun _ _ hw => hw)
            fun _ hw => hw.mine) fun out => Safe.lift (fun _ _ _ hw => hw.mine)
            fun _ hw => hw.mine).conseq hcharge (fun _ _ hw => hw) fun _ hw => hw

end Operate

section Cleanup

variable {instanceName : String} {rootHook : Bool} {lease : Lease}

/-- A cleanup that spares no live owner runs for root. -/
def CleansFor (i : ℕ) (rootHook : Bool) (w : Site η) : Prop :=
  rootHook = true → ∃ s, (i, .opened s .rootHook) ∈ w.log

theorem firm_cleansFor : Firm env initial i (CleansFor i rootHook) :=
  firm_imp (firm_exists fun _ => firm_logged _)

/-- An owner that has exited is not found alive again. -/
def Gone (lease : Lease) (w : Site η) : Prop :=
  ¬ Alive w.store lease ∧ lease.ownerStarttime < w.store.clock

theorem firm_gone : Firm env initial i (Gone lease) := by
  rintro w w' hrely ⟨hgone, hstart⟩
  refine ⟨fun halive => hgone ?_, firm_started _ hrely hstart⟩
  obtain ⟨-, -, j, -, hstep⟩ := hrely
  exact hstep.alive_of_alive hstart halive

/-- An owner that is not found alive has exited. -/
theorem safe_ownerGone {P : Site η → Prop} (hP : Firm env initial i P)
    (hmem : ∀ w, P w → lease ∈ w.store.files) :
    Keeps env initial i (Fallible.attempt (processStarttime lease.ownerPid)) P
      (fun start w => P w ∧ (isAlive start lease.ownerStarttime = false → Gone lease w)) P := by
  have hread : Keeps env initial i (processStarttime lease.ownerPid) P
      (fun actual w => P w ∧ ((actual == lease.ownerStarttime) = false → Gone lease w))
      (fun w => P w ∧ Gone lease w) := by
    refine safe_quiet (fun m => ?_) (fun w hinv hw => ?_)
      (fun actual => firm_and hP (firm_imp firm_gone)) (firm_and hP firm_gone)
    · cases m.processes lease.ownerPid with
      | none => exact ⟨⟨⟨rfl, rfl, rfl, rfl, le_rfl⟩, rfl⟩, rfl⟩
      | some info => exact ⟨⟨⟨rfl, rfl, rfl, rfl, le_rfl⟩, rfl⟩, rfl⟩
    · have hpast := hinv.recorded lease (hmem w hw)
      cases hentry : w.store.processes lease.ownerPid with
      | none =>
        refine ⟨hw, ?_, hpast⟩
        rintro ⟨info, hinfo, -⟩
        rw [hentry] at hinfo
        cases hinfo
      | some info =>
        refine ⟨hw, fun hother => ⟨?_, hpast⟩⟩
        rintro ⟨info', hinfo, hstart⟩
        rw [hentry] at hinfo
        cases hinfo
        exact absurd hstart (by simpa using hother)
  refine hread.attempt.conseq (fun _ hw => hw) ?_ fun _ hw => hw
  intro outcome w hw
  cases outcome with
  | ok actual => exact hw
  | error _ => exact ⟨hw.1, fun _ => hw.2⟩

/-- One round of cleanup behind the lock of the execution: an active lease of a live owner
is taken down for root only. -/
theorem safe_cleanupLocked (hinstance : lease.instanceName = instanceName) :
    Keeps env initial i (cleanupLocked env me instanceName rootHook lease.token)
      (fun w => ((Mine i w me.id ∧ CleansFor i rootHook w) ∧ Known initial lease w) ∧
        HoldsLock i w (lease.lock env))
      (fun _ w => Mine i w me.id) (fun w => Mine i w me.id) := by
  have hheld : Lasting env initial i me .global fun w =>
      ((Mine i w me.id ∧ CleansFor i rootHook w) ∧ Known initial lease w) ∧
        HoldsLock i w (lease.lock env) :=
    ((lasting_mine.and firm_cleansFor fun _ hw => hw).and (firm_known lease) fun _ hw => hw).and
      (firm_holdsLock _) fun _ hw => holdsLock_setLock (executionLock_ne_global _) hw
  subst hinstance
  unfold cleanupLocked
  refine Safe.bind (safe_load_locked hheld (fun _ hw => hw.1.2) fun _ hw => hw.2) fun found => ?_
  cases found with
  | none => exact .pure fun _ hw => hw.1.1.1.1
  | some l =>
    have hfirm : Firm env initial i fun w => (Mine i w me.id ∧ CleansFor i rootHook w) ∧
        HoldsLock i w (l.lock env) ∧ l ∈ w.store.files :=
      firm_and (firm_and (firm_mine _) firm_cleansFor) (firm_file l)
    refine Safe.bind ((safe_ownerGone hfirm fun _ hw => hw.2.2).conseq (fun w hw => ?_)
      (fun _ _ hw => hw) fun _ hw => hw.1.1) fun start => ?_
    · obtain ⟨hcore, hmem⟩ := hw.2 l rfl
      exact ⟨hw.1.1.1, @lock_of_core η env _ _ hcore ▸ hw.1.2, hmem⟩
    · split
      · exact .pure fun _ hw => hw.1.1.1
      · rename_i hspare
        have hcharge : ∀ w, (((Mine i w me.id ∧ CleansFor i rootHook w) ∧
            HoldsLock i w (l.lock env) ∧ l ∈ w.store.files) ∧
            (isAlive start l.ownerStarttime = false → Gone l w)) → Charge env i me l w := by
          rintro w ⟨⟨⟨hmine, hcleans⟩, hlock, hmem⟩, hgone⟩
          refine ⟨hmine, hlock, l, hmem, rfl, fun hactive halive => ?_⟩
          cases rootHook with
          | true =>
            obtain ⟨s, hopened⟩ := hcleans rfl
            exact ⟨s, .rootHook, hopened, trivial⟩
          | false =>
            rw [hactive] at hspare
            have hdead : isAlive start l.ownerStarttime = false := by simpa using hspare
            exact absurd halive (hgone hdead).1
        refine Safe.bind ((safe_revokeAndRelease.attempt).conseq hcharge (fun _ _ hw => hw)
          fun _ hw => hw) fun outcome => ?_
        cases outcome with
        | ok _ => exact .pure fun _ hw => hw
        | error message => exact .pure fun _ hw => hw

/-- One round of cleanup, if the lock of the execution is free. -/
theorem safe_cleanupLease (hinstance : lease.instanceName = instanceName) :
    Keeps env initial i (cleanupLease env me instanceName rootHook lease)
      (fun w => (Mine i w me.id ∧ CleansFor i rootHook w) ∧ Known initial lease w)
      (fun _ w => Mine i w me.id) (fun w => Mine i w me.id) := by
  have hpre : Firm env initial i fun w =>
      (Mine i w me.id ∧ CleansFor i rootHook w) ∧ Known initial lease w :=
    firm_and (firm_and (firm_mine _) firm_cleansFor) (firm_known lease)
  unfold cleanupLease
  refine Safe.bind ((safe_tryLock hpre fun _ hw => hw.1.1).conseq (fun _ hw => hw)
    (fun _ _ hw => hw) fun _ hw => hw.1.1) fun taken => ?_
  cases taken with
  | false => exact .pure fun _ hw => hw.1.1.1
  | true =>
    refine Safe.conseq (safe_holding (fun _ => lasting_mine) lasting_mine
      (safe_cleanupLocked hinstance)) (fun w hw => ⟨hw.1, ?_⟩) (fun _ _ hw => hw) fun _ hw => hw
    rw [Lease.lock, hinstance]
    exact hw.2 rfl

/-- The rounds of cleanup over leases that were listed before. -/
theorem safe_cleanupLeases (leases : List Lease)
    (hinstance : ∀ l ∈ leases, l.instanceName = instanceName) :
    Keeps env initial i (cleanupLeases env me instanceName rootHook leases)
      (fun w => (Mine i w me.id ∧ CleansFor i rootHook w) ∧ ∀ l ∈ leases, Known initial l w)
      (fun _ w => Mine i w me.id) (fun w => Mine i w me.id) := by
  induction leases with
  | nil => exact .pure fun _ hw => hw.1.1
  | cons lease rest ih =>
    obtain ⟨hhere, hrest⟩ := List.forall_mem_cons.mp hinstance
    have hstable : Firm env initial i fun w =>
        CleansFor i rootHook w ∧ ∀ l ∈ rest, Known initial l w :=
      firm_and firm_cleansFor (firm_forall fun l => firm_imp (firm_known l))
    have hown : ∀ w w', (leaseContract env initial).guar i w w' →
        (CleansFor i rootHook w ∧ ∀ l ∈ rest, Known initial l w) →
        CleansFor i rootHook w' ∧ ∀ l ∈ rest, Known initial l w' := by
      rintro w w' ⟨-, -, hstep⟩ ⟨hcleans, hknown⟩
      refine ⟨fun hroot => ?_, fun l hl => hstep.known (hknown l hl)⟩
      obtain ⟨s, hopened⟩ := hcleans hroot
      exact ⟨s, hstep.log_mono hopened⟩
    have hround : Keeps env initial i (cleanupLease env me instanceName rootHook lease)
        (fun w => (Mine i w me.id ∧ CleansFor i rootHook w) ∧
          ∀ l ∈ lease :: rest, Known initial l w)
        (fun _ w => (Mine i w me.id ∧ CleansFor i rootHook w) ∧ ∀ l ∈ rest, Known initial l w)
        (fun w => Mine i w me.id) := by
      refine ((safe_cleanupLease hhere).frame hstable hown).conseq (fun w hw => ?_)
        (fun _ _ hw => ⟨⟨hw.1, hw.2.1⟩, hw.2.2⟩) fun _ hw => hw.1
      obtain ⟨hknown, hothers⟩ := List.forall_mem_cons.mp hw.2
      exact ⟨⟨hw.1, hknown⟩, hw.1.2, hothers⟩
    exact hround.bind fun failures => Safe.bind (ih hrest) fun others => .pure fun _ hw => hw

/-- Cleanup takes down leases of exited owners, and for root those of live ones too. -/
theorem safe_cleanup : Keeps env initial i (cleanup env me instanceName rootHook)
    (fun w => Mine i w me.id ∧ CleansFor i rootHook w) (fun _ w => Mine i w me.id)
    (fun w => Mine i w me.id) := by
  have hstart : ∀ name, Lasting env initial i me name fun w =>
      Mine i w me.id ∧ CleansFor i rootHook w :=
    fun _ => lasting_mine.and firm_cleansFor fun _ hw => hw
  have hlisted : ∀ leases : List Lease, Lasting env initial i me .global fun w =>
      (Mine i w me.id ∧ CleansFor i rootHook w) ∧
        ∀ l ∈ leases, l.instanceName = instanceName ∧ Known initial l w :=
    fun leases => (hstart _).and (firm_forall fun l =>
      firm_imp (firm_and (firm_const _) (firm_known l))) fun _ hw => hw
  have hbase : Firm env initial i fun w =>
      (Mine i w me.id ∧ CleansFor i rootHook w) ∧ HoldsLock i w .global :=
    firm_and (hstart .global).firm (firm_holdsLock _)
  unfold cleanup
  refine Safe.bind (safe_withLock (hstart .global).firm (fun _ hw => hw.1) (fun _ hw => hw.1)
    hlisted lasting_mine ((safe_recordsIn (fun _ => firm_and hbase (firm_const True))
      (fun l => firm_and hbase (firm_known l)) (firm_mine me.id) (fun _ hw => hw.1.1)
      (fun _ _ _ _ => trivial) fun _ _ hinv _ hl _ => known_of_mem hinv hl).conseq
      (fun _ hw => hw) (fun _ _ hw => ⟨hw.1.1, hw.2.2⟩) fun _ hw => hw)) fun leases => ?_
  have hrounds : (∀ l ∈ leases, l.instanceName = instanceName) →
      Keeps env initial i (do
        let failures ← cleanupLeases env me instanceName rootHook leases
        require failures.isEmpty
          ("network cleanup incomplete: " ++ String.intercalate "; " failures))
        (fun w => (Mine i w me.id ∧ CleansFor i rootHook w) ∧ ∀ l ∈ leases, Known initial l w)
        (fun _ w => Mine i w me.id) (fun w => Mine i w me.id) :=
    fun hinstance => Safe.bind (safe_cleanupLeases leases hinstance) fun failures =>
      (tame_require _ _).safe (firm_mine me.id)
  refine (Safe.assume hrounds).conseq (fun w hw => ?_) (fun _ _ hw => hw) fun _ hw => hw
  exact ⟨⟨hw.1, fun l hl => (hw.2 l hl).2⟩, fun l hl => (hw.2 l hl).1⟩

end Cleanup

section Processes

variable {owner : Owner} {req : NetworkRequest}

theorem firm_opened (caller : Caller) :
    Firm env initial i fun w => (i, .opened me.id caller) ∈ w.log := firm_logged _

/-- Serving a request keeps the discipline. -/
theorem safe_request (hdistinct : DrawsDistinct env initial) :
    Keeps env initial i (request env me owner req)
      (fun w => (i, .opened me.id (.request owner req)) ∈ w.log) (fun _ w => Mine i w me.id)
      (fun w => Mine i w me.id) := by
  have hmine : ∀ w : Site η, (i, .opened me.id (.request owner req)) ∈ w.log →
      Mine i w me.id := fun _ hw => ⟨_, hw⟩
  have hfield : ∀ (value : Option String) (message : String), Keeps env initial i
      (field value message) (fun w => (i, .opened me.id (.request owner req)) ∈ w.log)
      (fun found w => (i, .opened me.id (.request owner req)) ∈ w.log ∧ value = some found)
      (fun w => Mine i w me.id) := by
    intro value message
    cases value with
    | none => exact .throw hmine
    | some found => exact .pure fun _ hw => ⟨hw, rfl⟩
  have hrequests : ∀ {action : String}, req.networkAction = some action → action ≠ "cleanup" →
      ∀ w : Site η, (i, .opened me.id (.request owner req)) ∈ w.log →
        Mine i w me.id ∧ Requests i owner w := by
    intro action haction hne w hw
    refine ⟨hmine w hw, me.id, req, hw, ?_⟩
    rw [haction]
    simpa using hne
  unfold request
  refine Safe.bind (safe_require hmine) fun _ => .assume fun hunit => ?_
  have hunit : owner.instanceName ∈ env.policy.gardenUnits := List.contains_iff_mem.mp hunit
  refine Safe.bind (hfield _ _) fun action => .assume fun haction => ?_
  have hkeep : ∀ {γ : Type} {p : Op η γ}, Tamely env initial p → Keeps env initial i p
      (fun w => (i, .opened me.id (.request owner req)) ∈ w.log)
      (fun _ w => (i, .opened me.id (.request owner req)) ∈ w.log) (fun w => Mine i w me.id) :=
    fun hp => hp.keep (firm_opened _) hmine
  split
  · rename_i hprovision
    refine Safe.bind (hkeep (tame_require _ _)) fun _ => Safe.bind (hfield _ _) fun execution =>
      .assume fun _ => Safe.bind ((safe_provision hdistinct hunit).conseq
        (hrequests haction (by simp [hprovision])) (fun _ _ hw => hw) fun _ hw => hw)
      fun lease => .pure fun _ hw => hw
  · split
    · rename_i hoperate
      refine Safe.bind (hkeep (tame_require _ _)) fun _ => Safe.bind (hfield _ _) fun token =>
        .assume fun _ => Safe.bind ((safe_operate token _).conseq
          (hrequests haction ?_) (fun _ _ hw => hw) fun _ hw => hw) fun _ => .pure fun _ hw => hw
      rcases hoperate with h | h <;> simp [h]
    · split
      · exact Safe.bind (hkeep (tame_require _ _)) fun _ => Safe.bind (safe_cleanup.conseq
          (fun w hw => ⟨hmine w hw, fun h => by cases h⟩) (fun _ _ hw => hw) fun _ hw => hw)
          fun _ => .pure fun _ hw => hw
      · exact .throw hmine

/-- The root hook keeps the discipline. -/
theorem safe_rootCleanup (instanceName : String) :
    Keeps env initial i (rootCleanup env me instanceName)
      (fun w => (i, .opened me.id .rootHook) ∈ w.log) (fun _ w => Mine i w me.id)
      (fun w => Mine i w me.id) :=
  Safe.bind ((tame_require _ _).keep (firm_opened _) fun _ hw => ⟨_, hw⟩) fun _ =>
    safe_cleanup.conseq (fun _ hw => ⟨⟨_, hw⟩, fun _ => ⟨_, hw⟩⟩) (fun _ _ hw => hw)
      fun _ hw => hw

/-- A process opens its session before it logs anything else. -/
theorem sat_openSession (caller : Caller) (patience : ℕ) :
    Keeps env initial i (openSession caller patience) (Silent i)
      (fun me w => (i, .opened me.id caller) ∈ w.log) (fun _ => False) := by
  refine .atomic (fun w hinv hw => ?_) (fun _ => firm_logged _) (firm_const False)
  obtain ⟨hinv', hstep⟩ := open_step hinv hw caller
  exact ⟨⟨hinv, hinv', hstep⟩, mem_announced.mpr (Or.inr ⟨rfl, rfl⟩)⟩

/-- What the kernel does when a process has ended is up to that process. -/
theorem dropLocks_step {w : Site η} (hinv : Consistent env initial w) (hmine : Mine i w me.id) :
    (leaseContract env initial).guar i w (w.advance i (dropLocks me)) := by
  rw [advance_of_quiet rfl]
  have hothers : ∀ name s, w.store.locks name = some s → ¬ Mine i w s →
      (if w.store.locks name = some me.id then none else w.store.locks name) = some s := by
    intro name s hs hother
    have hne : s ≠ me.id := fun h => hother (h ▸ hmine)
    simp only [hs, Option.some.injEq, if_neg hne]
  have hheld : ∀ name s,
      (if w.store.locks name = some me.id then none else w.store.locks name) = some s →
        w.store.locks name = some s := by
    intro name s hs
    by_cases hme : w.store.locks name = some me.id
    · rw [if_pos hme] at hs
      cases hs
    · rwa [if_neg hme] at hs
  obtain ⟨hinv', hstep⟩ := unlock_step hinv hothers hheld
  exact ⟨hinv, hinv', hstep⟩

/-- An operation may be killed at any point. -/
theorem sat_interrupted {p : Op η α} {caller : Caller} (limit : Option ℕ)
    (hp : Keeps env initial i p (fun w => (i, .opened me.id caller) ∈ w.log)
      (fun _ w => Mine i w me.id) (fun w => Mine i w me.id)) :
    (leaseContract env initial).Sat i (interrupted limit me p)
      (fun w => (i, .opened me.id caller) ∈ w.log) fun _ _ => True := by
  cases limit with
  | none =>
    refine Sat.bind hp fun outcome => .atomic (fun w hinv hw => ?_) fun _ => firm_const True
    have hmine : Mine i w me.id := by
      cases outcome with
      | ok _ => exact hw
      | error _ => exact hw
    exact ⟨dropLocks_step hinv hmine, trivial⟩
  | some n =>
    refine (Sat.cut hp (firm_mine me.id) ?_ (firm_const True)
      (fun w hinv hmine => ⟨dropLocks_step hinv hmine, trivial⟩) n).conseq
      (fun w hw => ⟨hw, _, hw⟩) fun _ _ _ => trivial
    rintro w w' ⟨-, -, hstep⟩ hmine
    exact mine_mono (fun _ => hstep.log_mono) hmine

/-- A process opens a session for its caller and runs its operation. -/
theorem sat_session {α : Type} {caller : Caller} {patience : ℕ} (limit : Option ℕ)
    {p : Session → Op η α}
    (hp : ∀ me, Keeps env initial i (p me) (fun w => (i, .opened me.id caller) ∈ w.log)
      (fun _ w => Mine i w me.id) (fun w => Mine i w me.id)) :
    (leaseContract env initial).Sat i ((openSession caller patience).run >>= fun opened =>
      match opened with
      | .error _ => pure ()
      | .ok me => interrupted limit me (p me)) (Silent i) fun _ _ => True := by
  refine Sat.bind (sat_openSession caller patience) fun opened => ?_
  cases opened with
  | error _ => exact .done fun _ _ => trivial
  | ok me => exact sat_interrupted limit (hp me)

/-- A change of the process table. -/
theorem sat_processes {f : Machine η → (Machine η × List LeaseEvent) × PUnit}
    (h : ∀ w : Site η, Consistent env initial w → (f w.store).1.2 = [] ∧
      Consistent env initial ⟨(f w.store).1.1, w.log⟩ ∧
        Step env initial i w ⟨(f w.store).1.1, w.log⟩) :
    (leaseContract env initial).Sat i (Proc.atomic f) (Silent i) fun _ _ => True := by
  refine .atomic (fun w hinv _ => ?_) fun _ => firm_const True
  obtain ⟨hlog, hinv', hstep⟩ := h w hinv
  rw [@advance_of_quiet η i (fun m => (f m).1) w hlog]
  exact ⟨⟨hinv, hinv', hstep⟩, trivial⟩

/-- Every process of a host keeps the discipline. -/
theorem sat_onHost (hdistinct : DrawsDistinct env initial) {p : HostProcess η Unit}
    (hp : OnHost env p) (i : ℕ) :
    (leaseContract env initial).Sat i p (Silent i) fun _ _ => True := by
  cases hp with
  | request patience limit peer req =>
    refine Sat.bind (tame_authenticate peer i _ firm_silent) fun outcome => ?_
    cases outcome with
    | error _ => exact .done fun _ _ => trivial
    | ok owner => exact sat_session limit fun me => safe_request hdistinct
  | cleanup patience limit instanceName =>
    exact sat_session limit fun me => safe_rootCleanup instanceName
  | exit pid =>
    refine sat_processes fun w hinv => ⟨rfl, ?_⟩
    exact process_step hinv le_rfl fun info h => by cases h
  | start pid uid cgroup =>
    refine sat_processes fun w hinv => ?_
    cases w.store.processes pid with
    | some info =>
      obtain ⟨hinv', hstep⟩ := quiet_step hinv (m := w.store) ⟨⟨rfl, rfl, rfl, rfl, le_rfl⟩, rfl⟩
      exact ⟨rfl, hinv', hstep i⟩
    | none =>
      refine ⟨rfl, process_step hinv (Nat.le_succ _) fun info h => ?_⟩
      cases h
      exact ⟨Nat.lt_succ_self _, fun hpast => absurd hpast (lt_irrefl _)⟩
  | change pid uid cgroup =>
    refine sat_processes fun w hinv => ?_
    cases hentry : w.store.processes pid with
    | none =>
      obtain ⟨hinv', hstep⟩ := quiet_step hinv (m := w.store) ⟨⟨rfl, rfl, rfl, rfl, le_rfl⟩, rfl⟩
      exact ⟨rfl, hinv', hstep i⟩
    | some old =>
      refine ⟨rfl, process_step hinv le_rfl fun info h => ?_⟩
      cases h
      exact ⟨hinv.started pid old hentry, fun _ => ⟨old, hentry, rfl⟩⟩

end Processes

end Sower.Network
