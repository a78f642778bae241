import Sower.Network.Journal

/-!
# The discipline of the journal

What a step of one process may do to the journal depends on the locks that its
session holds. New leases come and old ones go only behind the global lock, and
a lease changes only behind the lock of its execution. The invariant ties the
journal to what has been logged; in particular a token that has been seen once
never names another lease.
-/

namespace Sower.Network

open Process Interleaving

variable {η : Type}

/-- A machine and what has been logged on it. -/
abbrev Site (η : Type) := World (Machine η) LeaseEvent

section Vocabulary

/-- What no operation ever changes in a lease. -/
def Lease.core (lease : Lease) : Lease := { lease with phase := .reserved, hostMac := none }

/-- Revocation is behind the lease. -/
def Phase.Settled (phase : Phase) : Prop := phase = .revoked ∨ phase = .quarantined

/-- The journal names a lease with this core. -/
def HasCore (m : Machine η) (core : Lease) : Prop := ∃ f ∈ m.files, f.core = core

/-- The token is in the initial journal or has been given to a lease since. -/
def Seen (initial : List Lease) (w : Site η) (token : String) : Prop :=
  token ∈ initial.map Lease.token ∨ ∃ j lease, (j, .created lease) ∈ w.log ∧ lease.token = token

/-- A revocation of the lease with this token has begun. -/
def Revoking (w : Site η) (token : String) : Prop := ∃ j, (j, .revoking token) ∈ w.log

/-- The session belongs to process `i`. -/
def Mine (i : ℕ) (w : Site η) (session : ℕ) : Prop := ∃ caller, (i, .opened session caller) ∈ w.log

/-- A session of process `i` holds the lock. -/
def HoldsLock (i : ℕ) (w : Site η) (name : LockName) : Prop :=
  ∃ session, Mine i w session ∧ w.store.locks name = some session

/-- The lock that covers a lease. -/
def Lease.lock (env : Environment η) (lease : Lease) : LockName :=
  executionLock env lease.instanceName lease.executionId

/-- The recorded owner process is alive. -/
def Alive (m : Machine η) (lease : Lease) : Prop :=
  ∃ info, m.processes lease.ownerPid = some info ∧ info.starttime = lease.ownerStarttime

/-- The caller may act on an active lease of a live owner. -/
def Caller.Entitled (lease : Lease) : Caller → Prop
  | .request owner req => lease.OwnedBy owner ∧ req.networkAction ≠ some "cleanup"
  | .rootHook => True

end Vocabulary

section Core

/-- Leases with one core agree in everything but the phase and the interface address. -/
theorem eq_of_core {a b : Lease} (h : a.core = b.core) :
    a.token = b.token ∧ a.slot = b.slot ∧ a.instanceName = b.instanceName ∧
      a.executionId = b.executionId ∧ a.ownerUid = b.ownerUid ∧ a.ownerPid = b.ownerPid ∧
      a.ownerStarttime = b.ownerStarttime := by
  simp only [Lease.core, Lease.mk.injEq] at h
  tauto

theorem path_of_core {a b : Lease} (h : a.core = b.core) : a.path = b.path := by
  obtain ⟨htoken, _, hinstance, _⟩ := eq_of_core h
  simp only [Lease.path, htoken, hinstance]

theorem lock_of_core {env : Environment η} {a b : Lease} (h : a.core = b.core) :
    a.lock env = b.lock env := by
  obtain ⟨_, _, hinstance, hexecution, _⟩ := eq_of_core h
  simp only [Lease.lock, hinstance, hexecution]

theorem ownedBy_of_core {a b : Lease} {owner : Owner} (h : a.core = b.core)
    (hb : b.OwnedBy owner) : a.OwnedBy owner := by
  obtain ⟨_, _, hinstance, _, huid, hpid, hstart⟩ := eq_of_core h
  simpa only [Lease.OwnedBy, hinstance, huid, hpid, hstart] using hb

theorem entitled_of_core {caller : Caller} {a b : Lease} (h : a.core = b.core)
    (hb : caller.Entitled b) : caller.Entitled a := by
  cases caller with
  | request owner req => exact ⟨ownedBy_of_core h hb.1, hb.2⟩
  | rootHook => trivial

end Core

variable (env : Environment η) (initial : List Lease)

/-- What holds of a site between two steps. -/
structure Consistent (w : Site η) : Prop where
  /-- No two leases share a slot. -/
  slots : (w.store.files.map Lease.slot).Nodup
  /-- No two leases share a token. -/
  tokens : (w.store.files.map Lease.token).Nodup
  /-- No two leases belong to one execution of an instance. -/
  executions : (w.store.files.map fun l => (l.instanceName, l.executionId)).Nodup
  /-- The instances are those of the policy. -/
  units : ∀ l ∈ w.store.files, l.instanceName ∈ env.policy.gardenUnits
  /-- Every token in the journal has been seen. -/
  seen : ∀ l ∈ w.store.files, Seen initial w l.token
  /-- A token that was not there initially was drawn. -/
  drawn : ∀ token, Seen initial w token → token ∈ initial.map Lease.token ∨
    ∃ k < w.store.draws, ∃ random, env.random k = some random ∧ token = tokenOf random
  /-- Only seen leases are revoked. -/
  revoked : ∀ token, Revoking w token → Seen initial w token
  /-- A session belongs to one process and has one caller. -/
  sessions : ∀ i j s c c', (i, .opened s c) ∈ w.log → (j, .opened s c') ∈ w.log → i = j ∧ c = c'
  /-- A process has at most one session. -/
  single : ∀ i s s' c c', (i, .opened s c) ∈ w.log → (i, .opened s' c') ∈ w.log →
    s = s' ∧ c = c'
  /-- Sessions are numbered in the order in which they are opened. -/
  numbered : ∀ i s c, (i, .opened s c) ∈ w.log → s < w.store.sessions
  /-- Only sessions hold locks. -/
  held : ∀ name s, w.store.locks name = some s → ∃ j, Mine j w s
  /-- Recorded owners started in the past. -/
  recorded : ∀ l ∈ w.store.files, l.ownerStarttime < w.store.clock
  /-- Running processes started in the past. -/
  started : ∀ pid info, w.store.processes pid = some info → info.starttime < w.store.clock

/-- What a step of process `i` may do. -/
structure Step (i : ℕ) (w w' : Site η) : Prop where
  /-- It logs under its own number. -/
  log : ∃ es : List LeaseEvent, w'.log = w.log ++ es.map (i, ·)
  /-- It leaves the locks of the others alone. -/
  locks : ∀ name s, w.store.locks name = some s → ¬ Mine i w s → w'.store.locks name = some s
  /-- Leases come and go only behind the global lock. -/
  members : HoldsLock i w .global ∨
    (∀ core, HasCore w'.store core ↔ HasCore w.store core) ∧
      ∀ token, Seen initial w' token → Seen initial w token
  /-- A lease comes, goes and changes only behind the lock of its execution. -/
  covered : ∀ l, HoldsLock i w (l.lock env) ∨ (l ∈ w'.store.files ↔ l ∈ w.store.files)
  /-- A revocation begins only behind the lock of the execution. -/
  revoking : ∀ token, Revoking w' token → Revoking w token ∨
    ∃ l ∈ w.store.files, l.token = token ∧ HoldsLock i w (l.lock env)
  /-- A lease that was not there has a new token. -/
  fresh : ∀ l ∈ w'.store.files, HasCore w.store l.core ∨ ¬ Seen initial w l.token
  /-- A lease that is settled stays settled. -/
  settled : ∀ l ∈ w.store.files, ∀ l' ∈ w'.store.files, l.token = l'.token →
    l.phase.Settled → l'.phase.Settled
  /-- No lease becomes active after its revocation has begun. -/
  activates : ∀ l ∈ w'.store.files, l.phase = .active → l ∈ w.store.files ∨ ¬ Revoking w l.token
  /-- An active lease of a live owner changes only for an entitled caller. -/
  entitled : ∀ l ∈ w.store.files, l.phase = .active → Alive w.store l → l ∉ w'.store.files →
    ∃ s caller, (i, .opened s caller) ∈ w.log ∧ caller.Entitled l
  /-- What is returned is in the journal, active, and owned by the peer that asks. -/
  returned : ∀ owner l, (i, .provisioned owner l) ∈ w'.log → (i, .provisioned owner l) ∈ w.log ∨
    l ∈ w.store.files ∧ l.phase = .active ∧ l.OwnedBy owner ∧
      ∃ s req, (i, .opened s (.request owner req)) ∈ w.log
  /-- Start times tell a process from its successors. -/
  identities : w.store.clock ≤ w'.store.clock ∧
    ∀ pid info', w'.store.processes pid = some info' → info'.starttime < w.store.clock →
      ∃ info, w.store.processes pid = some info ∧ info.starttime = info'.starttime
  /-- Random numbers are not given back. -/
  draws : w.store.draws ≤ w'.store.draws

/-- The contract of all processes of a host. -/
def leaseContract : Contract (Machine η) LeaseEvent where
  inv := Consistent env initial
  rely i w w' := Consistent env initial w ∧ Consistent env initial w' ∧
    ∃ j, i ≠ j ∧ Step env initial j w w'
  guar i w w' := Consistent env initial w ∧ Consistent env initial w' ∧ Step env initial i w w'
  keeps _ h := h.2.1
  compatible hij h := ⟨h.1, h.2.1, _, hij, h.2.2⟩

section Progress

variable {env initial} {i : ℕ} {w w' : Site η}

theorem Step.log_mono (h : Step env initial i w w') {entry : ℕ × LeaseEvent}
    (hentry : entry ∈ w.log) : entry ∈ w'.log := by
  obtain ⟨es, hlog⟩ := h.log
  rw [hlog]
  exact List.mem_append_left _ hentry

/-- What another process logs is not logged by this one. -/
theorem Step.mem_log {j : ℕ} (h : Step env initial j w w') (hij : i ≠ j) {e : LeaseEvent}
    (he : (i, e) ∈ w'.log) : (i, e) ∈ w.log := by
  obtain ⟨es, hlog⟩ := h.log
  rw [hlog] at he
  rcases List.mem_append.mp he with hold | hnew
  · exact hold
  · obtain ⟨_, _, hpair⟩ := List.mem_map.mp hnew
    exact absurd (congrArg Prod.fst hpair).symm hij

theorem seen_mono {w w' : Site η} (hlog : ∀ entry ∈ w.log, entry ∈ w'.log) {token : String}
    (h : Seen initial w token) : Seen initial w' token := by
  rcases h with hinitial | ⟨j, lease, hcreated, htoken⟩
  · exact Or.inl hinitial
  · exact Or.inr ⟨j, lease, hlog _ hcreated, htoken⟩

theorem revoking_mono {w w' : Site η} (hlog : ∀ entry ∈ w.log, entry ∈ w'.log) {token : String}
    (h : Revoking w token) : Revoking w' token := by
  obtain ⟨j, hrevoking⟩ := h
  exact ⟨j, hlog _ hrevoking⟩

theorem mine_mono {w w' : Site η} (hlog : ∀ entry ∈ w.log, entry ∈ w'.log) {session : ℕ}
    (h : Mine i w session) : Mine i w' session := by
  obtain ⟨caller, hopened⟩ := h
  exact ⟨caller, hlog _ hopened⟩

theorem Consistent.eq_of_token (h : Consistent env initial w) {a b : Lease}
    (ha : a ∈ w.store.files) (hb : b ∈ w.store.files) (htoken : a.token = b.token) : a = b :=
  List.inj_on_of_nodup_map h.tokens ha hb htoken

/-- Two processes do not hold one lock. -/
theorem Consistent.exclusive (h : Consistent env initial w) {j : ℕ} {name : LockName}
    (hi : HoldsLock i w name) (hj : HoldsLock j w name) : i = j := by
  obtain ⟨s, ⟨c, hopened⟩, hs⟩ := hi
  obtain ⟨s', ⟨c', hopened'⟩, hs'⟩ := hj
  rw [hs] at hs'
  cases hs'
  exact (h.sessions i j s c c' hopened hopened').1

/-- An owner that has exited stays gone. -/
theorem Step.alive_of_alive (h : Step env initial i w w') {lease : Lease}
    (hstart : lease.ownerStarttime < w.store.clock) (halive : Alive w'.store lease) :
    Alive w.store lease := by
  obtain ⟨info', hinfo', htime'⟩ := halive
  obtain ⟨info, hinfo, htime⟩ := h.identities.2 _ _ hinfo' (htime' ▸ hstart)
  exact ⟨info, hinfo, htime.trans htime'⟩

end Progress

section Stability

variable {env initial} {i : ℕ}

/-- Assertions that no other process breaks. -/
abbrev Firm (env : Environment η) (initial : List Lease) (i : ℕ) (P : Site η → Prop) : Prop :=
  (leaseContract env initial).Stable i P

theorem firm_and {P Q : Site η → Prop} (hP : Firm env initial i P) (hQ : Firm env initial i Q) :
    Firm env initial i fun w => P w ∧ Q w :=
  fun _ _ hrely h => ⟨hP hrely h.1, hQ hrely h.2⟩

theorem firm_const (fact : Prop) : Firm env initial i fun _ => fact := fun _ _ _ h => h

theorem firm_forall {γ : Type} {P : γ → Site η → Prop} (h : ∀ x, Firm env initial i (P x)) :
    Firm env initial i fun w => ∀ x, P x w :=
  fun _ _ hrely hw x => h x hrely (hw x)

theorem firm_exists {γ : Type} {P : γ → Site η → Prop} (h : ∀ x, Firm env initial i (P x)) :
    Firm env initial i fun w => ∃ x, P x w := by
  rintro w w' hrely ⟨x, hx⟩
  exact ⟨x, h x hrely hx⟩

theorem firm_imp {fact : Prop} {P : Site η → Prop} (h : Firm env initial i P) :
    Firm env initial i fun w => fact → P w :=
  fun _ _ hrely hw hfact => h hrely (hw hfact)

theorem firm_silent : Firm env initial i (Contract.Silent i) := by
  rintro w w' ⟨_, _, j, hij, hstep⟩ h e he
  exact h e (hstep.mem_log hij he)

theorem firm_logged (entry : ℕ × LeaseEvent) : Firm env initial i fun w => entry ∈ w.log := by
  rintro w w' ⟨_, _, j, _, hstep⟩ h
  exact hstep.log_mono h

theorem firm_mine (session : ℕ) : Firm env initial i fun w => Mine i w session :=
  firm_exists fun caller => firm_logged (i, .opened session caller)

/-- Nobody takes a lock away. -/
theorem firm_holdsLock (name : LockName) : Firm env initial i fun w => HoldsLock i w name := by
  rintro w w' ⟨hinv, _, j, hij, hstep⟩ ⟨session, ⟨caller, hopened⟩, hheld⟩
  refine ⟨session, ⟨caller, hstep.log_mono hopened⟩, hstep.locks name session hheld ?_⟩
  rintro ⟨caller', hopened'⟩
  exact hij (hinv.sessions i j session caller caller' hopened hopened').1

/-- Behind the lock of its execution a file stays as it is. -/
theorem firm_file (lease : Lease) :
    Firm env initial i fun w => HoldsLock i w (lease.lock env) ∧ lease ∈ w.store.files := by
  rintro w w' hrely ⟨hlock, hfile⟩
  refine ⟨firm_holdsLock _ hrely hlock, ?_⟩
  obtain ⟨hinv, _, j, hij, hstep⟩ := hrely
  rcases hstep.covered lease with hheld | hsame
  · exact absurd (hinv.exclusive hlock hheld) hij
  · exact hsame.mpr hfile

/-- Behind the global lock no lease comes or goes. -/
theorem members_of_rely {w w' : Site η} (hrely : (leaseContract env initial).rely i w w')
    (hlock : HoldsLock i w .global) : (∀ core, HasCore w'.store core ↔ HasCore w.store core) ∧
      ∀ token, Seen initial w' token → Seen initial w token := by
  obtain ⟨hinv, _, j, hij, hstep⟩ := hrely
  rcases hstep.members with hheld | hsame
  · exact absurd (hinv.exclusive hlock hheld) hij
  · exact hsame

end Stability

end Sower.Network
