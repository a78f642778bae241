import Sower.Lib.Invariants
import Sower.Network.PoolAddresses
import Sower.Network.Recovery

/-!
# What the operations write, the operations accept

Every lease that an operation saves was made from a slot of the pool for a
genuine owner, or read from the journal and checked; so each file passes its
checks at any time. Reading the journal as a whole makes one more demand, which
a policy that names a unit twice cannot meet.
-/

namespace Sower.Network

open Process Interleaving

variable {η α : Type} {env : Environment η} {file : PolicyFile}

section Sealed

/-- The journal holds leases of the policy only, and the kernel numbers processes and the
ticks at which they start from one. -/
structure Machine.Sealed (env : Environment η) (m : Machine η) : Prop where
  files : ∀ l ∈ m.files, l.Pooled env.policy
  clock : 0 < m.clock
  processes : ∀ pid info, m.processes pid = some info → 0 < pid ∧ 0 < info.starttime

/-- Every step keeps the journal sealed, and a value satisfies the postcondition. -/
abbrev Seals (env : Environment η) (Q : α → Prop) (p : Op η α) : Prop :=
  Fallible.Upholds (Machine.Sealed env) Q p

variable {Q : α → Prop} {m m' : Machine η}

/-- A step that leaves the process table alone and writes only leases of the policy. -/
theorem Machine.Sealed.write (h : m.Sealed env)
    (hfiles : ∀ l ∈ m'.files, l ∈ m.files ∨ l.Pooled env.policy) (hclock : m'.clock = m.clock)
    (hprocesses : m'.processes = m.processes) : m'.Sealed env where
  files l hl := (hfiles l hl).elim (h.files l) id
  clock := hclock ▸ h.clock
  processes := hprocesses ▸ h.processes

/-- A step that writes nothing either. -/
theorem Machine.Sealed.still (h : m.Sealed env) (hfiles : m'.files = m.files)
    (hclock : m'.clock = m.clock) (hprocesses : m'.processes = m.processes) : m'.Sealed env :=
  h.write (fun _ hl => Or.inl (hfiles ▸ hl)) hclock hprocesses

theorem seals_io {f : Machine η → (Machine η × List LeaseEvent) × Except String α}
    (h : ∀ m, m.Sealed env → (f m).1.1.Sealed env ∧ ∀ value, (f m).2 = .ok value → Q value) :
    Seals env Q (io env f) := by
  refine Fallible.upholds_atomic fun m hm => ?_
  have htick : Machine.Sealed env { m with ticks := m.ticks + 1 } := hm.still rfl rfl rfl
  split
  · exact ⟨htick, fun value hvalue => by cases hvalue⟩
  · exact h _ htick

theorem seals_any {p : Op η α} (h : Seals env Q p) : Seals env (fun _ => True) p :=
  h.mono fun _ _ => trivial

theorem seals_require {condition : Bool} {message : String} :
    Seals env (fun _ => condition = true) (require condition message : Op η Unit) :=
  Fallible.upholds_lift fun _ hok => ensure_ok.mp hok

/-- What only runs commands writes nothing. -/
theorem Issues.seals {lease : Lease} {p : Op η α} (h : Issues env lease p) :
    Seals env (fun _ => True) p := by
  refine Fallible.Follows.upholds h ?_
  rintro m es m' hm ⟨c, -, -, rfl⟩
  exact hm.still rfl rfl rfl

end Sealed

section Locks

variable {Q : α → Prop} {me : Session} {name : LockName}

theorem seals_tryLock : Seals env (fun _ => True) (tryLock env me name) := by
  refine seals_io fun m hm => ?_
  split
  · exact ⟨hm.still rfl rfl rfl, fun _ _ => trivial⟩
  · exact ⟨hm, fun _ _ => trivial⟩

theorem seals_lockFile (patience : ℕ) :
    Seals env (fun _ => True) (lockFile env me name patience) := by
  induction patience with
  | zero => exact Fallible.upholds_throw _
  | succ patience ih =>
    refine seals_tryLock.bind fun taken _ => ?_
    split
    · exact Fallible.upholds_pure trivial
    · exact ih

theorem seals_unlock : Seals env (fun _ => True) (unlock me name : Op η Unit) := by
  refine Fallible.upholds_atomic fun m hm => ?_
  split
  · exact ⟨hm.still rfl rfl rfl, fun _ _ => trivial⟩
  · exact ⟨hm, fun _ _ => trivial⟩

theorem seals_holding {body : Op η α} (h : Seals env Q body) :
    Seals env Q (holding me name body) := by
  refine (Fallible.Upholds.attempt h).bind fun outcome houtcome => ?_
  exact seals_unlock.bind fun _ _ => Fallible.upholds_lift houtcome

theorem seals_withLock {body : Op η α} (h : Seals env Q body) :
    Seals env Q (withLock env me name body) :=
  (seals_lockFile me.patience).bind fun _ _ => seals_holding h

end Locks

section Files

variable {lease : Lease} {instanceName token message : String}

theorem seals_readFile : Seals env (fun l => l.Pooled env.policy)
    (readFile env instanceName token message) := by
  refine seals_io fun m hm => ?_
  cases hfile : m.file? instanceName token with
  | none => exact ⟨hm, fun value hvalue => by cases hvalue⟩
  | some found =>
    refine ⟨hm, fun value hvalue => ?_⟩
    dsimp only at hvalue
    have hsame : value = found := by
      rcases hcheck : checkRecord instanceName token message found with error | _
      · rw [hcheck] at hvalue
        cases hvalue
      · rw [hcheck] at hvalue
        cases hvalue
        rfl
    rw [hsame]
    exact hm.files found (mem_of_file? hfile).1

theorem seals_readRecords (tokens : List String) :
    Seals env (fun leases => ∀ l ∈ leases, l.Pooled env.policy)
      (readRecords env instanceName tokens) := by
  induction tokens with
  | nil => exact Fallible.upholds_pure fun l hl => by cases hl
  | cons token rest ih =>
    refine seals_readFile.bind fun lease hlease => ih.bind fun leases hleases => ?_
    exact Fallible.upholds_pure (List.forall_mem_cons.mpr ⟨hlease, hleases⟩)

theorem seals_recordsIn : Seals env (fun leases => ∀ l ∈ leases, l.Pooled env.policy)
    (recordsIn env instanceName) := by
  have hlist : Seals env (fun _ => True) (listRecords env instanceName) :=
    seals_io fun m hm => ⟨hm, fun _ _ => trivial⟩
  exact hlist.bind fun tokens _ => seals_readRecords tokens

theorem seals_allRecords : Seals env (fun _ => True) (allRecords env) := by
  have hrecords : ∀ units, Seals env (fun _ => True) (recordsOf env units) := by
    intro units
    induction units with
    | nil => exact Fallible.upholds_pure trivial
    | cons unit rest ih =>
      refine seals_recordsIn.bind fun leases _ => ih.bind fun others _ => ?_
      exact Fallible.upholds_pure trivial
  refine (hrecords _).bind fun leases _ => seals_require.bind fun _ _ => ?_
  exact Fallible.upholds_pure trivial

theorem seals_load : Seals env (fun found => ∀ l, found = some l → l.Pooled env.policy)
    (load env instanceName token) := by
  have hfound : Seals env (fun _ => True)
      (Fallible.read fun m : Machine η => (m.file? instanceName token).isSome) :=
    Fallible.upholds_atomic fun m hm => ⟨hm, fun _ _ => trivial⟩
  refine seals_require.bind fun _ _ => hfound.bind fun found _ => ?_
  split
  · refine seals_readFile.bind fun lease hlease => Fallible.upholds_pure fun l hl => ?_
    cases hl
    exact hlease
  · exact Fallible.upholds_pure fun l hl => by cases hl

/-- Only a lease of the policy may be saved. -/
theorem seals_save (h : lease.Pooled env.policy) : Seals env (fun _ => True) (save env lease) := by
  have hput : ∀ m : Machine η, m.Sealed env → (m.put lease).Sealed env := by
    intro m hm
    refine hm.write (fun l hl => ?_) rfl rfl
    rcases List.mem_cons.mp hl with rfl | hl
    · exact Or.inr h
    · exact Or.inl (List.mem_filter.mp hl).1
  have hwrite : Seals env (fun _ => True) (writeTemporary env lease) :=
    seals_io fun m hm => ⟨hm.still rfl rfl rfl, fun _ _ => trivial⟩
  have hrename : Seals env (fun _ => True) (renameTemporary env lease) := by
    refine seals_io fun m hm => ?_
    split
    · exact ⟨hput m hm, fun _ _ => trivial⟩
    · exact ⟨hput m hm, fun _ _ => trivial⟩
  have hsync : Seals env (fun _ => True) (syncDirectory env) :=
    seals_io fun m hm => ⟨hm, fun _ _ => trivial⟩
  exact hwrite.bind fun _ _ => hrename.bind fun _ _ => hsync

/-- Removing files leaves leases of the policy. -/
theorem seals_remove : Seals env (fun _ => True) (do
    removeFile env lease
    removeTemporary env lease
    syncDirectory env) := by
  have hfile : Seals env (fun _ => True) (removeFile env lease) := by
    refine seals_io fun m hm => ?_
    split
    · exact ⟨hm, fun _ _ => trivial⟩
    · refine ⟨hm.write (fun l hl => Or.inl ?_) rfl rfl, fun _ _ => trivial⟩
      exact (List.mem_filter.mp hl).1
  have hfound : Seals env (fun _ => True)
      (Fallible.read fun m : Machine η => m.temporaries.contains lease.path) :=
    Fallible.upholds_atomic fun m hm => ⟨hm, fun _ _ => trivial⟩
  have htemporary : Seals env (fun _ => True) (removeTemporary env lease) := by
    refine hfound.bind fun found _ => ?_
    split
    · exact seals_io fun m hm => ⟨hm.still rfl rfl rfl, fun _ _ => trivial⟩
    · exact Fallible.upholds_pure trivial
  have hsync : Seals env (fun _ => True) (syncDirectory env) :=
    seals_io fun m hm => ⟨hm, fun _ _ => trivial⟩
  exact hfile.bind fun _ _ => htemporary.bind fun _ _ => hsync

end Files

section Operations

variable {lease : Lease} {owner : Owner} {execution : String} {me : Session}

/-- A lease of the policy in memory, whatever has become of the operation. -/
abbrev SealsLease (env : Environment η) (p : Op η (Lease × Except String Unit)) : Prop :=
  Seals env (fun result => result.1.Pooled env.policy) p

theorem seals_stage {Q : α → Prop} {p : Op η α} {next : α → Op η (Lease × Except String Unit)}
    (hlease : lease.Pooled env.policy) (hp : Seals env Q p)
    (hnext : ∀ a, Q a → SealsLease env (next a)) : SealsLease env (stage lease p next) := by
  refine (Fallible.Upholds.attempt hp).bind fun outcome houtcome => ?_
  cases outcome with
  | error message => exact Fallible.upholds_pure hlease
  | ok value => exact hnext value (houtcome value rfl)

/-- The address that the interface has been given is checked before it is kept. -/
theorem seals_addTap : Seals env (fun mac => validMac mac = true) (addTap env lease) := by
  have hcommand : ∀ c : Command, c.Concerns lease → Seals env (fun _ => True) (command env c) :=
    fun c hc => (issues_command hc).seals
  have hfree : Issues env lease (requireUnoccupied env lease.tap) := issues_requireUnoccupied _
  have hlinks : Issues env lease (links env) := issues_links
  refine hfree.seals.bind fun _ _ => ?_
  refine (hcommand (.tuntapAdd lease.tap lease.ownerUid) rfl).bind fun _ _ => ?_
  refine (hcommand (.setAlias lease.tap (linkAlias lease)) rfl).bind fun _ _ => ?_
  refine (hcommand (.udevWait lease.tap) rfl).bind fun _ _ => ?_
  refine hlinks.seals.bind fun current _ => ?_
  refine Fallible.Upholds.bind (Fallible.upholds_lift (Q := fun _ => True) fun _ _ => trivial)
    fun found _ => ?_
  cases found with
  | none => exact Fallible.upholds_throw _
  | some link =>
    dsimp only
    cases link.address with
    | none => exact Fallible.upholds_throw _
    | some mac => exact seals_require.bind fun _ hmac => Fallible.upholds_pure hmac

theorem seals_createTap (h : lease.Pooled env.policy) : SealsLease env (createTap env lease) := by
  refine seals_stage h seals_addTap fun mac hmac => ?_
  have hnamed : ({ lease with hostMac := some mac } : Lease).Pooled env.policy :=
    @Lease.Pooled.update env.policy lease h lease.phase (some mac) hmac
  have haddress : Issues env lease (command env (.addressAdd lease.gateway lease.tap)) :=
    issues_command rfl
  refine seals_stage hnamed haddress.seals fun _ _ => ?_
  exact Fallible.upholds_pure hnamed

/-- A lease of the policy in another phase. -/
theorem pooled_phase (h : lease.Pooled env.policy) (phase : Phase) :
    ({ lease with phase := phase } : Lease).Pooled env.policy :=
  @Lease.Pooled.update env.policy lease h phase lease.hostMac h.hostMac

theorem seals_setup (h : lease.Pooled env.policy) : SealsLease env (setup env lease) := by
  have hcheck : Issues env lease (do
      requireAvailableSubnet env lease.gateway
      requireUnoccupied env lease.tap) :=
    (issues_requireAvailableSubnet _).bind fun _ => issues_requireUnoccupied _
  have hallocated := pooled_phase h .allocated
  refine seals_stage h hcheck.seals fun _ _ => seals_stage hallocated (Q := fun _ => True) ?_ fun _ _ => ?_
  · exact (seals_save hallocated).bind fun _ _ => issues_installGuard.seals.bind fun _ _ =>
      issues_purgeConnections.seals
  refine (seals_createTap hallocated).bind fun result hresult => ?_
  obtain ⟨tapped, created⟩ := result
  refine seals_stage hresult (Q := fun _ => True) ?_ fun _ _ => ?_
  · refine Fallible.Upholds.bind (Fallible.upholds_lift (Q := fun _ => True) fun _ _ => trivial) ?_
    exact fun _ _ => (seals_save hresult).bind fun _ _ => issues_installIngress.seals
  have hactive := pooled_phase hresult .active
  refine seals_stage hactive (Q := fun _ => True) ?_ fun _ _ => Fallible.upholds_pure hactive
  exact (seals_save hactive).bind fun _ _ => issues_installGuard.seals.bind fun _ _ =>
    issues_setUp.seals

theorem seals_revoke (h : lease.Pooled env.policy) : SealsLease env (revoke env lease) := by
  have hrevoked := pooled_phase h .revoked
  unfold revoke
  split
  · exact Fallible.upholds_pure h
  · have hemit : Seals env (fun _ => True)
        (Fallible.emit (.revoking lease.token) : Op η PUnit) :=
      Fallible.upholds_atomic fun m hm => ⟨hm, fun _ _ => trivial⟩
    refine hemit.bind fun _ _ => (seals_save hrevoked).attempt.bind fun _ _ => ?_
    refine (issues_setDown.seals).attempt.bind fun _ _ => ?_
    refine (issues_installGuard.seals).attempt.bind fun _ _ => ?_
    exact Fallible.upholds_pure hrevoked

theorem seals_release (h : lease.Pooled env.policy) :
    Seals env (fun _ => True) (release env me lease) := by
  have hremove : Seals env (fun _ => True) (withGlobal env me do
      removeFile env lease
      removeTemporary env lease
      syncDirectory env) := seals_withLock seals_remove
  unfold release
  refine seals_require.bind fun _ _ => ?_
  split
  · refine (issues_removeResources.seals).attempt.bind fun outcome _ => ?_
    cases outcome with
    | ok _ => exact hremove
    | error message =>
      refine (seals_save (pooled_phase h .quarantined)).bind fun _ _ => ?_
      exact Fallible.upholds_throw _
  · exact hremove

theorem seals_revokeAndRelease (h : lease.Pooled env.policy) :
    Seals env (fun _ => True) (revokeAndRelease env me lease) := by
  refine (seals_revoke h).bind fun result hresult => ?_
  obtain ⟨revoked, outcome⟩ := result
  refine Fallible.Upholds.bind (Fallible.upholds_lift (Q := fun _ => True) fun _ _ => trivial) ?_
  exact fun _ _ => seals_release hresult

theorem seals_processStarttime (pid : ℤ) :
    Seals env (fun starttime => 0 < pid ∧ 0 < starttime) (processStarttime pid : Op η ℕ) := by
  refine Fallible.upholds_atomic fun m hm => ?_
  cases hpid : m.processes pid with
  | none => exact ⟨hm, fun value hvalue => by cases hvalue⟩
  | some info =>
    refine ⟨hm, fun value hvalue => ?_⟩
    cases hvalue
    exact hm.processes pid info hpid

theorem seals_reserve (hsound : env.policy.Sound file) (howner : owner.Genuine env.policy)
    (hexecution : validateExecution execution = .ok ()) :
    Seals env (fun l => l.Pooled env.policy) (reserve env me owner execution) := by
  refine seals_withLock ?_
  refine (Fallible.Upholds.attempt (seals_processStarttime owner.peer.pid)).bind fun start _ => ?_
  refine seals_require.bind fun _ _ => seals_allRecords.bind fun leases _ => ?_
  refine seals_require.bind fun _ _ => ?_
  dsimp only
  cases hslot : (List.range env.policy.slots).find?
      fun slot => !(leases.map Lease.slot).contains slot with
  | none => exact Fallible.upholds_throw _
  | some slot =>
    have hin : slot < env.policy.slots := List.mem_range.mp (List.mem_of_find?_eq_some hslot)
    refine Fallible.Upholds.bind (Q := fun pair => env.policy.addresses slot = .ok pair)
      (Fallible.upholds_lift fun _ hok => hok) fun pair haddresses => ?_
    obtain ⟨gateway, address⟩ := pair
    have hbytes : Seals env (fun _ => True) (randomBytes env) :=
      seals_io fun m hm => ⟨hm.still rfl rfl rfl, fun _ _ => trivial⟩
    refine hbytes.bind fun random _ => seals_require.bind fun _ _ => ?_
    have hpooled := pooled_newLease hsound howner hexecution hin haddresses random
    exact (seals_save hpooled).bind fun _ _ => Fallible.upholds_pure hpooled

theorem seals_provision (hsound : env.policy.Sound file) (howner : owner.Genuine env.policy) :
    Seals env (fun _ => True) (provision env me owner execution) := by
  have houtput : ∀ l : Lease, Seals env (fun _ => True) (output owner l : Op η Lease) := by
    intro l
    have hemit : Seals env (fun _ => True) (Fallible.emit (.provisioned owner l) : Op η PUnit) :=
      Fallible.upholds_atomic fun m hm => ⟨hm, fun _ _ => trivial⟩
    exact hemit.bind fun _ _ => Fallible.upholds_pure trivial
  refine Fallible.Upholds.bind (Q := fun _ => validateExecution execution = .ok ())
    (Fallible.upholds_lift fun _ hok => hok) fun _ hexecution => seals_withLock ?_
  have hexisting : Seals env (fun _ => True) (withGlobal env me do
      let leases ← recordsIn env owner.instanceName
      pure (leases.find? (·.executionId == execution))) :=
    seals_withLock (seals_recordsIn.bind fun _ _ => Fallible.upholds_pure trivial)
  refine hexisting.bind fun existing _ => ?_
  cases existing with
  | some lease =>
    refine Fallible.Upholds.bind (Fallible.upholds_lift (Q := fun _ => True) fun _ _ => trivial) ?_
    exact fun _ _ => seals_require.bind fun _ _ => houtput lease
  | none =>
    refine (seals_reserve hsound howner hexecution).bind fun lease hlease => ?_
    refine (seals_setup hlease).bind fun result hresult => ?_
    obtain ⟨built, outcome⟩ := result
    cases outcome with
    | ok _ => exact houtput built
    | error message =>
      exact (Fallible.Upholds.attempt (seals_revokeAndRelease hresult)).bind fun _ _ =>
        Fallible.upholds_throw _

theorem seals_operate (token : String) (releasing : Bool) :
    Seals env (fun _ => True) (operate env me owner token releasing) := by
  have hload : Seals env (fun found => ∀ l, found = some l → l.Pooled env.policy)
      (withGlobal env me (load env owner.instanceName token)) := seals_withLock seals_load
  have hlift : ∀ outcome : Except String Unit,
      Seals env (fun _ => True) (Fallible.lift outcome : Op η Unit) :=
    fun outcome => Fallible.upholds_lift fun _ _ => trivial
  refine hload.bind fun found _ => ?_
  cases found with
  | none => exact Fallible.upholds_pure trivial
  | some first =>
    refine (hlift _).bind fun _ _ => seals_withLock ?_
    refine hload.bind fun found hfound => ?_
    cases found with
    | none => exact Fallible.upholds_pure trivial
    | some lease =>
      have hlease := hfound lease rfl
      refine (hlift _).bind fun _ _ => ?_
      split
      · exact seals_require.bind fun _ _ => seals_revokeAndRelease hlease
      · refine (seals_revoke hlease).bind fun result _ => ?_
        obtain ⟨revoked, outcome⟩ := result
        exact hlift outcome

theorem seals_cleanup (instanceName : String) (rootHook : Bool) :
    Seals env (fun _ => True) (cleanup env me instanceName rootHook) := by
  have hlocked : ∀ token,
      Seals env (fun _ => True) (cleanupLocked env me instanceName rootHook token) := by
    intro token
    refine (seals_withLock seals_load).bind fun found hfound => ?_
    cases found with
    | none => exact Fallible.upholds_pure trivial
    | some lease =>
      refine (Fallible.Upholds.attempt (seals_processStarttime lease.ownerPid)).bind
        fun start _ => ?_
      split
      · exact Fallible.upholds_pure trivial
      · refine (Fallible.Upholds.attempt (seals_revokeAndRelease (hfound lease rfl))).bind
          fun outcome _ => ?_
        cases outcome with
        | ok _ => exact Fallible.upholds_pure trivial
        | error message => exact Fallible.upholds_pure trivial
  have hround : ∀ lease,
      Seals env (fun _ => True) (cleanupLease env me instanceName rootHook lease) := by
    intro lease
    refine seals_tryLock.bind fun taken _ => ?_
    split
    · exact seals_holding (hlocked lease.token)
    · exact Fallible.upholds_pure trivial
  have hrounds : ∀ leases,
      Seals env (fun _ => True) (cleanupLeases env me instanceName rootHook leases) := by
    intro leases
    induction leases with
    | nil => exact Fallible.upholds_pure trivial
    | cons lease rest ih =>
      exact (hround lease).bind fun _ _ => ih.bind fun _ _ => Fallible.upholds_pure trivial
  refine (seals_withLock seals_recordsIn).bind fun leases _ => ?_
  exact (hrounds leases).bind fun _ _ => seals_any seals_require

end Operations

section Processes

variable {owner : Owner} {me : Session}

/-- The kernel knows the process at the other end of the socket. -/
theorem seals_authenticate (peer : PeerCredentials) :
    Seals env (fun owner => 0 < owner.peer.pid ∧ 0 < owner.starttime)
      (authenticate env peer) := by
  have hinfo : Seals env (fun _ => True) (processInfo peer.pid : Op η ProcessInfo) := by
    refine Fallible.upholds_atomic fun m hm => ?_
    cases m.processes peer.pid with
    | none => exact ⟨hm, fun value hvalue => by cases hvalue⟩
    | some info => exact ⟨hm, fun _ _ => trivial⟩
  refine (seals_processStarttime peer.pid).bind fun starttime hstart => ?_
  refine hinfo.bind fun status _ => seals_require.bind fun _ _ => hinfo.bind fun info _ => ?_
  refine Fallible.Upholds.bind (Fallible.upholds_lift (Q := fun _ => True) fun _ _ => trivial) ?_
  refine fun instanceName _ => (seals_processStarttime peer.pid).bind fun again _ => ?_
  exact seals_require.bind fun _ _ => Fallible.upholds_pure hstart

theorem seals_request (hsound : env.policy.Sound file)
    (howner : 0 < owner.peer.pid ∧ 0 < owner.starttime) (req : NetworkRequest) :
    Seals env (fun _ => True) (request env me owner req) := by
  have hfield : ∀ value message, Seals env (fun _ => True) (field value message : Op η String) := by
    intro value message
    cases value with
    | none => exact Fallible.upholds_throw _
    | some value => exact Fallible.upholds_pure trivial
  refine seals_require.bind fun _ hunit => (hfield _ _).bind fun action _ => ?_
  have hgenuine : owner.Genuine env.policy :=
    ⟨by simpa using hunit, howner.1, howner.2⟩
  split
  · refine seals_require.bind fun _ _ => (hfield _ _).bind fun execution _ => ?_
    exact (seals_provision hsound hgenuine).bind fun _ _ => Fallible.upholds_pure trivial
  split
  · refine seals_require.bind fun _ _ => (hfield _ _).bind fun token _ => ?_
    exact (seals_operate token _).bind fun _ _ => Fallible.upholds_pure trivial
  split
  · refine seals_require.bind fun _ _ => ?_
    exact (seals_cleanup _ _).bind fun _ _ => Fallible.upholds_pure trivial
  · exact Fallible.upholds_throw _

theorem seals_rootCleanup (instanceName : String) :
    Seals env (fun _ => True) (rootCleanup env me instanceName) :=
  seals_require.bind fun _ _ => seals_cleanup _ _

/-- An operation in its session may be killed at any step. -/
theorem seals_session {caller : Caller} {patience : ℕ} (limit : Option ℕ) {p : Session → Op η α}
    (hp : ∀ me, Seals env (fun _ => True) (p me)) :
    ((openSession caller patience).run >>= fun opened =>
      match opened with
      | .error _ => pure ()
      | .ok me => interrupted limit me (p me)).Upholds (Machine.Sealed env) fun _ => True := by
  have hopen : Seals env (fun _ => True) (openSession caller patience : Op η Session) :=
    Fallible.upholds_atomic fun m hm => ⟨hm.still rfl rfl rfl, fun _ _ => trivial⟩
  have hdrop : ∀ (me : Session) (m : Machine η), m.Sealed env → (dropLocks me m).1.Sealed env :=
    fun me m hm => hm.still rfl rfl rfl
  refine Proc.Upholds.bind hopen fun opened _ => ?_
  cases opened with
  | error message => exact trivial
  | ok me =>
    cases limit with
    | none =>
      refine Proc.Upholds.bind (hp me) fun _ _ => ?_
      exact Proc.upholds_atomic fun m hm => ⟨hdrop me m hm, trivial⟩
    | some n => exact Proc.Upholds.cut (hp me) (hdrop me) n

/-- The processes that share a host whose kernel numbers processes from one. -/
inductive OnLinux (env : Environment η) : HostProcess η Unit → Prop
  | request (patience : ℕ) (limit : Option ℕ) (peer : PeerCredentials) (req : NetworkRequest) :
      OnLinux env (requestProcess env patience limit peer req)
  | cleanup (patience : ℕ) (limit : Option ℕ) (instanceName : String) :
      OnLinux env (cleanupProcess env patience limit instanceName)
  | exit (pid : ℤ) : OnLinux env (processExit pid)
  | start (pid : ℤ) (uid : ℕ) (cgroup : String) (numbered : 0 < pid) :
      OnLinux env (processStart pid uid cgroup)
  | change (pid : ℤ) (uid : ℕ) (cgroup : String) : OnLinux env (processChange pid uid cgroup)

theorem OnLinux.onHost {p : HostProcess η Unit} (h : OnLinux env p) : OnHost env p := by
  cases h with
  | request => exact .request _ _ _ _
  | cleanup => exact .cleanup _ _ _
  | exit => exact .exit _
  | start => exact .start _ _ _
  | change => exact .change _ _ _

/-- A change of one entry of the process table. -/
theorem Machine.Sealed.enter {m : Machine η} (hm : m.Sealed env) {pid : ℤ}
    {entry : Option ProcessInfo} {clock : ℕ} (hclock : 0 < clock)
    (hentry : ∀ info, entry = some info → 0 < pid ∧ 0 < info.starttime) :
    Machine.Sealed env
      { m with processes := Function.update m.processes pid entry, clock := clock } := by
  refine ⟨hm.files, hclock, fun other info hinfo => ?_⟩
  dsimp only at hinfo
  rcases eq_or_ne other pid with rfl | hne
  · rw [Function.update_self] at hinfo
    exact hentry info hinfo
  · rw [Function.update_of_ne hne] at hinfo
    exact hm.processes other info hinfo

theorem OnLinux.upholds (hsound : env.policy.Sound file) {p : HostProcess η Unit}
    (h : OnLinux env p) : p.Upholds (Machine.Sealed env) fun _ => True := by
  cases h with
  | request patience limit peer req =>
    refine Proc.Upholds.bind (seals_authenticate peer) fun outcome houtcome => ?_
    cases outcome with
    | error message => exact trivial
    | ok owner => exact seals_session limit fun me => seals_request hsound (houtcome owner rfl) req
  | cleanup patience limit instanceName =>
    exact seals_session limit fun me => seals_rootCleanup instanceName
  | exit pid =>
    refine Proc.upholds_atomic fun m hm => ⟨hm.enter hm.clock fun info h => ?_, trivial⟩
    cases h
  | start pid uid cgroup numbered =>
    refine Proc.upholds_atomic fun m hm => ⟨?_, trivial⟩
    cases m.processes pid with
    | some info => exact hm
    | none =>
      refine hm.enter (Nat.succ_pos m.clock) fun info h => ?_
      cases h
      exact ⟨numbered, hm.clock⟩
  | change pid uid cgroup =>
    refine Proc.upholds_atomic fun m hm => ⟨?_, trivial⟩
    cases hpid : m.processes pid with
    | none => exact hm
    | some info =>
      refine hm.enter hm.clock fun info' h => ?_
      cases h
      exact hm.processes pid info hpid

/-- The journal stays sealed in every interleaving. -/
theorem sealed_run (hsound : env.policy.Sound file) {m₀ : Machine η}
    {c : Pool (Machine η) LeaseEvent} (hstart : m₀.Sealed env)
    (hc : Reachable (OnLinux env) (Pool.start m₀) c) : c.world.store.Sealed env :=
  hc.upholds (fun _ hp => hp.upholds hsound) hstart

end Processes

section Reading

variable {m : Machine η} {view : HostView η}

/-- Two undisturbed runs of one operation end alike. -/
theorem Runs.unique {p : Op η α} {m' m'' : Machine η} {first second : Except String α}
    (hfirst : Runs p m first m') (hsecond : Runs p m second m'') : first = second := by
  obtain ⟨es, hes⟩ := hfirst
  obtain ⟨es', hes'⟩ := hsecond
  rw [hes] at hes'
  exact congrArg Prod.fst hes'

/-- The files of several directories, in the order of the directories. -/
def filesOf (m : Machine η) (units : List String) : List Lease :=
  units.flatMap fun unit => m.files.filter fun l => l.instanceName == unit

/-- A file is found once for each time that its directory is read. -/
theorem count_filesOf (units : List String) (lease : Lease) :
    (filesOf m units).count lease = units.count lease.instanceName * m.files.count lease := by
  induction units with
  | nil => simp [filesOf]
  | cons unit rest ih =>
    have hcons : filesOf m (unit :: rest) =
        (m.files.filter fun l => l.instanceName == unit) ++ filesOf m rest := rfl
    rw [hcons, List.count_append, ih, List.count_cons]
    by_cases hunit : lease.instanceName = unit
    · rw [List.count_filter (by simpa using hunit), hunit]
      simp only [beq_self_eq_true, if_true]
      rw [Nat.add_mul, Nat.one_mul, Nat.add_comm]
    · have hnone : (m.files.filter fun l => l.instanceName == unit).count lease = 0 := by
        refine List.count_eq_zero.mpr fun hmem => hunit ?_
        simpa using (List.mem_filter.mp hmem).2
      have hother : (unit == lease.instanceName) = false := by simpa using Ne.symm hunit
      rw [hnone, hother]
      simp

/-- Reading several directories gives their files. -/
theorem runs_recordsOf (units : List String) (h : Ready env view m)
    (htokens : (m.files.map Lease.token).Nodup) (hvalid : ∀ l ∈ m.files, l.validate = .ok ()) :
    ∃ leases m', Runs (recordsOf env units) m (.ok leases) m' ∧ leases.Perm (filesOf m units) ∧
      Calm env view m m' := by
  induction units generalizing m with
  | nil => exact ⟨[], m, runs_pure _ _, List.Perm.nil, ⟨h, rfl, rfl, rfl⟩⟩
  | cons unit rest ih =>
    obtain ⟨leases, outcome, m₁, hperm, hread, hcalm, hok, -⟩ := runs_recordsIn unit h htokens
    have hall : ∀ l ∈ leases, l.validate = .ok () := by
      intro l hl
      exact hvalid l (List.mem_filter.mp (hperm.mem_iff.mp hl)).1
    rw [hok hall] at hread
    obtain ⟨others, m₂, hrest, hperm', hcalm'⟩ := @ih m₁ hcalm.ready
      (by rw [hcalm.files]; exact htokens) (by rw [hcalm.files]; exact hvalid)
    refine ⟨leases ++ others, m₂, hread.bind (hrest.bind (runs_pure _ _)), ?_,
      hcalm.trans hcalm'⟩
    have hsame : filesOf m₁ rest = filesOf m rest := by
      unfold filesOf
      rw [hcalm.files]
    rw [hsame] at hperm'
    exact hperm.append hperm'

/-- The same environment with file operations that succeed. -/
def Environment.faultless (env : Environment η) : Environment η :=
  { env with faults := fun _ => false }

/-- Where nothing fails by itself, the journal is read as a whole, and it is what is found. -/
def AcceptsJournal (env : Environment η) (m : Machine η) : Prop :=
  ∃ leases m', Runs (allRecords env.faultless) m (.ok leases) m' ∧ leases.Perm m.files

/-- A journal without a slot that is taken twice is accepted if no lease belongs to a unit
that the policy names twice, and not otherwise. -/
theorem acceptsJournal_iff (hvalid : ∀ l ∈ m.files, l.validate = .ok ())
    (htokens : (m.files.map Lease.token).Nodup) (hslots : (m.files.map Lease.slot).Nodup)
    (hunits : ∀ l ∈ m.files, l.instanceName ∈ env.policy.gardenUnits) :
    AcceptsJournal env m ↔
      ∀ l ∈ m.files, env.policy.gardenUnits.count l.instanceName = 1 := by
  have hready : Ready env.faultless (⟨fun _ => [], fun _ => [], fun _ _ _ => [], fun _ => True⟩ :
      HostView η) m := ⟨trivial, fun _ _ => rfl⟩
  obtain ⟨leases, m', hread, hperm, -⟩ :=
    runs_recordsOf env.policy.gardenUnits hready htokens hvalid
  have hfiles : m.files.Nodup := List.Nodup.of_map _ hslots
  have hcount : ∀ l, leases.count l =
      env.policy.gardenUnits.count l.instanceName * m.files.count l := by
    intro l
    rw [hperm.count_eq, count_filesOf]
  constructor
  · rintro ⟨found, m'', hrun, -⟩ l hl
    have hpass : (leases.map Lease.slot).Nodup := by
      by_contra hbad
      have hcheck : Runs (require (decide (leases.map Lease.slot).Nodup)
          "duplicate journal allocation slot") m' (.error "duplicate journal allocation slot")
          m' := runs_lift (by simp [ensure, hbad]) m'
      have hfail := hread.bind (k := fun leases : List Lease => do
        require (decide (leases.map Lease.slot).Nodup) "duplicate journal allocation slot"
        pure leases) hcheck.bind_error
      cases hrun.unique hfail
    have hnodup : leases.Nodup := List.Nodup.of_map _ hpass
    have hone : m.files.count l = 1 := List.count_eq_one_of_mem hfiles hl
    have hatMost := List.nodup_iff_count_le_one.mp hnodup l
    have hatLeast : 0 < env.policy.gardenUnits.count l.instanceName :=
      List.count_pos_iff.mpr (hunits l hl)
    rw [hcount l, hone] at hatMost
    omega
  · intro honce
    have hsame : leases.Perm m.files := by
      refine List.perm_iff_count.mpr fun l => ?_
      rw [hcount l]
      by_cases hl : l ∈ m.files
      · rw [honce l hl, Nat.one_mul]
      · rw [List.count_eq_zero.mpr hl, Nat.mul_zero]
    have hpass : (leases.map Lease.slot).Nodup := (hsame.map Lease.slot).nodup_iff.mpr hslots
    have hcheck : Runs (require (decide (leases.map Lease.slot).Nodup)
        "duplicate journal allocation slot") m' (.ok ()) m' :=
      runs_lift (ensure_ok.mpr (decide_eq_true hpass)) m'
    exact ⟨leases, m', hread.bind (hcheck.bind (runs_pure _ _)), hsame⟩

end Reading

section Closure

variable {m₀ : Machine η} {c : Pool (Machine η) LeaseEvent}

/-- A host on which the operations have not run yet. -/
structure Machine.Fresh (m : Machine η) : Prop where
  /-- The journal is empty. -/
  files : m.files = []
  /-- No operation is under way. -/
  free : ∀ name, m.locks name = none
  /-- Running processes have a positive number and started in the past. -/
  processes : ∀ pid info, m.processes pid = some info →
    0 < pid ∧ 0 < info.starttime ∧ info.starttime < m.clock
  clock : 0 < m.clock

theorem Machine.Fresh.sealed (h : m₀.Fresh) : m₀.Sealed env where
  files l hl := by
    rw [h.files] at hl
    cases hl
  clock := h.clock
  processes pid info hinfo := ⟨(h.processes pid info hinfo).1, (h.processes pid info hinfo).2.1⟩

theorem Machine.Fresh.orderly (h : m₀.Fresh) : m₀.Orderly env := by
  have hnone : ∀ l, l ∉ m₀.files := by
    intro l hl
    rw [h.files] at hl
    cases hl
  refine ⟨?_, ?_, ?_, fun l hl => absurd hl (hnone l), h.free, fun l hl => absurd hl (hnone l),
    fun pid info hinfo => (h.processes pid info hinfo).2.2⟩
  · simp [h.files]
  · simp [h.files]
  · simp [h.files]

/-- What a policy that was admitted promises of a journal. -/
structure JournalClosed (env : Environment η) (m : Machine η) : Prop where
  /-- The lease that is built for a slot passes its checks, with addresses that were computed
  without wrapping. -/
  built : ∀ owner execution slot random, owner.Genuine env.policy →
    validateExecution execution = .ok () → slot < env.policy.slots →
    ∃ gateway address, env.policy.addresses slot = .ok (gateway, address) ∧
      gateway.toNat = env.policy.pool.network.toNat + slot * 4 + 1 ∧
      address.toNat = env.policy.pool.network.toNat + slot * 4 + 2 ∧
      (newLease owner execution slot gateway address random).validate = .ok ()
  /-- Every file passes its checks when it is read back. -/
  readBack : ∀ l ∈ m.files, l.validate = .ok ()
  /-- The addresses in a file are those of its slot. -/
  pooled : ∀ l ∈ m.files, l.slot < env.policy.slots ∧
    env.policy.addresses l.slot = .ok (l.gateway, l.address)
  /-- The four addresses of a slot lie in the pool. -/
  inside : ∀ slot < env.policy.slots, ∀ a : Ipv4Addr,
    env.policy.base slot ≤ a.toNat → a.toNat < env.policy.base slot + 4 →
      env.policy.pool.contains a = true
  /-- Different slots have no address in common. -/
  apart : ∀ slot slot', slot ≠ slot' → env.policy.base slot + 4 ≤ env.policy.base slot' ∨
    env.policy.base slot' + 4 ≤ env.policy.base slot
  /-- The journal is accepted as a whole. -/
  accepted : AcceptsJournal env m

/-- In every run the journal is closed unless it holds a lease of a unit that the policy
names more than once. -/
theorem journal_closed_iff (hpolicy : Policy.validate file = .ok env.policy) (hfresh : m₀.Fresh)
    (hdistinct : DrawsDistinct env m₀.files)
    (hc : Reachable (OnLinux env) (Pool.start m₀) c) :
    JournalClosed env c.world.store ↔
      ∀ l ∈ c.world.store.files, env.policy.gardenUnits.count l.instanceName = 1 := by
  have hsound := sound_of_validate hpolicy
  have hsealed := (sealed_run hsound hfresh.sealed hc).files
  obtain ⟨⟨hinv, -⟩, -⟩ :=
    disciplined hfresh.orderly hdistinct (hc.mono fun _ hp => hp.onHost)
  have haccepts := @acceptsJournal_iff η env _ (fun l hl => (hsealed l hl).valid)
    hinv.tokens hinv.slots fun l hl => (hsealed l hl).unit
  constructor
  · intro hclosed
    exact haccepts.mp hclosed.accepted
  · intro honce
    constructor
    case built =>
      intro owner execution slot random howner hexecution hslot
      obtain ⟨gateway, address, haddresses, hgateway, haddress⟩ := addresses_ok hsound hslot
      exact ⟨gateway, address, haddresses, hgateway, haddress,
        (pooled_newLease hsound howner hexecution hslot haddresses random).valid⟩
    case readBack => exact fun l hl => (hsealed l hl).valid
    case pooled => exact fun l hl => ⟨(hsealed l hl).slot, (hsealed l hl).addresses⟩
    case inside =>
      intro slot hslot a hlow hhigh
      have hwithin := (base_within hsound hslot).1
      have hstart : env.policy.pool.network.toNat ≤ env.policy.base slot := Nat.le_add_right _ _
      exact contains_iff.mpr (by omega)
    case apart => exact fun slot slot' hne => base_apart hne
    case accepted => exact haccepts.mpr honce

end Closure

namespace ListedHost

theorem fresh : machine.Fresh where
  files := rfl
  free _ := rfl
  processes pid info hpid := by
    dsimp only [machine] at hpid
    split at hpid
    · cases hpid
      rename_i hgarden
      rw [hgarden]
      decide
    · cases hpid
  clock := by decide

theorem reachable_onLinux {env : Environment ListedHost} (steps : List ℕ) :
    Reachable (OnLinux env) (Pool.start machine)
      (started machine [requestProcess env 1 none garden (provisionRequest "build-1")] steps) := by
  refine started_reachable fun p hp => ?_
  rw [List.mem_singleton.mp hp]
  exact .request 1 none garden _

/-- The journal after one request under the sample policy is closed. -/
theorem journal_closed_sample :
    JournalClosed sample (started machine
      [requestProcess sample 1 none garden (provisionRequest "build-1")]
      (List.replicate 60 0)).world.store :=
  (journal_closed_iff validate_policyFile fresh drawsDistinct (reachable_onLinux _)).mpr
    (by decide +kernel)

/-- The policy file of the host with its only unit named twice. -/
def twiceFile : PolicyFile := { policyFile with
  gardenUnits := ["sower-garden.service", "sower-garden.service"] }

/-- What the operations run in under that policy. -/
def twice : Environment ListedHost := environment
  { policy with gardenUnits := ["sower-garden.service", "sower-garden.service"] } random

/-- An admitted policy names a unit twice; after one request its own journal is rejected. -/
theorem unit_named_twice : Policy.validate twiceFile = .ok twice.policy ∧
    ∃ c, Reachable (OnLinux twice) (Pool.start machine) c ∧
      ¬ JournalClosed twice c.world.store := by
  refine ⟨rfl, _, reachable_onLinux (List.replicate 60 0), fun hclosed => ?_⟩
  obtain ⟨leases, m', ⟨es, hrun⟩, -⟩ := hclosed.accepted
  have hrejected : ((allRecords twice.faultless).run.result (started machine
      [requestProcess twice 1 none garden (provisionRequest "build-1")]
      (List.replicate 60 0)).world.store).toBool = false := by
    decide +kernel
  rw [Proc.result, hrun] at hrejected
  cases hrejected

end ListedHost

end Sower.Network
