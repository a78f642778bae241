import Sower.Network.Discipline

/-!
# The steps of the journal's discipline

Each kind of step that operations take keeps the invariant and stays within what
a step may do: steps that change nothing the discipline speaks about, steps that
take or give back a lock, announcements, and the three ways in which a journal
file appears, is replaced and goes.
-/

namespace Sower.Network

open Process Interleaving

variable {η : Type} {env : Environment η} {initial : List Lease} {i : ℕ} {w : Site η}

section Still

/-- Only files, temporaries and the host may differ, and random numbers be drawn. -/
structure Machine.FilesOnly (m m' : Machine η) : Prop where
  locks : m'.locks = m.locks
  processes : m'.processes = m.processes
  clock : m'.clock = m.clock
  sessions : m'.sessions = m.sessions
  draws : m.draws ≤ m'.draws

/-- The journal does not differ either. -/
structure Machine.Quiet (m m' : Machine η) : Prop extends Machine.FilesOnly m m' where
  files : m'.files = m.files

/-- A step that leaves the journal and the log as they are. -/
theorem Consistent.still (h : Consistent env initial w) {m : Machine η}
    (hfiles : m.files = w.store.files) (hsessions : w.store.sessions ≤ m.sessions)
    (hheld : ∀ name s, m.locks name = some s → ∃ j, Mine j w s)
    (hclock : w.store.clock ≤ m.clock) (hdraws : w.store.draws ≤ m.draws)
    (hstarted : ∀ pid info, m.processes pid = some info → info.starttime < m.clock) :
    Consistent env initial ⟨m, w.log⟩ where
  slots := by simpa only [hfiles] using h.slots
  tokens := by simpa only [hfiles] using h.tokens
  executions := by simpa only [hfiles] using h.executions
  units := by simpa only [hfiles] using h.units
  seen := by
    intro l hl
    rw [hfiles] at hl
    exact h.seen l hl
  drawn := by
    intro token hseen
    rcases h.drawn token hseen with hinitial | ⟨k, hk, htoken⟩
    · exact Or.inl hinitial
    · exact Or.inr ⟨k, hk.trans_le hdraws, htoken⟩
  revoked := h.revoked
  sessions := h.sessions
  single := h.single
  numbered := by
    intro j s c hopened
    exact (h.numbered j s c hopened).trans_le hsessions
  held := hheld
  recorded := by
    intro l hl
    rw [hfiles] at hl
    exact (h.recorded l hl).trans_le hclock
  started := hstarted

/-- What such a step may do to locks and processes. -/
theorem Step.still (h : Consistent env initial w) {m : Machine η}
    (hfiles : m.files = w.store.files)
    (hlocks : ∀ name s, w.store.locks name = some s → ¬ Mine i w s → m.locks name = some s)
    (hidentities : w.store.clock ≤ m.clock ∧ ∀ pid info', m.processes pid = some info' →
      info'.starttime < w.store.clock →
        ∃ info, w.store.processes pid = some info ∧ info.starttime = info'.starttime)
    (hdraws : w.store.draws ≤ m.draws) : Step env initial i w ⟨m, w.log⟩ where
  log := ⟨[], by simp⟩
  locks := hlocks
  members := by
    refine Or.inr ⟨fun core => ?_, fun token hseen => hseen⟩
    simp only [HasCore, hfiles]
  covered l := Or.inr (by rw [hfiles])
  revoking token h := Or.inl h
  fresh := by
    intro l hl
    rw [hfiles] at hl
    exact Or.inl ⟨l, hl, rfl⟩
  settled := by
    intro l hl l' hl' htoken hsettled
    rw [hfiles] at hl'
    rwa [← h.eq_of_token hl hl' htoken]
  activates := by
    intro l hl _
    rw [hfiles] at hl
    exact Or.inl hl
  entitled := by
    intro l hl _ _ hgone
    rw [hfiles] at hgone
    exact absurd hl hgone
  returned owner l h := Or.inl h
  identities := hidentities
  draws := hdraws

/-- A quiet step is within what every process may do. -/
theorem quiet_step (h : Consistent env initial w) {m : Machine η} (hquiet : w.store.Quiet m) :
    Consistent env initial ⟨m, w.log⟩ ∧ ∀ j, Step env initial j w ⟨m, w.log⟩ := by
  obtain ⟨⟨hlocks, hprocesses, hclock, hsessions, hdraws⟩, hfiles⟩ := hquiet
  constructor
  · refine h.still hfiles hsessions.ge (hlocks ▸ h.held) hclock.ge hdraws ?_
    rw [hprocesses, hclock]
    exact h.started
  · intro j
    refine .still h hfiles ?_ ⟨hclock.ge, ?_⟩ hdraws
    · rw [hlocks]
      exact fun name s hs _ => hs
    · rw [hprocesses]
      exact fun pid info hinfo _ => ⟨info, hinfo, rfl⟩

/-- The machine with one lock file held by a session or by none. -/
def Machine.setLock (m : Machine η) (name : LockName) (holder : Option ℕ) : Machine η :=
  { m with locks := Function.update m.locks name holder }

/-- Taking a lock that is free is within what every process may do. -/
theorem lock_step (h : Consistent env initial w) {m : Machine η} (hquiet : w.store.Quiet m)
    {name : LockName} (hfree : m.locks name = none) {session : ℕ}
    (hsession : ∃ j, Mine j w session) :
    Consistent env initial ⟨m.setLock name (some session), w.log⟩ ∧
      ∀ j, Step env initial j w ⟨m.setLock name (some session), w.log⟩ := by
  obtain ⟨⟨hlocks, hprocesses, hclock, hsessions, hdraws⟩, hfiles⟩ := hquiet
  constructor
  · refine h.still hfiles hsessions.ge ?_ hclock.ge hdraws ?_
    · intro other s hs
      change Function.update m.locks name (some session) other = some s at hs
      rcases eq_or_ne other name with rfl | hne
      · rw [Function.update_self] at hs
        cases hs
        exact hsession
      · rw [Function.update_of_ne hne, hlocks] at hs
        exact h.held other s hs
    change ∀ pid info, m.processes pid = some info → info.starttime < m.clock
    rw [hprocesses, hclock]
    exact h.started
  · intro j
    refine .still h hfiles ?_ ⟨hclock.ge, ?_⟩ hdraws
    · intro other s hs _
      rw [hlocks] at hfree
      have hne : other ≠ name := by
        rintro rfl
        rw [hfree] at hs
        cases hs
      change Function.update m.locks name (some session) other = some s
      rw [Function.update_of_ne hne, hlocks]
      exact hs
    · change ∀ pid info', m.processes pid = some info' → _
      rw [hprocesses]
      exact fun pid info hinfo _ => ⟨info, hinfo, rfl⟩

/-- Giving locks back is up to the process that holds them. -/
theorem unlock_step (h : Consistent env initial w) {locks : LockName → Option ℕ}
    (hlocks : ∀ name s, w.store.locks name = some s → ¬ Mine i w s → locks name = some s)
    (hheld : ∀ name s, locks name = some s → w.store.locks name = some s) :
    Consistent env initial ⟨{ w.store with locks := locks }, w.log⟩ ∧
      Step env initial i w ⟨{ w.store with locks := locks }, w.log⟩ := by
  constructor
  · exact h.still rfl le_rfl (fun name s hs => h.held name s (hheld name s hs)) le_rfl le_rfl h.started
  · exact .still h rfl hlocks ⟨le_rfl, fun pid info hinfo _ => ⟨info, hinfo, rfl⟩⟩ le_rfl

/-- A process table with one entry changed: either the entry goes, or a process starts
now, or it keeps its start time. -/
theorem process_step (h : Consistent env initial w) {pid : ℤ} {entry : Option ProcessInfo}
    {clock : ℕ} (hclock : w.store.clock ≤ clock)
    (hentry : ∀ info, entry = some info → info.starttime < clock ∧
      (info.starttime < w.store.clock →
        ∃ old, w.store.processes pid = some old ∧ old.starttime = info.starttime)) :
    let m := { w.store with
      processes := Function.update w.store.processes pid entry
      clock := clock }
    Consistent env initial ⟨m, w.log⟩ ∧ Step env initial i w ⟨m, w.log⟩ := by
  constructor
  · refine h.still rfl le_rfl h.held hclock le_rfl ?_
    intro other info hinfo
    change Function.update w.store.processes pid entry other = some info at hinfo
    rcases eq_or_ne other pid with rfl | hne
    · rw [Function.update_self] at hinfo
      exact (hentry info hinfo).1
    · rw [Function.update_of_ne hne] at hinfo
      exact (h.started other info hinfo).trans_le hclock
  · refine .still h rfl (fun _ _ hs _ => hs) ⟨hclock, ?_⟩ le_rfl
    intro other info hinfo hpast
    change Function.update w.store.processes pid entry other = some info at hinfo
    rcases eq_or_ne other pid with rfl | hne
    · rw [Function.update_self] at hinfo
      exact (hentry info hinfo).2 hpast
    · rw [Function.update_of_ne hne] at hinfo
      exact ⟨info, hinfo, rfl⟩

end Still

section Announcements

/-- The world after process `i` has logged an event. -/
abbrev announced (i : ℕ) (w : Site η) (e : LeaseEvent) : Site η := ⟨w.store, w.log ++ [(i, e)]⟩

theorem mem_announced {j : ℕ} {e e' : LeaseEvent} :
    (j, e') ∈ (announced i w e).log ↔ (j, e') ∈ w.log ∨ j = i ∧ e' = e := by
  simp only [List.mem_append, List.mem_singleton, Prod.mk.injEq]

theorem seen_announced {e : LeaseEvent} (he : ∀ l, e ≠ .created l) {token : String}
    (h : Seen initial (announced i w e) token) : Seen initial w token := by
  rcases h with hinitial | ⟨j, lease, hcreated, htoken⟩
  · exact Or.inl hinitial
  · rcases mem_announced.mp hcreated with hold | ⟨_, hnew⟩
    · exact Or.inr ⟨j, lease, hold, htoken⟩
    · exact absurd hnew.symm (he lease)

theorem revoking_announced {e : LeaseEvent} {token : String}
    (h : Revoking (announced i w e) token) : Revoking w token ∨ e = .revoking token := by
  obtain ⟨j, hmem⟩ := h
  rcases mem_announced.mp hmem with hold | ⟨_, hnew⟩
  · exact Or.inl ⟨j, hold⟩
  · exact Or.inr hnew.symm

theorem log_announced (e : LeaseEvent) : ∀ entry ∈ w.log, entry ∈ (announced i w e).log :=
  fun _ hentry => List.mem_append_left _ hentry

/-- Announcements other than of new leases and sessions keep the invariant. -/
theorem Consistent.announce (h : Consistent env initial w) {e : LeaseEvent}
    (hcreated : ∀ l, e ≠ .created l) (hopened : ∀ s c, e ≠ .opened s c)
    (hrevoking : ∀ token, e = .revoking token → Seen initial w token) :
    Consistent env initial (announced i w e) := by
  have hold : ∀ {j s c}, (j, .opened s c) ∈ (announced i w e).log → (j, .opened s c) ∈ w.log := by
    intro j s c hmem
    rcases mem_announced.mp hmem with hmem | ⟨_, hnew⟩
    · exact hmem
    · exact absurd hnew.symm (hopened s c)
  exact { h with
    seen := fun l hl => seen_mono (log_announced e) (h.seen l hl)
    drawn := fun token hseen => h.drawn token (seen_announced hcreated hseen)
    revoked := by
      intro token hrevoked
      rcases revoking_announced hrevoked with hrevoked | he
      · exact seen_mono (log_announced e) (h.revoked token hrevoked)
      · exact seen_mono (log_announced e) (hrevoking token he)
    sessions := fun j k s c c' hj hk => h.sessions j k s c c' (hold hj) (hold hk)
    single := fun j s s' c c' hj hk => h.single j s s' c c' (hold hj) (hold hk)
    numbered := fun j s c hj => h.numbered j s c (hold hj)
    held := fun name s hs => (h.held name s hs).imp fun _ => mine_mono (log_announced e) }

/-- An announcement changes nothing in the store. -/
theorem Step.announce (h : Consistent env initial w) {e : LeaseEvent}
    (hcreated : ∀ l, e ≠ .created l)
    (hrevoking : ∀ token, e = .revoking token →
      ∃ l ∈ w.store.files, l.token = token ∧ HoldsLock i w (l.lock env))
    (hreturned : ∀ owner l, e = .provisioned owner l → l ∈ w.store.files ∧ l.phase = .active ∧
      l.OwnedBy owner ∧ ∃ s req, (i, .opened s (.request owner req)) ∈ w.log) :
    Step env initial i w (announced i w e) := by
  have hstill : Step env initial i w ⟨w.store, w.log⟩ :=
    .still h rfl (fun _ _ hs _ => hs) ⟨le_rfl, fun _ info hinfo _ => ⟨info, hinfo, rfl⟩⟩ le_rfl
  exact { hstill with
    log := ⟨[e], rfl⟩
    members := Or.inr ⟨fun _ => Iff.rfl, fun _ => seen_announced hcreated⟩
    revoking := by
      intro token hrevoked
      rcases revoking_announced hrevoked with hold | he
      · exact Or.inl hold
      · exact Or.inr (hrevoking token he)
    returned := by
      intro owner l hmem
      rcases mem_announced.mp hmem with hold | ⟨_, hnew⟩
      · exact Or.inl hold
      · exact Or.inr (hreturned owner l hnew.symm) }

/-- A process that has logged nothing opens a session. -/
theorem open_step (h : Consistent env initial w) (hsilent : Contract.Silent i w)
    (caller : Caller) :
    let w' : Site η := ⟨{ w.store with sessions := w.store.sessions + 1 },
      w.log ++ [(i, .opened w.store.sessions caller)]⟩
    Consistent env initial w' ∧ Step env initial i w w' := by
  intro w'
  have hcreated : ∀ l, LeaseEvent.opened w.store.sessions caller ≠ .created l := by simp
  have hmem : ∀ {j s c}, (j, LeaseEvent.opened s c) ∈ w'.log →
      (j, LeaseEvent.opened s c) ∈ w.log ∨ j = i ∧ s = w.store.sessions ∧ c = caller := by
    intro j s c hj
    rcases mem_announced.mp hj with hold | ⟨hji, hnew⟩
    · exact Or.inl hold
    · cases hnew
      exact Or.inr ⟨hji, rfl, rfl⟩
  constructor
  · exact { h with
      seen := fun l hl => seen_mono (log_announced _) (h.seen l hl)
      drawn := fun token hseen => h.drawn token (seen_announced hcreated hseen)
      revoked := by
        intro token hrevoked
        rcases revoking_announced hrevoked with hold | he
        · exact seen_mono (log_announced _) (h.revoked token hold)
        · cases he
      sessions := by
        intro j k s c c' hj hk
        rcases hmem hj with hold | ⟨hji, hs, hc⟩ <;> rcases hmem hk with hold' | ⟨hki, hs', hc'⟩
        · exact h.sessions j k s c c' hold hold'
        · exact absurd (h.numbered _ _ _ (hs' ▸ hold)) (lt_irrefl _)
        · exact absurd (h.numbered _ _ _ (hs ▸ hold')) (lt_irrefl _)
        · exact ⟨hji.trans hki.symm, hc.trans hc'.symm⟩
      single := by
        intro j s s' c c' hj hk
        rcases hmem hj with hold | ⟨hji, hs, hc⟩ <;> rcases hmem hk with hold' | ⟨hki, hs', hc'⟩
        · exact h.single j s s' c c' hold hold'
        · exact absurd (hki ▸ hold) (hsilent _)
        · exact absurd (hji ▸ hold') (hsilent _)
        · exact ⟨hs.trans hs'.symm, hc.trans hc'.symm⟩
      numbered := by
        intro j s c hj
        rcases hmem hj with hold | ⟨_, rfl, _⟩
        · exact Nat.lt_succ_of_lt (h.numbered j s c hold)
        · exact Nat.lt_succ_self _
      held := fun name s hs => (h.held name s hs).imp fun _ => mine_mono (log_announced _) }
  · exact { Step.announce (i := i) h hcreated (by simp) (by simp) with }

end Announcements

section Edits

variable {m : Machine η} {lease : Lease}

theorem mem_put {other : Lease} : other ∈ (m.put lease).files ↔
    other = lease ∨ other ∈ m.files ∧ other.path ≠ lease.path := by
  simp only [Machine.put, List.mem_cons, List.mem_filter, bne_iff_ne]

/-- Keys stay distinct when only the file that is replaced may have the key. -/
theorem nodup_put {κ : Type} {key : Lease → κ} (h : (m.files.map key).Nodup)
    (hkey : ∀ f ∈ m.files, key f = key lease → f.path = lease.path) :
    ((m.put lease).files.map key).Nodup := by
  change (key lease :: (m.files.filter _).map key).Nodup
  refine List.nodup_cons.mpr ⟨?_, h.sublist (List.filter_sublist.map key)⟩
  intro hmem
  obtain ⟨f, hf, heq⟩ := List.mem_map.mp hmem
  obtain ⟨hfile, hpath⟩ := List.mem_filter.mp hf
  exact (bne_iff_ne.mp hpath) (hkey f hfile heq)

/-- The world after a step that edits the journal. -/
abbrev edited (i : ℕ) (w : Site η) (m : Machine η) (e : LeaseEvent) : Site η :=
  ⟨m, w.log ++ [(i, e)]⟩

variable {e : LeaseEvent}

/-- What an edit has to show for the invariant. -/
theorem Consistent.edit (h : Consistent env initial w) (honly : w.store.FilesOnly m)
    (hopened : ∀ s c, e ≠ .opened s c) (hrevoking : ∀ token, e ≠ .revoking token)
    (hslots : (m.files.map Lease.slot).Nodup) (htokens : (m.files.map Lease.token).Nodup)
    (hexecutions : (m.files.map fun l => (l.instanceName, l.executionId)).Nodup)
    (hunits : ∀ l ∈ m.files, l.instanceName ∈ env.policy.gardenUnits)
    (hrecorded : ∀ l ∈ m.files, l.ownerStarttime < w.store.clock)
    (hseen : ∀ l ∈ m.files, Seen initial w l.token ∨ e = .created l)
    (hdrawn : ∀ l, e = .created l → ∃ k < w.store.draws, ∃ random, env.random k = some random ∧
      l.token = tokenOf random) :
    Consistent env initial (edited i w m e) := by
  have hold : ∀ {j s c}, (j, .opened s c) ∈ (edited i w m e).log → (j, .opened s c) ∈ w.log := by
    intro j s c hmem
    rcases mem_announced.mp hmem with hmem | ⟨_, hnew⟩
    · exact hmem
    · exact absurd hnew.symm (hopened s c)
  have hmono : ∀ entry ∈ w.log, entry ∈ (edited i w m e).log := log_announced e
  exact {
    slots := hslots
    tokens := htokens
    executions := hexecutions
    units := hunits
    seen := by
      intro l hl
      rcases hseen l hl with hseen | rfl
      · exact seen_mono hmono hseen
      · exact Or.inr ⟨i, l, mem_announced.mpr (Or.inr ⟨rfl, rfl⟩), rfl⟩
    drawn := by
      intro token hseen
      have hlate : ∀ {k}, k < w.store.draws → k < m.draws := fun hk => hk.trans_le honly.draws
      rcases hseen with hinitial | ⟨j, l, hcreated, rfl⟩
      · exact Or.inl hinitial
      · rcases mem_announced.mp hcreated with hmem | ⟨_, hnew⟩
        · rcases h.drawn l.token (Or.inr ⟨j, l, hmem, rfl⟩) with hinitial | ⟨k, hk, htoken⟩
          · exact Or.inl hinitial
          · exact Or.inr ⟨k, hlate hk, htoken⟩
        · obtain ⟨k, hk, htoken⟩ := hdrawn l hnew.symm
          exact Or.inr ⟨k, hlate hk, htoken⟩
    revoked := by
      intro token hrevoked
      rcases revoking_announced hrevoked with hold | he
      · exact seen_mono hmono (h.revoked token hold)
      · exact absurd he (hrevoking token)
    sessions := fun j k s c c' hj hk => h.sessions j k s c c' (hold hj) (hold hk)
    single := fun j s s' c c' hj hk => h.single j s s' c c' (hold hj) (hold hk)
    numbered := by
      intro j s c hj
      change s < m.sessions
      rw [honly.sessions]
      exact h.numbered j s c (hold hj)
    held := by
      change ∀ name s, m.locks name = some s → ∃ j, Mine j (edited i w m e) s
      rw [honly.locks]
      exact fun name s hs => (h.held name s hs).imp fun _ => mine_mono hmono
    recorded := by
      change ∀ l ∈ m.files, l.ownerStarttime < m.clock
      rw [honly.clock]
      exact hrecorded
    started := by
      change ∀ pid info, m.processes pid = some info → info.starttime < m.clock
      rw [honly.processes, honly.clock]
      exact h.started }

/-- What an edit has to show for the discipline. -/
theorem Step.edit (honly : w.store.FilesOnly m) (hrevoking : ∀ token, e ≠ .revoking token)
    (hprovisioned : ∀ owner l, e ≠ .provisioned owner l)
    (hmembers : HoldsLock i w .global ∨ (∀ core, HasCore m core ↔ HasCore w.store core) ∧
      ∀ token, Seen initial (edited i w m e) token → Seen initial w token)
    (hcovered : ∀ l, HoldsLock i w (l.lock env) ∨ (l ∈ m.files ↔ l ∈ w.store.files))
    (hfresh : ∀ l ∈ m.files, HasCore w.store l.core ∨ ¬ Seen initial w l.token)
    (hsettled : ∀ l ∈ w.store.files, ∀ l' ∈ m.files, l.token = l'.token →
      l.phase.Settled → l'.phase.Settled)
    (hactivates : ∀ l ∈ m.files, l.phase = .active →
      l ∈ w.store.files ∨ ¬ Revoking w l.token)
    (hentitled : ∀ l ∈ w.store.files, l.phase = .active → Alive w.store l → l ∉ m.files →
      ∃ s caller, (i, .opened s caller) ∈ w.log ∧ caller.Entitled l) :
    Step env initial i w (edited i w m e) where
  log := ⟨[e], rfl⟩
  locks := by
    intro name s hs _
    change m.locks name = some s
    rwa [honly.locks]
  members := hmembers
  covered := hcovered
  revoking := by
    intro token hrevoked
    rcases revoking_announced hrevoked with hold | he
    · exact Or.inl hold
    · exact absurd he (hrevoking token)
  fresh := hfresh
  settled := hsettled
  activates := hactivates
  entitled := hentitled
  returned := by
    intro owner l hmem
    rcases mem_announced.mp hmem with hold | ⟨_, hnew⟩
    · exact Or.inl hold
    · exact absurd hnew.symm (hprovisioned owner l)
  identities := by
    refine ⟨honly.clock.ge, ?_⟩
    change ∀ pid info', m.processes pid = some info' → _
    rw [honly.processes]
    exact fun pid info hinfo _ => ⟨info, hinfo, rfl⟩
  draws := honly.draws

/-- An entitled caller replaces the file of a lease behind the lock of its execution. -/
theorem save_step (h : Consistent env initial w) (honly : w.store.FilesOnly m)
    (hfiles : m.files = (w.store.put lease).files) {f : Lease} (hf : f ∈ w.store.files)
    (hcore : f.core = lease.core) (hlock : HoldsLock i w (lease.lock env))
    (hsettled : f.phase.Settled → lease.phase.Settled)
    (hactive : lease.phase = .active → ¬ Revoking w lease.token)
    (hentitled : f.phase = .active → Alive w.store f →
      ∃ s caller, (i, .opened s caller) ∈ w.log ∧ caller.Entitled f) :
    Consistent env initial (edited i w m (.saved lease)) ∧
      Step env initial i w (edited i w m (.saved lease)) := by
  have hmem : ∀ l, l ∈ m.files ↔ l = lease ∨ l ∈ w.store.files ∧ l.path ≠ lease.path := by
    intro l
    rw [hfiles]
    exact mem_put
  have hpath : f.path = lease.path := path_of_core hcore
  obtain ⟨htoken, hslot, hinstance, hexecution, -, -, hstart⟩ := eq_of_core hcore
  -- The replaced file is the only one with a key of its own.
  have hunique : ∀ {κ : Type} {key : Lease → κ}, (w.store.files.map key).Nodup →
      key f = key lease → ∀ g ∈ w.store.files, key g = key lease → g.path = lease.path := by
    intro κ key hnodup hkey g hg hgkey
    rw [List.inj_on_of_nodup_map hnodup hg hf (hgkey.trans hkey.symm), hpath]
  have hother : ∀ {g}, g ∈ w.store.files → g.path ≠ lease.path → g.token ≠ lease.token := by
    intro g hg hne hgtoken
    exact hne (hunique h.tokens htoken g hg hgtoken)
  constructor
  · refine h.edit honly (by simp) (by simp) ?_ ?_ ?_ ?_ ?_ ?_ (by simp)
    · rw [hfiles]
      exact nodup_put h.slots (hunique h.slots hslot)
    · rw [hfiles]
      exact nodup_put h.tokens (hunique h.tokens htoken)
    · rw [hfiles]
      exact nodup_put h.executions (hunique h.executions (by rw [hinstance, hexecution]))
    · intro l hl
      rcases (hmem l).mp hl with rfl | ⟨hold, _⟩
      · exact hinstance ▸ h.units f hf
      · exact h.units l hold
    · intro l hl
      rcases (hmem l).mp hl with rfl | ⟨hold, _⟩
      · exact hstart ▸ h.recorded f hf
      · exact h.recorded l hold
    · intro l hl
      rcases (hmem l).mp hl with rfl | ⟨hold, _⟩
      · exact Or.inl (htoken ▸ h.seen f hf)
      · exact Or.inl (h.seen l hold)
  · refine .edit honly (by simp) (by simp) ?_ ?_ ?_ ?_ ?_ ?_
    · refine Or.inr ⟨fun core => ⟨?_, ?_⟩, fun _ => seen_announced (by simp)⟩
      · rintro ⟨g, hg, rfl⟩
        rcases (hmem g).mp hg with rfl | ⟨hold, _⟩
        · exact ⟨f, hf, hcore⟩
        · exact ⟨g, hold, rfl⟩
      · rintro ⟨g, hg, rfl⟩
        by_cases hgpath : g.path = lease.path
        · refine ⟨lease, (hmem lease).mpr (Or.inl rfl), ?_⟩
          have hgf : g = f := h.eq_of_token hg hf (by
            rw [htoken]
            exact congrArg Prod.snd hgpath)
          rw [hgf, hcore]
        · exact ⟨g, (hmem g).mpr (Or.inr ⟨hg, hgpath⟩), rfl⟩
    · intro l
      by_cases hlcore : l.core = lease.core
      · exact Or.inl (@lock_of_core η env _ _ hlcore ▸ hlock)
      · refine Or.inr ⟨?_, ?_⟩
        · intro hl
          rcases (hmem l).mp hl with rfl | ⟨hold, _⟩
          · exact absurd rfl hlcore
          · exact hold
        · intro hl
          refine (hmem l).mpr (Or.inr ⟨hl, fun hlpath => hlcore ?_⟩)
          rw [h.eq_of_token hl hf ((congrArg Prod.snd hlpath).trans htoken.symm), hcore]
    · intro l hl
      rcases (hmem l).mp hl with rfl | ⟨hold, _⟩
      · exact Or.inl ⟨f, hf, hcore⟩
      · exact Or.inl ⟨l, hold, rfl⟩
    · intro l hl l' hl' hsame hlsettled
      rcases (hmem l').mp hl' with rfl | ⟨hold, hne⟩
      · rw [h.eq_of_token hl hf (hsame.trans htoken.symm)] at hlsettled
        exact hsettled hlsettled
      · rwa [← h.eq_of_token hl hold hsame]
    · intro l hl hphase
      rcases (hmem l).mp hl with rfl | ⟨hold, _⟩
      · exact Or.inr (hactive hphase)
      · exact Or.inl hold
    · intro l hl hphase halive hgone
      have hlf : l = f := by
        by_contra hne
        refine hgone ((hmem l).mpr (Or.inr ⟨hl, fun hlpath => hne ?_⟩))
        exact h.eq_of_token hl hf ((congrArg Prod.snd hlpath).trans htoken.symm)
      subst hlf
      exact hentitled hphase halive

/-- A lease of its own slot, token and execution appears behind both locks. -/
theorem create_step (h : Consistent env initial w) (honly : w.store.FilesOnly m)
    (hfiles : m.files = (w.store.put lease).files) (hglobal : HoldsLock i w .global)
    (hlock : HoldsLock i w (lease.lock env)) (hfresh : ¬ Seen initial w lease.token)
    (hslot : ∀ f ∈ w.store.files, f.slot ≠ lease.slot)
    (hexecution : ∀ f ∈ w.store.files,
      ¬ (f.instanceName = lease.instanceName ∧ f.executionId = lease.executionId))
    (hunit : lease.instanceName ∈ env.policy.gardenUnits)
    (hdrawn : ∃ k < w.store.draws, ∃ random, env.random k = some random ∧
      lease.token = tokenOf random)
    (hstart : lease.ownerStarttime < w.store.clock) (hphase : lease.phase = .reserved) :
    Consistent env initial (edited i w m (.created lease)) ∧
      Step env initial i w (edited i w m (.created lease)) := by
  have hnew : ∀ f ∈ w.store.files, f.token ≠ lease.token := by
    rintro f hf htoken
    exact hfresh (htoken ▸ h.seen f hf)
  have hmem : ∀ l, l ∈ m.files ↔ l = lease ∨ l ∈ w.store.files := by
    intro l
    rw [hfiles, mem_put]
    constructor
    · exact Or.imp_right And.left
    · refine Or.imp_right fun hl => ⟨hl, fun hpath => hnew l hl ?_⟩
      exact congrArg Prod.snd hpath
  constructor
  · refine h.edit honly (by simp) (by simp) ?_ ?_ ?_ ?_ ?_ ?_ ?_
    · rw [hfiles]
      exact nodup_put h.slots fun f hf heq => absurd heq (hslot f hf)
    · rw [hfiles]
      exact nodup_put h.tokens fun f hf heq => absurd heq (hnew f hf)
    · rw [hfiles]
      refine nodup_put h.executions fun f hf heq => absurd ?_ (hexecution f hf)
      exact ⟨congrArg Prod.fst heq, congrArg Prod.snd heq⟩
    · intro l hl
      rcases (hmem l).mp hl with rfl | hold
      · exact hunit
      · exact h.units l hold
    · intro l hl
      rcases (hmem l).mp hl with rfl | hold
      · exact hstart
      · exact h.recorded l hold
    · intro l hl
      rcases (hmem l).mp hl with rfl | hold
      · exact Or.inr rfl
      · exact Or.inl (h.seen l hold)
    · rintro l hl
      cases hl
      exact hdrawn
  · refine .edit honly (by simp) (by simp) (Or.inl hglobal) ?_ ?_ ?_ ?_ ?_
    · intro l
      by_cases hl : l = lease
      · exact Or.inl (hl ▸ hlock)
      · exact Or.inr ⟨fun hmem' => ((hmem l).mp hmem').resolve_left hl,
          fun hold => (hmem l).mpr (Or.inr hold)⟩
    · intro l hl
      rcases (hmem l).mp hl with rfl | hold
      · exact Or.inr hfresh
      · exact Or.inl ⟨l, hold, rfl⟩
    · intro l hl l' hl' hsame hlsettled
      rcases (hmem l').mp hl' with rfl | hold
      · exact absurd hsame (hnew l hl)
      · rwa [← h.eq_of_token hl hold hsame]
    · intro l hl hactive
      rcases (hmem l).mp hl with rfl | hold
      · rw [hphase] at hactive
        cases hactive
      · exact Or.inl hold
    · intro l hl _ _ hgone
      exact absurd ((hmem l).mpr (Or.inr hl)) hgone

/-- An entitled caller removes the file of a lease behind both locks. -/
theorem remove_step (h : Consistent env initial w) (honly : w.store.FilesOnly m)
    (hfiles : m.files = w.store.files.filter fun other => other.path != lease.path)
    {f : Lease} (hf : f ∈ w.store.files) (hcore : f.core = lease.core)
    (hglobal : HoldsLock i w .global) (hlock : HoldsLock i w (lease.lock env))
    (hentitled : f.phase = .active → Alive w.store f →
      ∃ s caller, (i, .opened s caller) ∈ w.log ∧ caller.Entitled f) :
    Consistent env initial (edited i w m (.removed f)) ∧
      Step env initial i w (edited i w m (.removed f)) := by
  have hmem : ∀ l, l ∈ m.files ↔ l ∈ w.store.files ∧ l ≠ f := by
    intro l
    rw [hfiles, List.mem_filter, bne_iff_ne]
    refine and_congr_right fun hl => not_congr ⟨fun hpath => ?_, fun heq => ?_⟩
    · exact h.eq_of_token hl hf (congrArg Prod.snd (hpath.trans (path_of_core hcore).symm))
    · rw [heq, path_of_core hcore]
  have hsublist : m.files.Sublist w.store.files := by
    rw [hfiles]
    exact List.filter_sublist
  constructor
  · refine h.edit honly (by simp) (by simp) (h.slots.sublist (hsublist.map _))
      (h.tokens.sublist (hsublist.map _)) (h.executions.sublist (hsublist.map _)) ?_ ?_ ?_
      (by simp)
    · exact fun l hl => h.units l ((hmem l).mp hl).1
    · exact fun l hl => h.recorded l ((hmem l).mp hl).1
    · exact fun l hl => Or.inl (h.seen l ((hmem l).mp hl).1)
  · refine .edit honly (by simp) (by simp) (Or.inl hglobal) ?_ ?_ ?_ ?_ ?_
    · intro l
      by_cases hl : l = f
      · subst hl
        exact Or.inl (@lock_of_core η env _ _ hcore ▸ hlock)
      · exact Or.inr ⟨fun hmem' => ((hmem l).mp hmem').1, fun hold => (hmem l).mpr ⟨hold, hl⟩⟩
    · exact fun l hl => Or.inl ⟨l, ((hmem l).mp hl).1, rfl⟩
    · intro l hl l' hl' hsame hlsettled
      rwa [← h.eq_of_token hl ((hmem l').mp hl').1 hsame]
    · exact fun l hl _ => Or.inl ((hmem l).mp hl).1
    · intro l hl hphase halive hgone
      have hlf : l = f := by
        by_contra hne
        exact hgone ((hmem l).mpr ⟨hl, hne⟩)
      subst hlf
      exact hentitled hphase halive

end Edits

end Sower.Network
