import Sower.Network.HostLaws
import Sower.Network.Leases

/-!
# Recovery after a killed provision

A provision that is killed leaves its lease in the journal, in the phase that was
saved last, and on the host whatever had been set up. The cleanup that root runs
afterwards removes a lease together with its resources exactly when it finds them
marked as the lease's own.
-/

namespace Sower.Network

open Process Interleaving

variable {η α β : Type} {env : Environment η} {view : HostView η}

section Runs

/-- The undisturbed run of an operation. -/
def Runs (p : Op η α) (m : Machine η) (outcome : Except String α) (m' : Machine η) : Prop :=
  ∃ es, p.run.run m = (outcome, m', es)

theorem runs_pure (value : α) (m : Machine η) : Runs (pure value) m (.ok value) m := ⟨[], rfl⟩

theorem runs_lift {outcome result : Except String α} (h : outcome = result) (m : Machine η) :
    Runs (Fallible.lift outcome) m result m := ⟨[], by rw [h]; rfl⟩

theorem Runs.bind {p : Op η α} {k : α → Op η β} {m m' m'' : Machine η} {value : α}
    {outcome : Except String β} (hp : Runs p m (.ok value) m')
    (hk : Runs (k value) m' outcome m'') : Runs (p >>= k) m outcome m'' := by
  obtain ⟨es, hes⟩ := hp
  obtain ⟨es', hes'⟩ := hk
  exact ⟨es ++ es', by simp only [Fallible.run_bind, Proc.run_bind, hes, hes']⟩

theorem Runs.bind_error {p : Op η α} {k : α → Op η β} {m m' : Machine η} {message : String}
    (hp : Runs p m (.error message) m') : Runs (p >>= k) m (.error message) m' := by
  obtain ⟨es, hes⟩ := hp
  exact ⟨es ++ [], by simp only [Fallible.run_bind, Proc.run_bind, hes]; rfl⟩

theorem Runs.attempt {p : Op η α} {m m' : Machine η} {outcome : Except String α}
    (hp : Runs p m outcome m') : Runs (Fallible.attempt p) m (.ok outcome) m' := by
  obtain ⟨es, hes⟩ := hp
  refine ⟨es ++ [], ?_⟩
  simp only [Fallible.attempt, ExceptT.run_mk, Proc.run_bind, hes]
  rfl

theorem runs_atomic (f : Machine η → (Machine η × List LeaseEvent) × Except String α)
    (m : Machine η) : Runs (Fallible.atomic f) m (f m).2 (f m).1.1 :=
  ⟨(f m).1.2, by simp only [Fallible.atomic, ExceptT.run_mk, Proc.run_atomic]⟩

theorem Does.runs {p : Op η α} {m : Machine η} {outcome : Except String α} {h' : η}
    (h : Does p m.host outcome h') : Runs p m outcome { m with host := h' } := ⟨[], h m rfl⟩

/-- From here on neither commands nor file operations fail. -/
structure Ready (env : Environment η) (view : HostView η) (m : Machine η) : Prop where
  host : view.sound m.host
  files : ∀ t, m.ticks ≤ t → env.faults t = false

theorem Ready.tick {m : Machine η} (h : Ready env view m) :
    Ready env view { m with ticks := m.ticks + 1 } :=
  ⟨h.host, fun t ht => h.files t (Nat.le_of_succ_le ht)⟩

theorem runs_io {m : Machine η} (h : Ready env view m)
    (f : Machine η → (Machine η × List LeaseEvent) × Except String α) :
    Runs (io env f) m (f { m with ticks := m.ticks + 1 }).2
      (f { m with ticks := m.ticks + 1 }).1.1 := by
  have hrun := runs_atomic (fun m => if env.faults m.ticks then
      (({ m with ticks := m.ticks + 1 }, []), .error "input/output error")
    else f { m with ticks := m.ticks + 1 }) m
  simpa only [io, h.files m.ticks le_rfl, Bool.false_eq_true, if_false] using hrun

/-- The machine with a lock just taken. -/
abbrev locked (m : Machine η) (name : LockName) (session : ℕ) : Machine η :=
  { m with ticks := m.ticks + 1 }.setLock name (some session)

end Runs

section Files

variable {lease : Lease} {m : Machine η}

/-- Files, locks and host are the same. -/
structure Calm (env : Environment η) (view : HostView η) (m m' : Machine η) : Prop where
  ready : Ready env view m'
  files : m'.files = m.files
  locks : m'.locks = m.locks
  host : m'.host = m.host

theorem Calm.trans {m m' m'' : Machine η} (h : Calm env view m m') (h' : Calm env view m' m'') :
    Calm env view m m'' :=
  ⟨h'.ready, h'.files.trans h.files, h'.locks.trans h.locks, h'.host.trans h.host⟩

theorem calm_tick (h : Ready env view m) : Calm env view m { m with ticks := m.ticks + 1 } :=
  ⟨h.tick, rfl, rfl, rfl⟩

/-- A file of the journal is found under its path. -/
theorem file?_of_mem (htokens : (m.files.map Lease.token).Nodup) (hmem : lease ∈ m.files) :
    m.file? lease.instanceName lease.token = some lease := by
  cases hfile : m.file? lease.instanceName lease.token with
  | none => exact absurd (beq_self_eq_true _) (List.find?_eq_none.mp hfile lease hmem)
  | some found =>
    obtain ⟨hfound, -, htoken⟩ := mem_of_file? hfile
    rw [List.inj_on_of_nodup_map htokens hfound hmem htoken]

/-- The file of a lease is rejected only for what its checks find. -/
theorem checkRecord_self (lease : Lease) (message : String) :
    checkRecord lease.instanceName lease.token message lease = lease.validate := by
  have hsame : ensure (lease.token == lease.token && lease.instanceName == lease.instanceName)
      message = .ok () := ensure_ok.mpr (by simp)
  rw [checkRecord, hsame]
  cases lease.validate with
  | ok _ => rfl
  | error _ => rfl

theorem runs_readFile {message : String} (h : Ready env view m)
    (htokens : (m.files.map Lease.token).Nodup) (hmem : lease ∈ m.files) :
    ∃ m', Runs (readFile env lease.instanceName lease.token message) m
      (lease.validate.map fun _ => lease) m' ∧ Calm env view m m' := by
  refine ⟨_, ?_, calm_tick h⟩
  have hrun : Runs (readFile env lease.instanceName lease.token message) m _ _ := runs_io h _
  have hfile : Machine.file? { m with ticks := m.ticks + 1 } lease.instanceName lease.token =
      some lease := file?_of_mem htokens hmem
  simp only [hfile, checkRecord_self] at hrun
  exact hrun

end Files

section Rounds

variable {lease : Lease} {m m' m'' : Machine η} {me : Session}

theorem HostView.Elsewhere.refl {h : η} (hsound : view.sound h) : view.Elsewhere lease h h :=
  ⟨hsound, fun _ _ => rfl, fun _ _ _ => rfl⟩

theorem HostView.Elsewhere.trans {h h' h'' : η} (hfirst : view.Elsewhere lease h h')
    (hsecond : view.Elsewhere lease h' h'') : view.Elsewhere lease h h'' :=
  ⟨hsecond.sound, fun tap htap => (hsecond.links tap htap).trans (hfirst.links tap htap),
    fun family name hother =>
      (hsecond.tables family name hother).trans (hfirst.tables family name hother)⟩

/-- Neither the journal nor the host has anything of the lease any more. -/
def Recovered (view : HostView η) (lease : Lease) (m : Machine η) : Prop :=
  (∀ f ∈ m.files, f.token ≠ lease.token) ∧ Unused view lease m.host

/-- The host has nothing of a lease that is only reserved; what bears the names of another
lease carries its marks. -/
def Recoverable (view : HostView η) (lease : Lease) (h : η) : Prop :=
  if lease.phase = .reserved then Unused view lease h else Marked view lease h

/-- Every file has the token and the slot of one that was there before. -/
def Inherits (m m' : Machine η) : Prop :=
  ∀ f ∈ m'.files, ∃ g ∈ m.files, g.token = f.token ∧ g.slot = f.slot

theorem Inherits.trans (h : Inherits m m') (h' : Inherits m' m'') : Inherits m m'' := by
  intro f hf
  obtain ⟨g, hg, htoken, hslot⟩ := h' f hf
  obtain ⟨g', hg', htoken', hslot'⟩ := h g hg
  exact ⟨g', hg', htoken'.trans htoken, hslot'.trans hslot⟩

/-- What a round of cleanup does with its lease, and that it leaves the others alone. -/
structure Round (env : Environment η) (view : HostView η) (lease : Lease) (m m' : Machine η) :
    Prop where
  ready : Ready env view m'
  locks : m'.locks = m.locks
  host : view.Elsewhere lease m.host m'.host
  tokens : (m'.files.map Lease.token).Nodup
  others : ∀ f, f.token ≠ lease.token → (f ∈ m'.files ↔ f ∈ m.files)
  inherits : Inherits m m'
  recovered : Recovered view lease m' ↔ Recoverable view lease m.host

end Rounds

section Listing

variable {m : Machine η} {me : Session}

/-- The files of a directory are read if all of them pass their checks. -/
theorem runs_readRecords {unit : String} {leases : List Lease} (h : Ready env view m)
    (htokens : (m.files.map Lease.token).Nodup)
    (hleases : ∀ l ∈ leases, l ∈ m.files ∧ l.instanceName = unit) :
    ∃ outcome m', Runs (readRecords env unit (leases.map Lease.token)) m outcome m' ∧
      Calm env view m m' ∧ ((∀ l ∈ leases, l.validate = .ok ()) → outcome = .ok leases) ∧
      ((∃ l ∈ leases, l.validate ≠ .ok ()) → ∃ message, outcome = .error message) := by
  induction leases generalizing m with
  | nil => exact ⟨.ok [], m, runs_pure _ _, ⟨h, rfl, rfl, rfl⟩, fun _ => rfl, by simp⟩
  | cons lease rest ih =>
    obtain ⟨hmem, hunit⟩ := hleases lease List.mem_cons_self
    obtain ⟨m₁, hread, hcalm⟩ := @runs_readFile _ env view _ _
      "journal filename or instance mismatch" h htokens hmem
    rw [hunit] at hread
    rcases hvalid : lease.validate with message | _
    · rw [hvalid] at hread
      refine ⟨.error message, m₁, hread.bind_error, hcalm, fun hall => ?_, fun _ => ⟨_, rfl⟩⟩
      rw [hall lease List.mem_cons_self] at hvalid
      cases hvalid
    · rw [hvalid] at hread
      obtain ⟨outcome, m₂, hrest, hcalm', hok, herror⟩ := @ih m₁ hcalm.ready
        (by rw [hcalm.files]; exact htokens)
        (by rw [hcalm.files]; exact fun l hl => hleases l (List.mem_cons_of_mem _ hl))
      cases outcome with
      | error message =>
        refine ⟨.error message, m₂, hread.bind hrest.bind_error, hcalm.trans hcalm',
          fun hall => ?_, fun _ => ⟨_, rfl⟩⟩
        have hall' := hok fun l hl => hall l (List.mem_cons_of_mem _ hl)
        cases hall'
      | ok others =>
        refine ⟨.ok (lease :: others), m₂, hread.bind (hrest.bind (runs_pure _ _)),
          hcalm.trans hcalm', fun hall => ?_, fun hbad => ?_⟩
        · have hall' := hok fun l hl => hall l (List.mem_cons_of_mem _ hl)
          cases hall'
          rfl
        · obtain ⟨l, hl, hinvalid⟩ := hbad
          rcases List.mem_cons.mp hl with rfl | hl
          · exact absurd hvalid hinvalid
          · obtain ⟨message, hmessage⟩ := herror ⟨l, hl, hinvalid⟩
            cases hmessage

/-- The records of an instance are its files, in some order. -/
theorem runs_recordsIn (unit : String) (h : Ready env view m)
    (htokens : (m.files.map Lease.token).Nodup) :
    ∃ (leases : List Lease) (outcome : Except String (List Lease)) (m' : Machine η),
      leases.Perm (m.files.filter fun l => l.instanceName == unit) ∧
      Runs (recordsIn env unit) m outcome m' ∧ Calm env view m m' ∧
      ((∀ l ∈ leases, l.validate = .ok ()) → outcome = .ok leases) ∧
      ((∃ l ∈ leases, l.validate ≠ .ok ()) → ∃ message, outcome = .error message) := by
  have hlist := runs_io h fun m : Machine η => ((m, []),
    (.ok (env.listing m.ticks ((m.files.filter fun l => l.instanceName == unit).map Lease.token)) :
      Except String (List String)))
  have hperm := env.listing_perm (m.ticks + 1)
    ((m.files.filter fun l => l.instanceName == unit).map Lease.token)
  have hpairs : List.Forall₂ (fun token (l : Lease) => token = l.token)
      ((m.files.filter fun l => l.instanceName == unit).map Lease.token)
      (m.files.filter fun l => l.instanceName == unit) :=
    List.forall₂_map_left_iff.mpr (List.forall₂_same.mpr fun _ _ => rfl)
  obtain ⟨leases, hnames, hleases⟩ := List.perm_comp_forall₂ hperm hpairs
  have htokensOf : env.listing (m.ticks + 1)
      ((m.files.filter fun l => l.instanceName == unit).map Lease.token) =
        leases.map Lease.token :=
    List.forall₂_eq_eq_eq ▸ List.forall₂_map_right_iff.mpr hnames
  have hmem : ∀ l ∈ leases, l ∈ m.files ∧ l.instanceName = unit := by
    intro l hl
    obtain ⟨hfile, hname⟩ := List.mem_filter.mp (hleases.mem_iff.mp hl)
    exact ⟨hfile, beq_iff_eq.mp hname⟩
  obtain ⟨outcome, m', hread, hcalm, hok, herror⟩ :=
    @runs_readRecords η env view { m with ticks := m.ticks + 1 } unit leases h.tick htokens hmem
  rw [← htokensOf] at hread
  exact ⟨leases, outcome, m', hleases, hlist.bind hread, (calm_tick h).trans hcalm, hok, herror⟩

end Listing

section Neighbours

variable {lease other : Lease} {h h' : η}

/-- The leases have no name in common. -/
def Apart (lease other : Lease) : Prop := lease.token ≠ other.token ∧ lease.tap ≠ other.tap

theorem not_ownTable (hapart : Apart lease other) {family name : String}
    (hown : other.OwnTable family name) : ¬ lease.OwnTable family name := by
  rcases hown with ⟨rfl, rfl⟩ | ⟨rfl, rfl⟩
  · rintro (⟨-, hname⟩ | ⟨hfamily, -⟩)
    · exact hapart.1 (String.append_right_inj "sower_network_" |>.mp hname.symm)
    · simp at hfamily
  · rintro (⟨hfamily, -⟩ | ⟨-, hname⟩)
    · simp at hfamily
    · exact hapart.1 (String.append_right_inj "sower_netdev_" |>.mp hname.symm)

theorem HostView.Elsewhere.unused (helse : view.Elsewhere lease h h') (hapart : Apart lease other) :
    Unused view other h' ↔ Unused view other h := by
  have hlinks := helse.links other.tap hapart.2.symm
  refine and_congr ?_ ?_
  · have hsame : ∀ link, link.ifname = other.tap → (link ∈ view.links h' ↔ link ∈ view.links h) := by
      intro link hname
      have hmem : link ∈ (view.links h').filter (·.ifname == other.tap) ↔
          link ∈ (view.links h).filter (·.ifname == other.tap) := by rw [hlinks]
      simpa only [List.mem_filter, beq_iff_eq, hname, and_true] using hmem
    constructor
    · exact fun hall link hlink hname => hall link ((hsame link hname).mpr hlink) hname
    · exact fun hall link hlink hname => hall link ((hsame link hname).mp hlink) hname
  · have hsame : ∀ t : TableEntry, other.OwnTable t.family t.name →
        (t ∈ view.tables h' ↔ t ∈ view.tables h) := by
      intro t hown
      have hmem : t ∈ (view.tables h').filter (fun e => e.family == t.family && e.name == t.name) ↔
          t ∈ (view.tables h).filter fun e => e.family == t.family && e.name == t.name := by
        rw [helse.tables t.family t.name (not_ownTable hapart hown)]
      simpa only [List.mem_filter, beq_self_eq_true, Bool.and_self, and_true] using hmem
    constructor
    · exact fun hall t ht hown => hall t ((hsame t hown).mpr ht) hown
    · exact fun hall t ht hown => hall t ((hsame t hown).mp ht) hown

theorem HostView.Elsewhere.recoverable (helse : view.Elsewhere lease h h')
    (hapart : Apart lease other) : Recoverable view other h' ↔ Recoverable view other h := by
  have hlink : ownedLink other (view.links h') = ownedLink other (view.links h) := by
    simp only [ownedLink, ← List.head?_filter, helse.links other.tap hapart.2.symm]
  have htable : ∀ family name, other.OwnTable family name →
      ownedTable family name (view.tables h') = ownedTable family name (view.tables h) :=
    fun family name hown => ownedTable_congr (helse.tables family name (not_ownTable hapart hown))
  unfold Recoverable
  split
  · exact helse.unused hapart
  · rw [Marked, Marked, hlink, htable _ _ (Or.inl ⟨rfl, rfl⟩), htable _ _ (Or.inr ⟨rfl, rfl⟩)]

end Neighbours

section Cleanup

variable {lease : Lease} {m : Machine η} {me : Session}

/-- A round within a block behind a lock. -/
theorem Round.within {m₁ m₂ : Machine η} (h : Round env view lease m₁ m₂)
    (hfiles : m₁.files = m.files) (hhost : m₁.host = m.host) :
    Round env view lease m { m₂ with locks := m.locks } where
  ready := ⟨h.ready.host, h.ready.files⟩
  locks := rfl
  host := hhost ▸ h.host
  tokens := h.tokens
  others f hf := hfiles ▸ h.others f hf
  inherits f hf := hfiles ▸ h.inherits f hf
  recovered := hhost ▸ h.recovered

/-- What the rounds of a cleanup do with their leases. -/
structure Rounds (env : Environment η) (view : HostView η) (leases : List Lease)
    (m m' : Machine η) : Prop where
  ready : Ready env view m'
  locks : m'.locks = m.locks
  tokens : (m'.files.map Lease.token).Nodup
  others : ∀ f : Lease, (∀ l ∈ leases, f.token ≠ l.token) → (f ∈ m'.files ↔ f ∈ m.files)
  inherits : Inherits m m'
  unused : ∀ other, (∀ l ∈ leases, Apart l other) →
    (Unused view other m'.host ↔ Unused view other m.host)
  recovered : ∀ l ∈ leases, (Recovered view l m' ↔ Recoverable view l m.host)

theorem Rounds.cons {rest : List Lease} {m₁ m₂ : Machine η} (hround : Round env view lease m m₁)
    (hrest : Rounds env view rest m₁ m₂) (hapart : ∀ l ∈ rest, Apart lease l) :
    Rounds env view (lease :: rest) m m₂ where
  ready := hrest.ready
  locks := hrest.locks.trans hround.locks
  tokens := hrest.tokens
  others f hf :=
    (hrest.others f fun l hl => hf l (List.mem_cons_of_mem _ hl)).trans
      (hround.others f (hf lease List.mem_cons_self))
  inherits := hround.inherits.trans hrest.inherits
  unused other hother :=
    (hrest.unused other fun l hl => hother l (List.mem_cons_of_mem _ hl)).trans
      (hround.host.unused (hother lease List.mem_cons_self))
  recovered l hl := by
    rcases List.mem_cons.mp hl with rfl | hl
    · have hapart' : ∀ l' ∈ rest, Apart l' l :=
        fun l' hl' => ⟨(hapart l' hl').1.symm, (hapart l' hl').2.symm⟩
      have hfiles : (∀ f ∈ m₂.files, f.token ≠ l.token) ↔ ∀ f ∈ m₁.files, f.token ≠ l.token := by
        have hsame : ∀ f : Lease, f.token = l.token → (f ∈ m₂.files ↔ f ∈ m₁.files) :=
          fun f hf => hrest.others f fun l' hl' => hf ▸ (hapart l' hl').1
        constructor
        · exact fun hall f hmem hf => hall f ((hsame f hf).mpr hmem) hf
        · exact fun hall f hmem hf => hall f ((hsame f hf).mp hmem) hf
      exact (and_congr hfiles (hrest.unused l hapart')).trans hround.recovered
    · exact (hrest.recovered l hl).trans (hround.host.recoverable (hapart l hl))

end Cleanup

section Killed

variable {m₀ : Machine η} {patience n : ℕ} {peer : PeerCredentials} {req : NetworkRequest}

namespace ListedHost

/-- What a provision leaves behind that is killed after some of its steps. -/
def killed (n : ℕ) : Machine ListedHost :=
  (requestProcess sample 1 (some n) garden (provisionRequest "build-1")).final machine

/-- What the root hook of the garden makes of that. -/
def cleaned (n : ℕ) : Machine ListedHost :=
  (cleanupProcess sample 1 none "sower-garden.service").final (killed n)

end ListedHost

end Killed

end Sower.Network
