import Sower.Network.JournalSteps

/-!
# Operations keep the journal's discipline

Every operation is checked against the discipline step by step. What an operation
knows about a lease holds as long as it holds the lock of the execution; what it
knows about the whole journal holds as long as it holds the global lock.
-/

namespace Sower.Network

open Process Interleaving Contract

variable {η α : Type} {env : Environment η} {initial : List Lease} {i : ℕ}

section Quietly

/-- An operation keeps the discipline and ends in one of two postconditions. -/
abbrev Keeps (env : Environment η) (initial : List Lease) (i : ℕ) (p : Op η α)
    (P : Site η → Prop) (Q : α → Site η → Prop) (E : Site η → Prop) : Prop :=
  (leaseContract env initial).Safe i p P Q E

/-- An operation keeps the discipline and everything that no other process breaks. -/
abbrev Tamely (env : Environment η) (initial : List Lease) (p : Op η α) : Prop :=
  (leaseContract env initial).Tame p

variable {P E : Site η → Prop} {Q : α → Site η → Prop}

theorem advance_of_quiet {f : Machine η → Machine η × List LeaseEvent} {w : Site η}
    (hf : (f w.store).2 = []) : w.advance i f = ⟨(f w.store).1, w.log⟩ := by
  simp only [World.advance, hf, List.map_nil, List.append_nil]

/-- A quiet step may be taken by any process, and the process that takes it tolerates it. -/
theorem quiet_advance {f : Machine η → Machine η × List LeaseEvent} {w : Site η}
    (hinv : Consistent env initial w)
    (hf : w.store.Quiet (f w.store).1 ∧ (f w.store).2 = []) :
    (leaseContract env initial).guar i w (w.advance i f) ∧
      (leaseContract env initial).rely i w (w.advance i f) := by
  rw [advance_of_quiet hf.2]
  obtain ⟨hinv', hstep⟩ := quiet_step hinv hf.1
  exact ⟨⟨hinv, hinv', hstep i⟩, hinv, hinv', i + 1, (Nat.lt_succ_self i).ne, hstep (i + 1)⟩

/-- A quiet step that returns what it has read. -/
theorem safe_quiet {f : Machine η → (Machine η × List LeaseEvent) × Except String α}
    (hf : ∀ m, m.Quiet (f m).1.1 ∧ (f m).1.2 = [])
    (h : ∀ w, Consistent env initial w → P w → Ends Q E (f w.store).2 w)
    (hQ : ∀ a, Firm env initial i (Q a)) (hE : Firm env initial i E) :
    Keeps env initial i (Fallible.atomic f) P Q E := by
  refine .atomic (fun w hinv hw => ?_) hQ hE
  obtain ⟨hguar, hrely⟩ := @quiet_advance _ _ _ _ (fun m => (f m).1) w hinv (hf w.store)
  refine ⟨hguar, ?_⟩
  have hnow := h w hinv hw
  cases hout : (f w.store).2 with
  | ok value =>
    rw [hout] at hnow
    exact hQ value hrely hnow
  | error message =>
    rw [hout] at hnow
    exact hE hrely hnow

/-- A quiet file operation. -/
theorem safe_io_quiet {f : Machine η → (Machine η × List LeaseEvent) × Except String α}
    (hf : ∀ m, m.Quiet (f m).1.1 ∧ (f m).1.2 = [])
    (h : ∀ w : Site η, Consistent env initial w → P w →
      Ends Q E (f { w.store with ticks := w.store.ticks + 1 }).2 w)
    (hQ : ∀ a, Firm env initial i (Q a)) (hE : Firm env initial i E) (hPE : ∀ w, P w → E w) :
    Keeps env initial i (io env f) P Q E := by
  refine safe_quiet (fun m => ?_) (fun w hinv hw => ?_) hQ hE
  · by_cases hfault : env.faults m.ticks
    · rw [if_pos hfault]
      exact ⟨⟨⟨rfl, rfl, rfl, rfl, le_rfl⟩, rfl⟩, rfl⟩
    · rw [if_neg hfault]
      obtain ⟨⟨⟨hlocks, hprocesses, hclock, hsessions, hdraws⟩, hfiles⟩, hlog⟩ :=
        hf { m with ticks := m.ticks + 1 }
      exact ⟨⟨⟨hlocks, hprocesses, hclock, hsessions, hdraws⟩, hfiles⟩, hlog⟩
  · by_cases hfault : env.faults w.store.ticks
    · rw [if_pos hfault]
      exact hPE w hw
    · rw [if_neg hfault]
      exact h w hinv hw

theorem tame_quiet {f : Machine η → (Machine η × List LeaseEvent) × Except String α}
    (hf : ∀ m, m.Quiet (f m).1.1 ∧ (f m).1.2 = []) : Tamely env initial (Fallible.atomic f) :=
  harmless_atomic fun _ w hinv => @quiet_advance _ _ _ _ (fun m => (f m).1) w hinv (hf w.store)

/-- What only runs commands keeps the discipline. -/
theorem Issues.tame {lease : Lease} {p : Op η α} (h : Issues env lease p) :
    Tamely env initial p := by
  refine harmless_of_steps h fun i w es m hinv hstep => ?_
  obtain ⟨c, -, rfl, rfl⟩ := hstep
  have hquiet : w.store.Quiet { w.store with host := (env.command c w.store.host).2 } :=
    ⟨⟨rfl, rfl, rfl, rfl, le_rfl⟩, rfl⟩
  have hsame : w.extend i [] { w.store with host := (env.command c w.store.host).2 } =
      ⟨{ w.store with host := (env.command c w.store.host).2 }, w.log⟩ := by
    simp only [World.extend, List.map_nil, List.append_nil]
  obtain ⟨hinv', hsteps⟩ := quiet_step hinv hquiet
  rw [hsame]
  exact ⟨⟨hinv, hinv', hsteps i⟩, hinv, hinv', i + 1, (Nat.lt_succ_self i).ne, hsteps (i + 1)⟩

theorem tame_require (condition : Bool) (message : String) :
    Tamely env initial (require condition message : Op η Unit) := tame_lift _

/-- A requirement that is met is known from then on. -/
theorem safe_require {condition : Bool} {message : String} (hPE : ∀ w, P w → E w) :
    Keeps env initial i (require condition message) P (fun _ w => P w ∧ condition = true) E :=
  .lift (fun _ hok _ hw => ⟨hw, ensure_ok.mp hok⟩) hPE

/-- A file operation that changes nothing the discipline speaks about. -/
theorem tame_io {f : Machine η → (Machine η × List LeaseEvent) × Except String α}
    (hf : ∀ m, m.Quiet (f m).1.1 ∧ (f m).1.2 = []) : Tamely env initial (io env f) := by
  refine tame_quiet fun m => ?_
  by_cases hfault : env.faults m.ticks
  · rw [if_pos hfault]
    exact ⟨⟨⟨rfl, rfl, rfl, rfl, le_rfl⟩, rfl⟩, rfl⟩
  · rw [if_neg hfault]
    obtain ⟨⟨⟨hlocks, hprocesses, hclock, hsessions, hdraws⟩, hfiles⟩, hlog⟩ :=
      hf { m with ticks := m.ticks + 1 }
    exact ⟨⟨⟨hlocks, hprocesses, hclock, hsessions, hdraws⟩, hfiles⟩, hlog⟩

end Quietly

section Identities

theorem tame_processStarttime (pid : ℤ) :
    Tamely env initial (processStarttime pid : Op η ℕ) := by
  refine tame_quiet fun m => ?_
  cases m.processes pid with
  | none => exact ⟨⟨⟨rfl, rfl, rfl, rfl, le_rfl⟩, rfl⟩, rfl⟩
  | some info => exact ⟨⟨⟨rfl, rfl, rfl, rfl, le_rfl⟩, rfl⟩, rfl⟩

theorem tame_processInfo (pid : ℤ) :
    Tamely env initial (processInfo pid : Op η ProcessInfo) := by
  refine tame_quiet fun m => ?_
  cases m.processes pid with
  | none => exact ⟨⟨⟨rfl, rfl, rfl, rfl, le_rfl⟩, rfl⟩, rfl⟩
  | some info => exact ⟨⟨⟨rfl, rfl, rfl, rfl, le_rfl⟩, rfl⟩, rfl⟩

theorem tame_authenticate (peer : PeerCredentials) :
    Tamely env initial (authenticate env peer) :=
  (tame_processStarttime _).bind fun _ => (tame_processInfo _).bind fun _ =>
    (tame_require _ _).bind fun _ => (tame_processInfo _).bind fun _ =>
    (tame_lift _).bind fun _ => (tame_processStarttime _).bind fun _ =>
    (tame_require _ _).bind fun _ => tame_lift (.ok _)

end Identities

section Files

theorem tame_writeTemporary (lease : Lease) : Tamely env initial (writeTemporary env lease) :=
  tame_io fun _ => ⟨⟨⟨rfl, rfl, rfl, rfl, le_rfl⟩, rfl⟩, rfl⟩

theorem tame_syncDirectory : Tamely env initial (syncDirectory env) :=
  tame_io fun _ => ⟨⟨⟨rfl, rfl, rfl, rfl, le_rfl⟩, rfl⟩, rfl⟩

theorem tame_removeTemporary (lease : Lease) :
    Tamely env initial (removeTemporary env lease) := by
  refine Tame.bind (tame_quiet fun _ => ⟨⟨⟨rfl, rfl, rfl, rfl, le_rfl⟩, rfl⟩, rfl⟩) fun found => ?_
  split
  · exact tame_io fun _ => ⟨⟨⟨rfl, rfl, rfl, rfl, le_rfl⟩, rfl⟩, rfl⟩
  · exact tame_lift (.ok ())

end Files

section Locks

variable {me : Session} {name : LockName} {P E : Site η → Prop} {Q : α → Site η → Prop}

/-- An assertion of a session that outlasts the release of a lock. -/
structure Lasting (env : Environment η) (initial : List Lease) (i : ℕ) (me : Session)
    (name : LockName) (P : Site η → Prop) : Prop where
  firm : Firm env initial i P
  mine : ∀ w, P w → Mine i w me.id
  unlocked : ∀ w, P w → P ⟨w.store.setLock name none, w.log⟩

/-- The release of one lock leaves another one held. -/
theorem holdsLock_setLock {w : Site η} {other : LockName} (hne : other ≠ name)
    (h : HoldsLock i w other) : HoldsLock i ⟨w.store.setLock name none, w.log⟩ other := by
  obtain ⟨session, hsession, hheld⟩ := h
  refine ⟨session, hsession, ?_⟩
  rw [← hheld]
  exact Function.update_of_ne hne none w.store.locks

theorem lasting_mine : Lasting env initial i me name fun w => Mine i w me.id :=
  ⟨firm_mine me.id, fun _ h => h, fun _ h => h⟩

theorem safe_tryLock (hP : Firm env initial i P) (hmine : ∀ w, P w → Mine i w me.id) :
    Keeps env initial i (tryLock env me name) P
      (fun taken w => P w ∧ (taken = true → HoldsLock i w name)) P := by
  have hQ : ∀ taken, Firm env initial i fun w => P w ∧ (taken = true → HoldsLock i w name) :=
    fun taken => firm_and hP (firm_imp (firm_holdsLock name))
  refine .atomic (fun w hinv hw => ?_) hQ hP
  have hquiet : w.store.Quiet { w.store with ticks := w.store.ticks + 1 } :=
    ⟨⟨rfl, rfl, rfl, rfl, le_rfl⟩, rfl⟩
  have hrely : ∀ {m}, Consistent env initial ⟨m, w.log⟩ ∧ (∀ j, Step env initial j w ⟨m, w.log⟩) →
      (leaseContract env initial).guar i w ⟨m, w.log⟩ ∧ P ⟨m, w.log⟩ := by
    intro m h
    exact ⟨⟨hinv, h.1, h.2 i⟩,
      hP ⟨hinv, h.1, i + 1, (Nat.lt_succ_self i).ne, h.2 (i + 1)⟩ hw⟩
  by_cases hfault : env.faults w.store.ticks
  · simp only [if_pos hfault, World.advance, List.map_nil, List.append_nil, Ends]
    exact hrely (quiet_step hinv hquiet)
  · by_cases hfree : w.store.locks name = none
    · simp only [if_neg hfault, if_pos hfree, World.advance, List.map_nil, List.append_nil, Ends]
      obtain ⟨hguar, hnow⟩ := hrely (lock_step hinv hquiet hfree ⟨i, hmine w hw⟩)
      refine ⟨hguar, hnow, fun _ => ⟨me.id, hmine w hw, ?_⟩⟩
      exact Function.update_self name (some me.id) w.store.locks
    · simp only [if_neg hfault, if_neg hfree, World.advance, List.map_nil, List.append_nil, Ends]
      obtain ⟨hguar, hnow⟩ := hrely (quiet_step hinv hquiet)
      exact ⟨hguar, hnow, fun h => by cases h⟩

theorem safe_lockFile (hP : Firm env initial i P) (hmine : ∀ w, P w → Mine i w me.id)
    (patience : ℕ) : Keeps env initial i (lockFile env me name patience) P
      (fun _ w => P w ∧ HoldsLock i w name) P := by
  induction patience with
  | zero => exact .throw fun _ hw => hw
  | succ patience ih =>
    refine (safe_tryLock hP hmine).bind fun taken => ?_
    cases taken with
    | false => exact ih.conseq (fun _ hw => hw.1) (fun _ _ hw => hw) fun _ hw => hw
    | true => exact .pure fun _ hw => ⟨hw.1, hw.2 rfl⟩

theorem safe_unlock (hP : Lasting env initial i me name P) :
    Keeps env initial i (unlock me name) P (fun _ => P) fun _ => False := by
  refine .atomic (fun w hinv hw => ?_) (fun _ => hP.firm) (firm_const False)
  by_cases hheld : w.store.locks name = some me.id
  · simp only [if_pos hheld, World.advance, List.map_nil, List.append_nil, Ends]
    obtain ⟨hinv', hstep⟩ : Consistent env initial ⟨w.store.setLock name none, w.log⟩ ∧
        Step env initial i w ⟨w.store.setLock name none, w.log⟩ := by
      refine unlock_step hinv (fun other s hs hother => ?_) fun other s hs => ?_
      · have hne : other ≠ name := by
          rintro rfl
          rw [hheld] at hs
          cases hs
          exact hother (hP.mine w hw)
        rw [Function.update_of_ne hne]
        exact hs
      · rcases eq_or_ne other name with rfl | hne
        · rw [Function.update_self] at hs
          cases hs
        · rwa [Function.update_of_ne hne] at hs
    exact ⟨⟨hinv, hinv', hstep⟩, hP.unlocked w hw⟩
  · simp only [if_neg hheld, World.advance, List.map_nil, List.append_nil, Ends]
    obtain ⟨hinv', hstep⟩ := quiet_step hinv (m := w.store) ⟨⟨rfl, rfl, rfl, rfl, le_rfl⟩, rfl⟩
    exact ⟨⟨hinv, hinv', hstep i⟩, hw⟩

/-- A block that ends with a lock behind it. -/
theorem safe_holding {body : Op η α} (hQ : ∀ a, Lasting env initial i me name (Q a))
    (hE : Lasting env initial i me name E) (hbody : Keeps env initial i body P Q E) :
    Keeps env initial i (holding me name body) P Q E := by
  refine Safe.bind (hbody.attempt) fun outcome => ?_
  have hunlock : Keeps env initial i (unlock me name) (Ends Q E outcome)
      (fun _ => Ends Q E outcome) E := by
    cases outcome with
    | ok value => exact (safe_unlock (hQ value)).conseq (fun _ h => h) (fun _ _ h => h) (by simp)
    | error message => exact (safe_unlock hE).conseq (fun _ h => h) (fun _ _ h => h) (by simp)
  refine hunlock.bind fun _ => ?_
  cases outcome with
  | ok value => exact .pure fun _ hw => hw
  | error message => exact .throw fun _ hw => hw

/-- A block that holds a lock. -/
theorem safe_withLock {body : Op η α} (hP : Firm env initial i P)
    (hmine : ∀ w, P w → Mine i w me.id) (hPE : ∀ w, P w → E w)
    (hQ : ∀ a, Lasting env initial i me name (Q a)) (hE : Lasting env initial i me name E)
    (hbody : Keeps env initial i body (fun w => P w ∧ HoldsLock i w name) Q E) :
    Keeps env initial i (withLock env me name body) P Q E :=
  Safe.bind ((safe_lockFile hP hmine me.patience).conseq (fun _ hw => hw) (fun _ _ hw => hw) hPE)
    fun _ => safe_holding hQ hE hbody

end Locks

section Reading

variable {P E : Site η → Prop} {R : Lease → Site η → Prop} {L : List String → Site η → Prop}
  {instanceName : String}

theorem mem_of_file? {m : Machine η} {token : String} {lease : Lease}
    (h : m.file? instanceName token = some lease) :
    lease ∈ m.files ∧ lease.instanceName = instanceName ∧ lease.token = token := by
  refine ⟨List.mem_of_find?_eq_some h, ?_⟩
  have hpath := List.find?_some h
  simpa only [Lease.path, beq_iff_eq, Prod.mk.injEq] using hpath

/-- Reading a file tells what holds of the leases in the journal. -/
theorem safe_readFile {token message : String} (hR : ∀ l, Firm env initial i fun w => P w ∧ R l w)
    (hE : Firm env initial i E) (hPE : ∀ w, P w → E w)
    (hread : ∀ w l, Consistent env initial w → P w → l ∈ w.store.files →
      l.instanceName = instanceName → l.token = token → R l w) :
    Keeps env initial i (readFile env instanceName token message) P
      (fun l w => (P w ∧ R l w) ∧ l.instanceName = instanceName ∧ l.token = token) E := by
  refine safe_io_quiet (fun m => ?_) (fun w hinv hw => ?_)
    (fun l => firm_and (hR l) (firm_const _)) hE hPE
  · cases m.file? instanceName token with
    | none => exact ⟨⟨⟨rfl, rfl, rfl, rfl, le_rfl⟩, rfl⟩, rfl⟩
    | some lease => exact ⟨⟨⟨rfl, rfl, rfl, rfl, le_rfl⟩, rfl⟩, rfl⟩
  · have hsame : Machine.file? { w.store with ticks := w.store.ticks + 1 } instanceName token =
        w.store.file? instanceName token := rfl
    rw [hsame]
    cases hfile : w.store.file? instanceName token with
    | none => exact hPE w hw
    | some lease =>
      obtain ⟨hmem, hinstance, htoken⟩ := mem_of_file? hfile
      dsimp only
      cases checkRecord instanceName token message lease with
      | error _ => exact hPE w hw
      | ok _ => exact ⟨⟨hw, hread w lease hinv hw hmem hinstance htoken⟩, hinstance, htoken⟩

/-- The records of a listing, in its order. -/
theorem safe_readRecords (hR : ∀ l, Firm env initial i fun w => P w ∧ R l w)
    (hE : Firm env initial i E) (hPE : ∀ w, P w → E w)
    (hread : ∀ w l, Consistent env initial w → P w → l ∈ w.store.files →
      l.instanceName = instanceName → R l w) (tokens : List String) :
    Keeps env initial i (readRecords env instanceName tokens) P
      (fun ls w => P w ∧ ls.map Lease.token = tokens ∧
        ∀ l ∈ ls, l.instanceName = instanceName ∧ R l w) E := by
  induction tokens generalizing P with
  | nil => exact .pure fun _ hw => ⟨hw, rfl, by simp⟩
  | cons token rest ih =>
    refine (safe_readFile hR hE hPE fun w l hinv hw hl hinstance _ =>
      hread w l hinv hw hl hinstance).bind fun lease => ?_
    refine (ih (fun l => ?_) (fun w hw => hPE w hw.1.1)
      fun w l hinv hw hl hinstance => hread w l hinv hw.1.1 hl hinstance).bind fun leases => ?_
    · rintro w w' hrely ⟨⟨hlease, hfacts⟩, hl⟩
      exact ⟨⟨hR lease hrely hlease, hfacts⟩, (hR l hrely ⟨hlease.1, hl⟩).2⟩
    · refine .pure fun w hw => ?_
      obtain ⟨⟨⟨hP, hlease⟩, hinstance, htoken⟩, htokens, hleases⟩ := hw
      refine ⟨hP, by rw [List.map_cons, htoken, htokens], ?_⟩
      exact List.forall_mem_cons.mpr ⟨⟨hinstance, hlease⟩, hleases⟩

/-- Reading a directory tells what holds of its leases, and of the names it has. -/
theorem safe_recordsIn (hL : ∀ names, Firm env initial i fun w => P w ∧ L names w)
    (hR : ∀ l, Firm env initial i fun w => P w ∧ R l w)
    (hE : Firm env initial i E) (hPE : ∀ w, P w → E w)
    (hlist : ∀ w names, P w → (∀ l ∈ w.store.files, l.instanceName = instanceName →
      l.token ∈ names) → L names w)
    (hread : ∀ w l, Consistent env initial w → P w → l ∈ w.store.files →
      l.instanceName = instanceName → R l w) :
    Keeps env initial i (recordsIn env instanceName) P
      (fun ls w => P w ∧ L (ls.map Lease.token) w ∧
        ∀ l ∈ ls, l.instanceName = instanceName ∧ R l w) E := by
  have hnames : Keeps env initial i (listRecords env instanceName) P
      (fun names w => P w ∧ L names w) E := by
    refine safe_io_quiet (fun m => ⟨⟨⟨rfl, rfl, rfl, rfl, le_rfl⟩, rfl⟩, rfl⟩)
      (fun w _ hw => ⟨hw, hlist w _ hw ?_⟩) hL hE hPE
    intro l hl hinstance
    refine (env.listing_perm _ _).mem_iff.mpr (List.mem_map.mpr ⟨l, ?_, rfl⟩)
    exact List.mem_filter.mpr ⟨hl, by rw [hinstance]; exact beq_self_eq_true _⟩
  refine hnames.bind fun names => ?_
  refine (safe_readRecords (fun l => ?_) hE (fun w hw => hPE w hw.1)
    (fun w l hinv hw => hread w l hinv hw.1) names).conseq (fun _ hw => hw) ?_ fun _ hw => hw
  · rintro w w' hrely ⟨⟨hw, hlisted⟩, hl⟩
    exact ⟨hL names hrely ⟨hw, hlisted⟩, (hR l hrely ⟨hw, hl⟩).2⟩
  · rintro ls w ⟨⟨hw, hlisted⟩, htokens, hls⟩
    exact ⟨hw, htokens ▸ hlisted, hls⟩

/-- Loading a lease tells what holds of it. -/
theorem safe_load {token : String} (hP : Firm env initial i P)
    (hR : ∀ l, Firm env initial i fun w => P w ∧ R l w)
    (hE : Firm env initial i E) (hPE : ∀ w, P w → E w)
    (hread : ∀ w l, Consistent env initial w → P w → l ∈ w.store.files →
      l.instanceName = instanceName → l.token = token → R l w) :
    Keeps env initial i (load env instanceName token) P
      (fun found w => P w ∧ ∀ l, found = some l →
        R l w ∧ l.instanceName = instanceName ∧ l.token = token) E := by
  have hrequire : Keeps env initial i (require (validToken token) "invalid lease token" : Op η Unit)
      P (fun _ => P) E :=
    (tame_require _ _).keep hP hPE
  have hfound : Keeps env initial i
      (Fallible.read fun m : Machine η => (m.file? instanceName token).isSome) P (fun _ => P) E :=
    safe_quiet (fun _ => ⟨⟨⟨rfl, rfl, rfl, rfl, le_rfl⟩, rfl⟩, rfl⟩) (fun _ _ hw => hw)
      (fun _ => hP) hE
  refine hrequire.bind fun _ => hfound.bind fun found => ?_
  split
  · refine (safe_readFile hR hE hPE hread).bind fun lease => .pure ?_
    rintro w ⟨⟨hw, hlease⟩, hnames⟩
    refine ⟨hw, fun l hl => ?_⟩
    cases hl
    exact ⟨hlease, hnames⟩
  · exact .pure fun w hw => ⟨hw, fun l hl => by cases hl⟩

/-- Whatever the journal has under the token of the lease is the lease. -/
def Known (initial : List Lease) (lease : Lease) (w : Site η) : Prop :=
  Seen initial w lease.token ∧ ∀ f ∈ w.store.files, f.token = lease.token → f.core = lease.core

theorem known_of_mem {w : Site η} {l : Lease} (hinv : Consistent env initial w)
    (hl : l ∈ w.store.files) : Known initial l w := by
  refine ⟨hinv.seen l hl, fun f hf htoken => ?_⟩
  rw [hinv.eq_of_token hf hl htoken]

/-- A token that has been seen names one lease for ever. -/
theorem Step.known {w w' : Site η} {j : ℕ} (hstep : Step env initial j w w') {lease : Lease}
    (h : Known initial lease w) : Known initial lease w' := by
  obtain ⟨hseen, hnames⟩ := h
  refine ⟨seen_mono (fun _ => hstep.log_mono) hseen, fun f hf htoken => ?_⟩
  rcases hstep.fresh f hf with ⟨g, hg, hcore⟩ | hfresh
  · rw [← hcore]
    exact hnames g hg ((eq_of_core hcore).1.trans htoken)
  · exact absurd (htoken ▸ hseen) hfresh

theorem firm_known (lease : Lease) : Firm env initial i (Known initial lease) := by
  rintro w w' ⟨-, -, j, -, hstep⟩ hw
  exact hstep.known hw

/-- Every lease in the journal is one of these. -/
def Lists (units : List String) (leases : List Lease) (w : Site η) : Prop :=
  ∀ f ∈ w.store.files, f.instanceName ∈ units → ∃ l ∈ leases, l.core = f.core

theorem firm_lists (units : List String) (leases : List Lease) : Firm env initial i fun w =>
    HoldsLock i w .global ∧ Lists units leases w := by
  rintro w w' hrely ⟨hglobal, hlists⟩
  refine ⟨firm_holdsLock _ hrely hglobal, fun f hf hunit => ?_⟩
  obtain ⟨g, hg, hcore⟩ := ((members_of_rely hrely hglobal).1 f.core).mp ⟨f, hf, rfl⟩
  rw [← (eq_of_core hcore).2.2.1] at hunit
  obtain ⟨l, hl, hsame⟩ := hlists g hg hunit
  exact ⟨l, hl, hsame.trans hcore⟩

/-- Behind the global lock the directories are read as of one moment. -/
theorem safe_recordsOf (hP : Firm env initial i P) (hglobal : ∀ w, P w → HoldsLock i w .global)
    (hE : Firm env initial i E) (hPE : ∀ w, P w → E w) (units : List String) :
    Keeps env initial i (recordsOf env units) P (fun ls w => P w ∧ Lists units ls w) E := by
  have hlists : ∀ units ls, Firm env initial i fun w => P w ∧ Lists units ls w := by
    rintro units ls w w' hrely ⟨hw, hls⟩
    exact ⟨hP hrely hw, (firm_lists units ls hrely ⟨hglobal w hw, hls⟩).2⟩
  induction units generalizing P with
  | nil => exact .pure fun w hw => ⟨hw, fun f _ hunit => by cases hunit⟩
  | cons unit rest ih =>
    let L (names : List String) (w : Site η) : Prop :=
      ∀ f ∈ w.store.files, f.instanceName = unit → f.token ∈ names
    have hL : ∀ names, Firm env initial i fun w => P w ∧ L names w := by
      rintro names w w' hrely ⟨hw, hnames⟩
      refine ⟨hP hrely hw, fun f hf hunit => ?_⟩
      obtain ⟨g, hg, hcore⟩ :=
        ((members_of_rely hrely (hglobal w hw)).1 f.core).mp ⟨f, hf, rfl⟩
      obtain ⟨htoken, -, hinstance, -⟩ := eq_of_core hcore
      exact htoken ▸ hnames g hg (hinstance.trans hunit)
    have hunit : Keeps env initial i (recordsIn env unit) P
        (fun ls w => P w ∧ Lists [unit] ls w) E := by
      refine (safe_recordsIn hL (fun l => firm_and hP (firm_known l)) hE hPE
        (fun _ _ _ hnames => hnames) fun _ _ hinv _ hl _ => known_of_mem hinv hl).conseq
        (fun _ hw => hw) ?_ fun _ hw => hw
      rintro ls w ⟨hw, hnames, hls⟩
      refine ⟨hw, fun f hf hunit => ?_⟩
      obtain ⟨l, hl, htoken⟩ := List.mem_map.mp (hnames f hf (List.mem_singleton.mp hunit))
      exact ⟨l, hl, ((hls l hl).2.2 f hf htoken.symm).symm⟩
    refine hunit.bind fun leases => ?_
    have hrest := ih (hlists [unit] leases) (fun w hw => hglobal w hw.1) (fun w hw => hPE w hw.1)
      fun units ls => ?_
    · refine hrest.bind fun others => .pure ?_
      rintro w ⟨⟨hw, hfirst⟩, hothers⟩
      refine ⟨hw, fun f hf hmem => ?_⟩
      rcases List.mem_cons.mp hmem with hhere | hthere
      · obtain ⟨l, hl, hcore⟩ := hfirst f hf (List.mem_singleton.mpr hhere)
        exact ⟨l, List.mem_append_left _ hl, hcore⟩
      · obtain ⟨l, hl, hcore⟩ := hothers f hf hthere
        exact ⟨l, List.mem_append_right _ hl, hcore⟩
    · rintro w w' hrely ⟨hw, hls⟩
      exact ⟨hlists [unit] leases hrely hw, (hlists units ls hrely ⟨hw.1, hls⟩).2⟩

/-- Behind the global lock every lease is found. -/
theorem safe_allRecords (hP : Firm env initial i P) (hglobal : ∀ w, P w → HoldsLock i w .global)
    (hE : Firm env initial i E) (hPE : ∀ w, P w → E w) :
    Keeps env initial i (allRecords env) P
      (fun ls w => P w ∧ Lists env.policy.gardenUnits ls w) E := by
  refine (safe_recordsOf hP hglobal hE hPE _).bind fun leases => ?_
  have hfirm : Firm env initial i fun w => P w ∧ Lists env.policy.gardenUnits leases w := by
    rintro w w' hrely ⟨hw, hls⟩
    exact ⟨hP hrely hw, (firm_lists _ _ hrely ⟨hglobal w hw, hls⟩).2⟩
  exact Safe.bind ((tame_require _ _).keep hfirm fun w hw => hPE w hw.1) fun _ =>
    .pure fun _ hw => hw
end Reading

end Sower.Network
