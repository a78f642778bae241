import Sower.Network.JournalContract

/-!
# Provision, revocation, release and cleanup keep the discipline

Behind the lock of an execution an operation is in charge of its lease: nobody
else touches the file, and its caller is entitled to act on it. Provision builds
its lease up in that way, revocation and release take a lease down.
-/

namespace Sower.Network

open Process Interleaving Contract

variable {η α : Type} {env : Environment η} {initial : List Lease} {i : ℕ} {me : Session}

section Charges

/-- The caller of process `i` may act on the lease. -/
def Entitles (i : ℕ) (lease : Lease) (w : Site η) : Prop :=
  ∃ s caller, (i, .opened s caller) ∈ w.log ∧ caller.Entitled lease

/-- The operation may take the lease down. -/
structure Charge (env : Environment η) (i : ℕ) (me : Session) (lease : Lease) (w : Site η) :
    Prop where
  mine : Mine i w me.id
  lock : HoldsLock i w (lease.lock env)
  file : ∃ f ∈ w.store.files, f.core = lease.core ∧
    (f.phase = .active → Alive w.store f → Entitles i lease w)

/-- The operation may build the lease up. -/
structure Building (env : Environment η) (i : ℕ) (me : Session) (lease : Lease) (w : Site η) :
    Prop where
  mine : Mine i w me.id
  lock : HoldsLock i w (lease.lock env)
  entitles : Entitles i lease w
  kept : ¬ Revoking w lease.token
  file : ∃ f ∈ w.store.files, f.core = lease.core ∧ ¬ f.phase.Settled

variable {lease : Lease}

theorem entitles_of_core {l l' : Lease} {w : Site η} (h : l.core = l'.core)
    (hl : Entitles i l' w) : Entitles i l w := by
  obtain ⟨s, caller, hopened, hentitled⟩ := hl
  exact ⟨s, caller, hopened, entitled_of_core h hentitled⟩

theorem Charge.of_core {l l' : Lease} {w : Site η} (h : l.core = l'.core)
    (hl : Charge env i me l' w) : Charge env i me l w := by
  obtain ⟨f, hf, hcore, hentitled⟩ := hl.file
  exact ⟨hl.mine, @lock_of_core η env _ _ h ▸ hl.lock, f, hf, hcore.trans h.symm,
    fun hactive halive => entitles_of_core h (hentitled hactive halive)⟩

/-- The phase does not matter for who is in charge. -/
theorem charge_phase {w : Site η} (phase : Phase) :
    Charge env i me { lease with phase := phase } w ↔ Charge env i me lease w := by
  have hsame : ({ lease with phase := phase } : Lease).core = lease.core := rfl
  exact ⟨fun h => h.of_core hsame.symm, fun h => h.of_core hsame⟩

theorem Building.of_core {l l' : Lease} {w : Site η} (h : l.core = l'.core)
    (hl : Building env i me l' w) : Building env i me l w := by
  obtain ⟨f, hf, hcore, hphase⟩ := hl.file
  exact ⟨hl.mine, @lock_of_core η env _ _ h ▸ hl.lock, entitles_of_core h hl.entitles,
    (eq_of_core h).1 ▸ hl.kept, f, hf, hcore.trans h.symm, hphase⟩

theorem building_phase {w : Site η} (phase : Phase) :
    Building env i me { lease with phase := phase } w ↔ Building env i me lease w := by
  have hsame : ({ lease with phase := phase } : Lease).core = lease.core := rfl
  exact ⟨fun h => h.of_core hsame.symm, fun h => h.of_core hsame⟩

theorem Building.charge {w : Site η} (h : Building env i me lease w) :
    Charge env i me lease w := by
  obtain ⟨f, hf, hcore, _⟩ := h.file
  exact ⟨h.mine, h.lock, f, hf, hcore, fun _ _ => h.entitles⟩

theorem firm_entitles : Firm env initial i (Entitles i lease) :=
  firm_exists fun _ => firm_exists fun _ => firm_and (firm_logged _) (firm_const _)

theorem firm_charge : Firm env initial i (Charge env i me lease) := by
  rintro w w' hrely ⟨hmine, hlock, f, hf, hcore, hentitled⟩
  have hflock : HoldsLock i w (f.lock env) := @lock_of_core η env _ _ hcore ▸ hlock
  refine ⟨firm_mine _ hrely hmine, firm_holdsLock _ hrely hlock, f,
    (firm_file f hrely ⟨hflock, hf⟩).2, hcore, fun hactive halive => ?_⟩
  obtain ⟨hinv, -, j, -, hstep⟩ := id hrely
  exact firm_entitles hrely
    (hentitled hactive (hstep.alive_of_alive (hinv.recorded f hf) halive))

theorem firm_building : Firm env initial i (Building env i me lease) := by
  rintro w w' hrely ⟨hmine, hlock, hentitles, hkept, f, hf, hcore, hphase⟩
  have hflock : HoldsLock i w (f.lock env) := @lock_of_core η env _ _ hcore ▸ hlock
  refine ⟨firm_mine _ hrely hmine, firm_holdsLock _ hrely hlock, firm_entitles hrely hentitles,
    fun hrevoking => ?_, f, (firm_file f hrely ⟨hflock, hf⟩).2, hcore, hphase⟩
  obtain ⟨hinv, -, j, hij, hstep⟩ := hrely
  rcases hstep.revoking _ hrevoking with hbefore | ⟨l, hl, htoken, hheld⟩
  · exact hkept hbefore
  · have hlf : l = f := hinv.eq_of_token hl hf (htoken.trans (eq_of_core hcore).1.symm)
    exact hij (hinv.exclusive hflock (hlf ▸ hheld))

/-- A lease that was saved stays in the journal. -/
theorem firm_saved : Firm env initial i fun w =>
    Building env i me lease w ∧ lease ∈ w.store.files := by
  rintro w w' hrely ⟨hw, hmem⟩
  exact ⟨firm_building hrely hw, (firm_file lease hrely ⟨hw.lock, hmem⟩).2⟩

end Charges

section Saving

variable {P E : Site η → Prop} {Q : Site η → Prop} {lease : Lease}

/-- The rename decides what a save does. -/
theorem safe_save (hP : Firm env initial i P) (hQ : Firm env initial i Q)
    (hPE : ∀ w, P w → E w) (hQE : ∀ w, Q w → E w)
    (hrename : Keeps env initial i (renameTemporary env lease) P (fun _ => Q) E) :
    Keeps env initial i (save env lease) P (fun _ => Q) E := by
  exact ((tame_writeTemporary lease).keep hP hPE).bind fun _ => hrename.bind fun _ =>
    tame_syncDirectory.keep hQ hQE

/-- Renaming replaces the file of a lease that the journal has, if nothing fails. -/
theorem safe_renameTemporary (hP : Firm env initial i P) (hQ : Firm env initial i Q)
    (hsave : ∀ w, Consistent env initial w → P w → ∃ f ∈ w.store.files, f.core = lease.core ∧
      HoldsLock i w (lease.lock env) ∧ (f.phase.Settled → lease.phase.Settled) ∧
      (lease.phase = .active → ¬ Revoking w lease.token) ∧
      (f.phase = .active → Alive w.store f → Entitles i f w))
    (hnow : ∀ w m, P w → w.store.FilesOnly m → m.files = (w.store.put lease).files →
      Q (edited i w m (.saved lease))) :
    Keeps env initial i (renameTemporary env lease) P (fun _ => Q) P := by
  refine .atomic (fun w hinv hw => ?_) (fun _ => hQ) hP
  obtain ⟨f, hf, hcore, hlock, hsettled, hactive, hentitled⟩ := hsave w hinv hw
  by_cases hfault : env.faults w.store.ticks
  · obtain ⟨hguar, hrely⟩ := @quiet_advance η env initial i
      (fun m => ({ m with ticks := m.ticks + 1 }, [])) w hinv
      ⟨⟨⟨rfl, rfl, rfl, rfl, le_rfl⟩, rfl⟩, rfl⟩
    simp only [if_pos hfault, World.advance] at hguar hrely ⊢
    exact ⟨hguar, hP hrely hw⟩
  · have hfound : Machine.file? { w.store with ticks := w.store.ticks + 1 } lease.instanceName
        lease.token ≠ none := by
      intro hnone
      refine List.find?_eq_none.mp hnone f hf ?_
      rw [path_of_core hcore]
      exact beq_self_eq_true _
    obtain ⟨g, hg⟩ := Option.ne_none_iff_exists'.mp hfound
    have honly : w.store.FilesOnly
        (Machine.put { w.store with ticks := w.store.ticks + 1 } lease) :=
      ⟨rfl, rfl, rfl, rfl, le_rfl⟩
    obtain ⟨hinv', hstep⟩ := save_step hinv honly rfl hf hcore hlock hsettled hactive hentitled
    simp only [if_neg hfault, hg, World.advance, List.map_cons, List.map_nil, Ends]
    exact ⟨⟨hinv, hinv', hstep⟩, hnow w _ hw honly rfl⟩

/-- What is in charge of a lease may record that it is settled. -/
theorem safe_save_settled (hphase : lease.phase.Settled) :
    Keeps env initial i (save env lease) (Charge env i me lease) (fun _ => Charge env i me lease)
      (Charge env i me lease) := by
  refine safe_save firm_charge firm_charge (fun _ hw => hw) (fun _ hw => hw)
    (safe_renameTemporary firm_charge firm_charge ?_ ?_)
  · rintro w hinv hw
    obtain ⟨f, hf, hcore, hentitled⟩ := hw.file
    refine ⟨f, hf, hcore, hw.lock, fun _ => hphase, fun hactive => ?_,
      fun hactive halive => entitles_of_core hcore (hentitled hactive halive)⟩
    rw [Phase.Settled, hactive] at hphase
    rcases hphase with h | h <;> cases h
  · rintro w m ⟨hmine, hlock, -⟩ honly hfiles
    refine ⟨mine_mono (log_announced _) hmine, ?_, lease, ?_, rfl, fun hactive => ?_⟩
    · obtain ⟨session, hsession, hheld⟩ := hlock
      exact ⟨session, mine_mono (log_announced _) hsession, (congrFun honly.locks _).trans hheld⟩
    · exact hfiles ▸ mem_put.mpr (Or.inl rfl)
    · rw [Phase.Settled, hactive] at hphase
      rcases hphase with h | h <;> cases h

/-- What builds a lease up records each stage. -/
theorem safe_save_building (hphase : ¬ lease.phase.Settled) :
    Keeps env initial i (save env lease) (Building env i me lease)
      (fun _ w => Building env i me lease w ∧ lease ∈ w.store.files)
      (Building env i me lease) := by
  refine safe_save firm_building firm_saved (fun _ hw => hw) (fun _ hw => hw.1)
    (safe_renameTemporary firm_building firm_saved ?_ ?_)
  · rintro w hinv hw
    obtain ⟨f, hf, hcore, hunsettled⟩ := hw.file
    exact ⟨f, hf, hcore, hw.lock, fun h => absurd h hunsettled, fun _ => hw.kept,
      fun _ _ => entitles_of_core hcore hw.entitles⟩
  · rintro w m ⟨hmine, hlock, ⟨s, caller, hopened, hentitled⟩, hkept, -⟩ honly hfiles
    have hmem : lease ∈ m.files := hfiles ▸ mem_put.mpr (Or.inl rfl)
    refine ⟨⟨mine_mono (log_announced _) hmine, ?_,
      ⟨s, caller, log_announced _ _ hopened, hentitled⟩, fun hrevoking => ?_, lease, hmem, rfl,
      hphase⟩, hmem⟩
    · obtain ⟨session, hsession, hheld⟩ := hlock
      exact ⟨session, mine_mono (log_announced _) hsession, (congrFun honly.locks _).trans hheld⟩
    · rcases revoking_announced hrevoking with hold | hnew
      · exact hkept hold
      · cases hnew

end Saving

section Removal

variable {lease : Lease}

/-- Revocation stays in charge of the lease, however it ends. -/
theorem safe_revoke : Keeps env initial i (revoke env lease) (Charge env i me lease)
    (fun out => Charge env i me out.1) (Charge env i me lease) := by
  unfold revoke
  split
  · exact .pure fun _ hw => hw
  · have hsettled : Phase.Settled ({ lease with phase := .revoked } : Lease).phase := Or.inl rfl
    have hemit : Keeps env initial i (Fallible.emit (.revoking lease.token))
        (Charge env i me lease) (fun _ => Charge env i me { lease with phase := .revoked })
        (Charge env i me lease) := by
      refine .atomic (fun w hinv hw => ?_) (fun _ => firm_charge) firm_charge
      obtain ⟨f, hf, hcore, hentitled⟩ := hw.file
      have hlock : HoldsLock i w (f.lock env) := @lock_of_core η env _ _ hcore ▸ hw.lock
      have hlease : ∀ token, LeaseEvent.revoking lease.token = .revoking token →
          ∃ l ∈ w.store.files, l.token = token ∧ HoldsLock i w (l.lock env) := by
        intro token htoken
        cases htoken
        exact ⟨f, hf, (eq_of_core hcore).1, hlock⟩
      refine ⟨⟨hinv, hinv.announce (by simp) (by simp) ?_,
        .announce hinv (by simp) hlease (by simp)⟩, ?_⟩
      · intro token htoken
        obtain ⟨l, hl, rfl, -⟩ := hlease token htoken
        exact hinv.seen l hl
      · obtain ⟨session, hsession, hheld⟩ := hw.lock
        refine ⟨mine_mono (log_announced _) hw.mine,
          ⟨session, mine_mono (log_announced _) hsession, hheld⟩, f, hf, hcore,
          fun hactive halive => ?_⟩
        obtain ⟨s, caller, hopened, hcaller⟩ := hentitled hactive halive
        exact ⟨s, caller, log_announced _ _ hopened, hcaller⟩
    have hkeep : ∀ {γ : Type} {p : Op η γ}, Tamely env initial p →
        Keeps env initial i (Fallible.attempt p) (Charge env i me { lease with phase := .revoked })
          (fun _ => Charge env i me { lease with phase := .revoked }) (Charge env i me lease) :=
      fun hp => hp.attempt.keep firm_charge fun _ hw => (charge_phase _).mp hw
    refine hemit.bind fun _ => ?_
    refine Safe.bind ((safe_save_settled hsettled).attempt) fun saved => ?_
    refine ((hkeep issues_setDown.tame).conseq ?_ (fun _ _ hw => hw) fun _ hw => hw).bind fun down =>
      (hkeep issues_installGuard.tame).bind fun guard => .pure fun _ hw => hw
    intro w hw
    cases saved with
    | ok _ => exact hw
    | error _ => exact hw

/-- The file goes behind the global lock; what was in charge of it is in charge no more. -/
theorem safe_removeFile : Keeps env initial i (removeFile env lease)
    (fun w => Charge env i me lease w ∧ HoldsLock i w .global) (fun _ w => Mine i w me.id)
    (fun w => Mine i w me.id) := by
  refine .atomic (fun w hinv hw => ?_) (fun _ => firm_mine me.id) (firm_mine me.id)
  obtain ⟨⟨hmine, hlock, f, hf, hcore, hentitled⟩, hglobal⟩ := hw
  by_cases hfault : env.faults w.store.ticks
  · obtain ⟨hguar, -⟩ := @quiet_advance η env initial i
      (fun m => ({ m with ticks := m.ticks + 1 }, [])) w hinv
      ⟨⟨⟨rfl, rfl, rfl, rfl, le_rfl⟩, rfl⟩, rfl⟩
    simp only [if_pos hfault, World.advance] at hguar ⊢
    exact ⟨hguar, mine_mono (fun _ h => List.mem_append_left _ h) hmine⟩
  · have hfound : Machine.file? { w.store with ticks := w.store.ticks + 1 } lease.instanceName
        lease.token = some f := by
      cases hfile : Machine.file? { w.store with ticks := w.store.ticks + 1 } lease.instanceName
          lease.token with
      | none =>
        refine absurd (beq_iff_eq.mpr (path_of_core hcore)) (List.find?_eq_none.mp hfile f hf)
      | some g =>
        obtain ⟨hg, -, htoken⟩ := mem_of_file? hfile
        rw [hinv.eq_of_token hg hf (htoken.trans (eq_of_core hcore).1.symm)]
    obtain ⟨hinv', hstep⟩ := remove_step (m := { w.store with
        ticks := w.store.ticks + 1
        files := w.store.files.filter fun other => other.path != lease.path })
      hinv ⟨rfl, rfl, rfl, rfl, le_rfl⟩ rfl hf hcore hglobal hlock
      fun hactive halive => entitles_of_core hcore (hentitled hactive halive)
    simp only [if_neg hfault, hfound, World.advance, List.map_cons, List.map_nil, Ends]
    exact ⟨⟨hinv, hinv', hstep⟩, mine_mono (log_announced _) hmine⟩

/-- Release removes the file, or records that the lease is quarantined. -/
theorem safe_release : Keeps env initial i (release env me lease) (Charge env i me lease)
    (fun _ w => Mine i w me.id) (fun w => Mine i w me.id) := by
  have hmine : ∀ w, Charge env i me lease w → Mine i w me.id := fun _ hw => hw.mine
  have hremove : Keeps env initial i (withGlobal env me do
      removeFile env lease
      removeTemporary env lease
      syncDirectory env) (Charge env i me lease) (fun _ w => Mine i w me.id)
      (fun w => Mine i w me.id) := by
    refine safe_withLock firm_charge hmine hmine (fun _ => lasting_mine) lasting_mine ?_
    exact safe_removeFile.bind fun _ =>
      (((tame_removeTemporary lease).bind fun _ => tame_syncDirectory).safe (firm_mine me.id))
  unfold release
  refine Safe.bind ((tame_require _ _).keep firm_charge hmine) fun _ => ?_
  split
  · refine Safe.bind (issues_removeResources.tame.attempt.keep firm_charge hmine) fun outcome => ?_
    cases outcome with
    | ok _ => exact hremove
    | error message =>
      have hquarantined : Keeps env initial i (save env { lease with phase := .quarantined })
          (Charge env i me lease) (fun _ w => Mine i w me.id) (fun w => Mine i w me.id) :=
        (safe_save_settled (Or.inr rfl)).conseq (fun _ hw => (charge_phase _).mpr hw)
          (fun _ _ hw => hw.mine) fun _ hw => hw.mine
      exact hquarantined.bind fun _ => Safe.bind (.throw fun _ hw => hw) fun _ => hremove
  · exact hremove

/-- Revocation, then release. -/
theorem safe_revokeAndRelease : Keeps env initial i (revokeAndRelease env me lease)
    (Charge env i me lease) (fun _ w => Mine i w me.id) (fun w => Mine i w me.id) := by
  unfold revokeAndRelease
  refine Safe.bind (safe_revoke.conseq (fun _ hw => hw) (fun _ _ hw => hw) fun _ hw => hw.mine)
    fun out => ?_
  exact Safe.bind ((tame_lift out.2).keep firm_charge fun _ hw => hw.mine) fun _ => safe_release

end Removal

section Construction

variable {lease : Lease}

/-- A stage of the setup: a step that fails leaves the lease as it was before it. -/
theorem safe_stage {p : Op η α} {next : α → Op η (Lease × Except String Unit)}
    {P E E' : Site η → Prop} {Q : α → Site η → Prop}
    {T : Lease × Except String Unit → Site η → Prop} (hp : Keeps env initial i p P Q E)
    (herror : ∀ message w, E w → T (lease, .error message) w)
    (hnext : ∀ a, Keeps env initial i (next a) (Q a) T E') :
    Keeps env initial i (stage lease p next) P T E' := by
  refine Safe.bind (hp.attempt) fun outcome => ?_
  cases outcome with
  | ok value => exact hnext value
  | error message => exact .pure (herror message)

/-- What the setup of a lease leaves behind. -/
def Built (env : Environment η) (i : ℕ) (me : Session) (lease : Lease)
    (out : Lease × Except String Unit) (w : Site η) : Prop :=
  Building env i me lease w ∧ out.1.core = lease.core ∧
    (out.2 = .ok () → out.1 ∈ w.store.files ∧ out.1.phase = .active)

theorem safe_createTap : Keeps env initial i (createTap env lease) (Building env i me lease)
    (fun out w => Building env i me lease w ∧ out.1.core = lease.core ∧
      out.1.phase = lease.phase) (Building env i me lease) := by
  have htap : Issues env lease (command env (.addressAdd lease.gateway lease.tap)) :=
    issues_command (by exact rfl)
  refine safe_stage (issues_addTap.tame.safe firm_building) (fun _ _ hw => ⟨hw, rfl, rfl⟩)
    fun mac => ?_
  exact safe_stage (htap.tame.safe firm_building) (fun _ _ hw => ⟨hw, rfl, rfl⟩)
    fun _ => .pure fun _ hw => ⟨hw, rfl, rfl⟩

/-- The setup builds the lease up, and if it succeeds the journal has it as active. -/
theorem safe_setup : Keeps env initial i (setup env lease) (Building env i me lease)
    (Built env i me lease) (Building env i me lease) := by
  have hbuilding : Firm env initial i (Building env i me lease) := firm_building
  have hfree : Issues env lease (do
      requireAvailableSubnet env lease.gateway
      requireUnoccupied env lease.tap) :=
    (issues_requireAvailableSubnet _).bind fun _ => issues_requireUnoccupied _
  refine safe_stage (hfree.tame.safe hbuilding) (fun _ _ hw => ⟨hw, rfl, fun h => by cases h⟩)
    fun _ => ?_
  -- Each save records the stage; what follows it touches the host only.
  have hstage : ∀ {l : Lease} {p : Op η Unit}, l.core = lease.core → ¬ l.phase.Settled →
      Tamely env initial p → Keeps env initial i (do save env l; p) (Building env i me lease)
        (fun _ w => Building env i me lease w ∧ l ∈ w.store.files) (Building env i me lease) := by
    intro l p hcore hphase hp
    refine Safe.bind ((safe_save_building hphase).conseq (fun _ hw => hw.of_core hcore)
      (fun _ _ hw => hw) fun _ hw => hw.of_core hcore.symm) fun _ => ?_
    exact (hp.keep firm_saved fun _ hw => hw.1.of_core hcore.symm).conseq (fun _ hw => hw)
      (fun _ _ hw => ⟨hw.1.of_core hcore.symm, hw.2⟩) fun _ hw => hw
  have hunsettled : ∀ {phase : Phase}, phase = .allocated ∨ phase = .active →
      ¬ phase.Settled := by
    rintro phase (rfl | rfl) (h | h) <;> cases h
  have hclosed : Issues env { lease with phase := .allocated } (do
      installGuard env { lease with phase := .allocated }
      purgeConnections env { lease with phase := .allocated }) :=
    issues_installGuard.bind fun _ => issues_purgeConnections
  refine safe_stage (hstage rfl (hunsettled (Or.inl rfl)) hclosed.tame)
    (fun _ _ hw => ⟨hw, rfl, fun h => by cases h⟩) fun _ => ?_
  have htap : Keeps env initial i (createTap env { lease with phase := .allocated })
      (fun w => Building env i me lease w ∧
        ({ lease with phase := .allocated } : Lease) ∈ w.store.files)
      (fun out w => Building env i me lease w ∧ out.1.core = lease.core ∧
        out.1.phase = .allocated) (Building env i me lease) :=
    safe_createTap.conseq (fun _ hw => (building_phase _).mpr hw.1)
      (fun _ _ hw => ⟨(building_phase _).mp hw.1, hw.2⟩) fun _ hw => (building_phase _).mp hw
  refine htap.bind fun out => .assume ?_
  rintro ⟨hcore, hphase⟩
  have hactive : ({ out.1 with phase := .active } : Lease).core = lease.core := hcore
  refine safe_stage (((tame_lift _).safe hbuilding).bind fun _ =>
      hstage hcore (hunsettled (Or.inl hphase)) issues_installIngress.tame)
    (fun _ _ hw => ⟨hw, hcore, fun h => by cases h⟩) fun _ => ?_
  have hopen : Issues env { out.1 with phase := .active } (do
      installGuard env { out.1 with phase := .active }
      setUp env { out.1 with phase := .active }) :=
    issues_installGuard.bind fun _ => issues_setUp
  have hlast := hstage hactive (hunsettled (Or.inr rfl)) hopen.tame
  refine safe_stage (hlast.conseq (fun _ hw => hw.1) (fun _ _ hw => hw) fun _ hw => hw)
    (fun _ _ hw => ⟨hw, hcore, fun h => by cases h⟩) fun _ => ?_
  exact .pure fun _ hw => ⟨hw.1, hcore, fun _ => ⟨hw.2, rfl⟩⟩

end Construction

section Reservation

/-- The sixteen bytes of one draw are not drawn again, and make up no token of the initial
journal. -/
structure DrawsDistinct (env : Environment η) (initial : List Lease) : Prop where
  injective : ∀ j k random random', env.random j = some random → env.random k = some random' →
    tokenOf random = tokenOf random' → j = k
  fresh : ∀ k random, env.random k = some random → tokenOf random ∉ initial.map Lease.token

/-- The token has been drawn for a lease that is yet to come. -/
def Drawn (env : Environment η) (initial : List Lease) (token : String) (w : Site η) : Prop :=
  ¬ Seen initial w token ∧
    ∃ k < w.store.draws, ∃ random, env.random k = some random ∧ token = tokenOf random

/-- The lease that provision is about to insert. -/
structure Vacant (env : Environment η) (initial : List Lease) (i : ℕ) (me : Session)
    (lease : Lease) (w : Site η) : Prop where
  mine : Mine i w me.id
  global : HoldsLock i w .global
  lock : HoldsLock i w (lease.lock env)
  entitles : Entitles i lease w
  drawn : Drawn env initial lease.token w
  started : lease.ownerStarttime < w.store.clock
  others : ∀ f ∈ w.store.files, f.instanceName ∈ env.policy.gardenUnits →
    f.slot ≠ lease.slot ∧
      ¬ (f.instanceName = lease.instanceName ∧ f.executionId = lease.executionId)

variable {lease : Lease}

theorem firm_started (starttime : ℕ) :
    Firm env initial i fun w => starttime < w.store.clock := by
  rintro w w' ⟨-, -, j, -, hstep⟩ hw
  exact lt_of_lt_of_le hw hstep.identities.1

/-- Behind the global lock nobody else uses the token. -/
theorem firm_drawn (token : String) : Firm env initial i fun w =>
    HoldsLock i w .global ∧ Drawn env initial token w := by
  rintro w w' hrely ⟨hglobal, hunseen, k, hk, htoken⟩
  refine ⟨firm_holdsLock _ hrely hglobal,
    fun hseen => hunseen ((members_of_rely hrely hglobal).2 token hseen), k, ?_, htoken⟩
  obtain ⟨-, -, j, -, hstep⟩ := hrely
  exact lt_of_lt_of_le hk hstep.draws

theorem firm_vacant : Firm env initial i (Vacant env initial i me lease) := by
  rintro w w' hrely hw
  obtain ⟨hglobal, hdrawn⟩ := firm_drawn lease.token hrely ⟨hw.global, hw.drawn⟩
  refine ⟨firm_mine _ hrely hw.mine, hglobal, firm_holdsLock _ hrely hw.lock,
    firm_entitles hrely hw.entitles, hdrawn, firm_started _ hrely hw.started, ?_⟩
  intro f hf hunit
  obtain ⟨g, hg, hcore⟩ := ((members_of_rely hrely hw.global).1 f.core).mp ⟨f, hf, rfl⟩
  obtain ⟨-, hslot, hinstance, hexecution, -⟩ := eq_of_core hcore
  rw [← hslot, ← hinstance, ← hexecution]
  exact hw.others g hg (hinstance ▸ hunit)

/-- The first save of a lease puts it into the journal. -/
theorem safe_save_vacant (hunit : lease.instanceName ∈ env.policy.gardenUnits)
    (hphase : lease.phase = .reserved) :
    Keeps env initial i (save env lease) (Vacant env initial i me lease)
      (fun _ => Building env i me lease) (fun w => Mine i w me.id) := by
  refine safe_save firm_vacant firm_building (fun _ hw => hw.mine) (fun _ hw => hw.mine) ?_
  refine .atomic (fun w hinv hw => ?_) (fun _ => firm_building) (firm_mine me.id)
  by_cases hfault : env.faults w.store.ticks
  · obtain ⟨hguar, -⟩ := @quiet_advance η env initial i
      (fun m => ({ m with ticks := m.ticks + 1 }, [])) w hinv
      ⟨⟨⟨rfl, rfl, rfl, rfl, le_rfl⟩, rfl⟩, rfl⟩
    simp only [if_pos hfault, World.advance] at hguar ⊢
    exact ⟨hguar, mine_mono (fun _ h => List.mem_append_left _ h) hw.mine⟩
  · have hmissing : Machine.file? { w.store with ticks := w.store.ticks + 1 }
        lease.instanceName lease.token = none := by
      refine List.find?_eq_none.mpr fun f hf hpath => hw.drawn.1 ?_
      have htoken : f.token = lease.token := congrArg Prod.snd (beq_iff_eq.mp hpath)
      exact htoken ▸ hinv.seen f hf
    have honly : w.store.FilesOnly
        (Machine.put { w.store with ticks := w.store.ticks + 1 } lease) :=
      ⟨rfl, rfl, rfl, rfl, le_rfl⟩
    have hothers := fun f hf => hw.others f hf (hinv.units f hf)
    obtain ⟨hinv', hstep⟩ := create_step hinv honly rfl hw.global hw.lock hw.drawn.1
      (fun f hf => (hothers f hf).1) (fun f hf => (hothers f hf).2) hunit hw.drawn.2 hw.started
      hphase
    simp only [if_neg hfault, hmissing, World.advance, List.map_cons, List.map_nil, Ends]
    refine ⟨⟨hinv, hinv', hstep⟩, mine_mono (log_announced _) hw.mine, ?_, ?_, ?_, lease, ?_,
      rfl, ?_⟩
    · obtain ⟨session, hsession, hheld⟩ := hw.lock
      exact ⟨session, mine_mono (log_announced _) hsession, hheld⟩
    · obtain ⟨s, caller, hopened, hcaller⟩ := hw.entitles
      exact ⟨s, caller, log_announced _ _ hopened, hcaller⟩
    · intro hrevoking
      rcases revoking_announced hrevoking with hold | hnew
      · exact hw.drawn.1 (hinv.revoked lease.token hold)
      · cases hnew
    · exact mem_put.mpr (Or.inl rfl)
    · rw [hphase]
      rintro (h | h) <;> cases h

/-- The peer that the process serves, and that it asked for no cleanup. -/
def Requests (i : ℕ) (owner : Owner) (w : Site η) : Prop :=
  ∃ s req, (i, .opened s (.request owner req)) ∈ w.log ∧ req.networkAction ≠ some "cleanup"

theorem firm_requests (owner : Owner) : Firm env initial i (Requests i owner) :=
  firm_exists fun _ => firm_exists fun _ => firm_and (firm_logged _) (firm_const _)

theorem entitles_of_requests {owner : Owner} {w : Site η} (h : Requests i owner w)
    (howned : lease.OwnedBy owner) : Entitles i lease w := by
  obtain ⟨s, req, hopened, haction⟩ := h
  exact ⟨s, .request owner req, hopened, howned, haction⟩

/-- Random bytes drawn behind the global lock make up a token that nobody else uses. -/
theorem safe_randomBytes {P : Site η → Prop} (hdistinct : DrawsDistinct env initial)
    (hP : Firm env initial i P) (hglobal : ∀ w, P w → HoldsLock i w .global) :
    Keeps env initial i (randomBytes env) P
      (fun random w => P w ∧ Drawn env initial (tokenOf random) w) P := by
  have hQ : ∀ random, Firm env initial i fun w =>
      P w ∧ Drawn env initial (tokenOf random) w := by
    rintro random w w' hrely ⟨hw, hdrawn⟩
    exact ⟨hP hrely hw, (firm_drawn _ hrely ⟨hglobal w hw, hdrawn⟩).2⟩
  refine .atomic (fun w hinv hw => ?_) hQ hP
  by_cases hfault : env.faults w.store.ticks
  · obtain ⟨hguar, hrely⟩ := @quiet_advance η env initial i
      (fun m => ({ m with ticks := m.ticks + 1 }, [])) w hinv
      ⟨⟨⟨rfl, rfl, rfl, rfl, le_rfl⟩, rfl⟩, rfl⟩
    simp only [if_pos hfault, World.advance] at hguar hrely ⊢
    exact ⟨hguar, hP hrely hw⟩
  · obtain ⟨hguar, hrely⟩ := @quiet_advance η env initial i
      (fun m => ({ m with ticks := m.ticks + 1, draws := m.draws + 1 }, [])) w hinv
      ⟨⟨⟨rfl, rfl, rfl, rfl, Nat.le_succ _⟩, rfl⟩, rfl⟩
    simp only [if_neg hfault, World.advance] at hguar hrely ⊢
    refine ⟨hguar, ?_⟩
    cases hrandom : env.random w.store.draws with
    | none => exact hP hrely hw
    | some random =>
      refine ⟨hP hrely hw, fun hseen => ?_, w.store.draws, Nat.lt_succ_self _, random, hrandom, rfl⟩
      have hbefore : Seen initial w (tokenOf random) := by
        simpa only [Seen, List.map_nil, List.append_nil] using hseen
      rcases hinv.drawn _ hbefore with hinitial | ⟨k, hk, random', hrandom', htoken⟩
      · exact hdistinct.fresh _ random hrandom hinitial
      · exact absurd (hdistinct.injective _ _ _ _ hrandom hrandom' htoken ▸ hk) (lt_irrefl _)

/-- What an operation starts from that reserves a lease. -/
structure Applying (env : Environment η) (i : ℕ) (me : Session) (owner : Owner)
    (execution : String) (w : Site η) : Prop where
  mine : Mine i w me.id
  lock : HoldsLock i w (executionLock env owner.instanceName execution)
  requests : Requests i owner w

variable {owner : Owner} {execution : String}

theorem firm_applying : Firm env initial i (Applying env i me owner execution) := by
  rintro w w' hrely ⟨hmine, hlock, hrequests⟩
  exact ⟨firm_mine _ hrely hmine, firm_holdsLock _ hrely hlock,
    firm_requests owner hrely hrequests⟩

theorem ownedBy_newLease (slot : ℕ) (gateway address : Ipv4Addr) (random : Entropy) :
    (newLease owner execution slot gateway address random).OwnedBy owner :=
  ⟨rfl, rfl, rfl, rfl⟩

/-- The owner that is found alive has started in the past. -/
theorem safe_ownerStarttime {P : Site η → Prop} (hP : Firm env initial i P) (pid : ℤ)
    (starttime : ℕ) : Keeps env initial i (Fallible.attempt (processStarttime pid)) P
      (fun start w => P w ∧ (isAlive start starttime = true → starttime < w.store.clock)) P := by
  have hread : Keeps env initial i (processStarttime pid) P
      (fun actual w => P w ∧ actual < w.store.clock) P := by
    refine safe_quiet (fun m => ?_) (fun w hinv hw => ?_)
      (fun actual => firm_and hP (firm_started actual)) hP
    · cases m.processes pid with
      | none => exact ⟨⟨⟨rfl, rfl, rfl, rfl, le_rfl⟩, rfl⟩, rfl⟩
      | some info => exact ⟨⟨⟨rfl, rfl, rfl, rfl, le_rfl⟩, rfl⟩, rfl⟩
    · cases hentry : w.store.processes pid with
      | none => exact hw
      | some info => exact ⟨hw, hinv.started pid info hentry⟩
  refine hread.attempt.conseq (fun _ hw => hw) ?_ fun _ hw => hw
  intro outcome w hw
  cases outcome with
  | ok actual =>
    refine ⟨hw.1, fun halive => ?_⟩
    rw [← beq_iff_eq.mp halive]
    exact hw.2
  | error _ => exact ⟨hw, fun halive => by cases halive⟩

theorem executionLock_ne_global (instanceName : String) :
    executionLock env instanceName execution ≠ .global := by
  intro h
  cases h

/-- A reservation inserts a lease of its own, or none. -/
theorem safe_reserve (hdistinct : DrawsDistinct env initial)
    (hunit : owner.instanceName ∈ env.policy.gardenUnits) :
    Keeps env initial i (reserve env me owner execution) (Applying env i me owner execution)
      (fun lease w => Building env i me lease w ∧ lease.OwnedBy owner)
      (fun w => Mine i w me.id) := by
  have hlasting : ∀ lease : Lease, Lasting env initial i me .global fun w =>
      Building env i me lease w ∧ lease.OwnedBy owner := by
    intro lease
    refine ⟨firm_and firm_building (firm_const _), fun w hw => hw.1.mine, ?_⟩
    rintro w ⟨⟨hmine, hlock, hentitles, hkept, hfile⟩, howned⟩
    exact ⟨⟨hmine, holdsLock_setLock (executionLock_ne_global _) hlock, hentitles, hkept, hfile⟩,
      howned⟩
  refine safe_withLock firm_applying (fun _ hw => hw.mine) (fun _ hw => hw.mine) hlasting
    lasting_mine ?_
  have hbase : Firm env initial i fun w =>
      Applying env i me owner execution w ∧ HoldsLock i w .global :=
    firm_and firm_applying (firm_holdsLock _)
  refine Safe.bind ((safe_ownerStarttime hbase owner.peer.pid owner.starttime).conseq
    (fun _ hw => hw) (fun _ _ hw => hw) fun _ hw => hw.1.mine) fun start => ?_
  refine Safe.bind (safe_require fun _ hw => hw.1.1.mine) fun _ => ?_
  have hready : Firm env initial i fun w => (Applying env i me owner execution w ∧
      HoldsLock i w .global) ∧ owner.starttime < w.store.clock :=
    firm_and hbase (firm_started _)
  refine Safe.bind ((safe_allRecords hready (fun _ hw => hw.1.2) (firm_mine me.id)
    fun _ hw => hw.1.1.mine).conseq (fun w hw => ⟨hw.1.1, hw.1.2 hw.2⟩) (fun _ _ hw => hw)
    fun _ hw => hw) fun leases => ?_
  refine Safe.bind (safe_require fun _ hw => hw.1.1.1.mine) fun _ => .assume fun hother => ?_
  dsimp only
  cases hslot : (List.range env.policy.slots).find? fun slot =>
      !(leases.map Lease.slot).contains slot with
  | none => exact .throw fun _ hw => hw.1.1.1.mine
  | some slot =>
    have hlisted : Firm env initial i fun w => ((Applying env i me owner execution w ∧
        HoldsLock i w .global) ∧ owner.starttime < w.store.clock) ∧
          Lists env.policy.gardenUnits leases w := by
      rintro w w' hrely ⟨hw, hlists⟩
      exact ⟨hready hrely hw, (firm_lists _ _ hrely ⟨hw.1.2, hlists⟩).2⟩
    refine Safe.bind ((tame_lift _).keep hlisted fun _ hw => hw.1.1.1.mine) fun addresses => ?_
    refine Safe.bind ((safe_randomBytes hdistinct hlisted fun _ hw => hw.1.1.2).conseq
      (fun _ hw => hw) (fun _ _ hw => hw) fun _ hw => hw.1.1.1.mine) fun random => ?_
    refine Safe.bind (safe_require fun _ hw => hw.1.1.1.1.mine) fun _ => ?_
    refine Safe.bind ((safe_save_vacant hunit rfl).conseq ?_ (fun _ _ hw => hw) fun _ hw => hw)
      fun _ => .pure fun _ hw => ⟨hw, ownedBy_newLease slot addresses.1 addresses.2 random⟩
    rintro w ⟨⟨⟨⟨⟨happlying, hglobal⟩, hstarted⟩, hlists⟩, hdrawn⟩, -⟩
    refine ⟨happlying.mine, hglobal, happlying.lock,
      entitles_of_requests happlying.requests (ownedBy_newLease slot _ _ random), hdrawn,
      hstarted, fun f hf hmember => ?_⟩
    obtain ⟨l, hl, hcore⟩ := hlists f hf hmember
    obtain ⟨-, hlslot, hinstance, hexecution, -⟩ := eq_of_core hcore
    rw [← hlslot, ← hinstance, ← hexecution]
    constructor
    · intro hsame
      change l.slot = slot at hsame
      have hunused : (leases.map Lease.slot).contains slot = false := by
        simpa only [Bool.not_eq_true'] using List.find?_some hslot
      have hused : slot ∈ leases.map Lease.slot := hsame ▸ List.mem_map_of_mem hl
      rw [List.contains_iff_mem.mpr hused] at hunused
      cases hunused
    · rintro ⟨hsameInstance, hsameExecution⟩
      have hnone : leases.any (fun l => l.instanceName == owner.instanceName &&
          l.executionId == execution) = false := by
        simpa only [Bool.not_eq_true'] using hother
      refine List.any_eq_false.mp hnone l hl ?_
      exact Bool.and_eq_true_iff.mpr ⟨beq_iff_eq.mpr hsameInstance, beq_iff_eq.mpr hsameExecution⟩

end Reservation

end Sower.Network
