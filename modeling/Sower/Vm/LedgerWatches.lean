import Sower.Vm.LedgerRuns

/-!
# Whom the ledger watches

The ledger hears of a guard's end through a monitor, and completes its entry then. An active
entry whose guard is recorded and monitored stays so through every turn until it is completed,
and `init` watches every guard whose row it finds.
-/

namespace Sower.Vm

open Durable

variable {l l' l'' : Ledger} {id : ℕ} {entry : Entry} {sight : Sight} {caller : Caller}

section Vocabulary

/-- While the entry is active, its guard is recorded and monitored. -/
def Ledger.Guarded (l : Ledger) (id : ℕ) : Prop :=
  ∀ entry, l.entries.lookup id = some entry → entry.active = true →
    entry.status.guard ≠ none ∧ ∃ ref, (ref, Kind.guard id) ∈ l.monitors

/-- Monitors have been given out, each for one thing. -/
structure Ledger.Numbered (l : Ledger) : Prop where
  given : ∀ m ∈ l.monitors, m.1 < l.history.refs
  nodup : (l.monitors.map Prod.fst).Nodup

/-- A part that leaves the monitors and the guards of active entries as they are. -/
structure Ledger.Calm (l l' : Ledger) : Prop where
  monitors : l'.monitors = l.monitors
  refs : l.history.refs ≤ l'.history.refs
  entries : ∀ id entry', l'.entries.lookup id = some entry' → entry'.active = true →
    ∃ entry, l.entries.lookup id = some entry ∧ entry.active = true ∧
      entry'.status.guard = entry.status.guard

theorem Ledger.Calm.refl : l.Calm l := ⟨rfl, le_rfl, fun _ entry h ha => ⟨entry, h, ha, rfl⟩⟩

theorem Ledger.Calm.trans (h : l.Calm l') (h' : l'.Calm l'') : l.Calm l'' where
  monitors := h'.monitors.trans h.monitors
  refs := h.refs.trans h'.refs
  entries id entry'' hlookup hactive := by
    obtain ⟨entry', hlookup', hactive', hguard'⟩ := h'.entries id entry'' hlookup hactive
    obtain ⟨entry, hlookup, hactive, hguard⟩ := h.entries id entry' hlookup' hactive'
    exact ⟨entry, hlookup, hactive, hguard'.trans hguard⟩

/-- What a part keeps of the ledger's watch. -/
structure Ledger.Tends (l l' : Ledger) : Prop where
  numbered : l.Numbered → l'.Numbered
  guarded : ∀ id, l.Guarded id → l'.Guarded id

theorem Ledger.Tends.trans (h : l.Tends l') (h' : l'.Tends l'') : l.Tends l'' :=
  ⟨fun hl => h'.numbered (h.numbered hl), fun id hid => h'.guarded id (h.guarded id hid)⟩

theorem Ledger.Calm.tends (h : l.Calm l') : l.Tends l' where
  numbered hl := by
    refine ⟨fun m hm => ?_, by rw [h.monitors]; exact hl.nodup⟩
    rw [h.monitors] at hm
    exact (hl.given m hm).trans_le h.refs
  guarded id hid entry' hlookup hactive := by
    obtain ⟨entry, hlookup, hactive, hguard⟩ := h.entries id entry' hlookup hactive
    rw [hguard, h.monitors]
    exact hid entry hlookup hactive

/-- Other fields than the monitors and the entries change. -/
theorem calm_of_entries (hentries : l'.entries = l.entries) (hmonitors : l'.monitors = l.monitors)
    (hrefs : l.history.refs ≤ l'.history.refs) : l.Calm l' :=
  ⟨hmonitors, hrefs, fun id entry h ha => ⟨entry, by rw [← hentries]; exact h, ha, rfl⟩⟩

/-- An entry is replaced by one that is active no sooner and has the same guard. -/
theorem calm_put {entry' : Entry} (hlookup : l.entries.lookup id = some entry)
    (hactive : entry'.active = true → entry.active = true)
    (hguard : entry'.status.guard = entry.status.guard) : l.Calm (l.put id entry') where
  monitors := rfl
  refs := le_rfl
  entries id' found hfound hfoundActive := by
    rcases lookup_insert_cases hfound with ⟨rfl, rfl⟩ | ⟨-, hfound⟩
    · exact ⟨entry, hlookup, hactive hfoundActive, hguard⟩
    · exact ⟨found, hfound, hfoundActive, rfl⟩

end Vocabulary

section Parts

theorem calm_settle : l.Calm (settle sight l).state := by
  unfold settle
  split
  · exact .refl
  · split
    · exact calm_of_entries rfl rfl le_rfl
    · split
      · exact calm_of_entries rfl rfl le_rfl
      · exact .refl

theorem calm_evictFrom (order : List ℕ) (l : Ledger) : l.Calm (evictFrom order l).state := by
  induction order generalizing l with
  | nil => exact .refl
  | cons id rest ih =>
    unfold evictFrom
    split
    · have hwithout : l.Calm (l.withoutOldest id rest) :=
        ⟨rfl, le_rfl, fun _ found hfound hactive =>
          ⟨found, (lookup_erase_cases hfound).2, hactive, rfl⟩⟩
      exact hwithout.trans (ih _)
    · exact .refl

theorem calm_complete {guard : Option Pid} {result : Result} {cleanup : Cleanup} :
    l.Calm (complete sight id guard result cleanup l).state := by
  unfold complete
  split
  · exact .refl
  · rename_i entry hlookup
    split
    · have houtcome : l.Calm (l.withOutcome id entry result cleanup) := by
        refine ⟨rfl, le_rfl, fun id' found hfound hactive => ?_⟩
        rcases lookup_insert_cases hfound with ⟨rfl, rfl⟩ | ⟨-, hfound⟩
        · rw [completed_inactive] at hactive
          cases hactive
        · exact ⟨found, hfound, hactive, rfl⟩
      exact (houtcome.trans (calm_evictFrom _ _)).trans calm_settle
    · exact .refl

theorem calm_certificate : l.Calm (certificate sight id l).state := by
  unfold certificate
  split
  · rename_i hlookup
    refine Ledger.Calm.trans ?_ calm_complete
    exact calm_put hlookup (fun hactive => hactive) rfl
  · exact .refl

theorem guard_foldl_apply (changes : List StatusChange) (status : Status) :
    (changes.foldl Status.apply status).guard = status.guard := by
  induction changes generalizing status with
  | nil => rfl
  | cons change rest ih =>
    rw [List.foldl_cons, ih]
    cases change <;> rfl

theorem guard_recoverStatus (entry : Entry) :
    (recoverStatus sight id entry).status.guard = entry.status.guard := by
  unfold recoverStatus
  split
  · exact guard_foldl_apply _ _
  · rfl

/-- A monitor takes the place of the one of its kind. -/
theorem tends_monitor (pid : Option Pid) (kind : Kind) (l : Ledger) :
    l.Tends (monitor pid kind l).state := by
  cases pid with
  | none => exact Ledger.Calm.refl.tends
  | some pid =>
    refine ⟨fun hl => ⟨fun m hm => ?_, ?_⟩, fun id hid entry hlookup hactive => ?_⟩
    · rcases List.mem_cons.mp hm with rfl | hm
      · exact Nat.lt_succ_self _
      · exact (hl.given m (List.mem_of_mem_filter hm)).trans (Nat.lt_succ_self _)
    · refine List.nodup_cons.mpr ⟨fun hmem => ?_, ?_⟩
      · obtain ⟨m, hm, hm'⟩ := List.mem_map.mp hmem
        have hlt := hl.given m (List.mem_of_mem_filter hm)
        rw [hm'] at hlt
        exact lt_irrefl _ hlt
      · exact hl.nodup.sublist (List.filter_sublist.map _)
    · obtain ⟨hguard, ref, hmem⟩ := hid entry hlookup hactive
      refine ⟨hguard, ?_⟩
      by_cases hkind : Kind.guard id = kind
      · exact ⟨l.history.refs, by rw [hkind]; exact List.mem_cons_self⟩
      · exact ⟨ref, List.mem_cons_of_mem _ (List.mem_filter.mpr ⟨hmem, by simpa using hkind⟩)⟩

/-- After a monitor was set on a guard that is recorded, the entry is guarded. -/
theorem guarded_monitor {guard : Option Pid} (hguard : ∀ entry, l.entries.lookup id = some entry →
    entry.status.guard = guard) (hsome : guard ≠ none) :
    (monitor guard (.guard id) l).state.Guarded id := by
  cases guard with
  | none => exact absurd rfl hsome
  | some pid =>
    intro entry hlookup _
    have hrecorded : entry.status.guard = some pid := hguard entry hlookup
    exact ⟨by rw [hrecorded]; simp, l.history.refs, List.mem_cons_self⟩

end Parts

section Turns

variable {l₁ : Ledger}

/-- A process takes a place in the ledger. -/
theorem tends_attached {pid : Pid} {kind : Kind} (hentries : l₁.entries = l.entries)
    (hmonitors : l₁.monitors = l.monitors) (hrefs : l.history.refs ≤ l₁.history.refs) :
    l.Tends (settle sight (monitor (some pid) kind l₁).state).state :=
  ((calm_of_entries hentries hmonitors hrefs).tends.trans (tends_monitor _ _ _)).trans
    calm_settle.tends

theorem tends_attachManager {pid : Pid} :
    l.Tends (attachManager sight caller pid l).state := by
  unfold attachManager
  split
  · exact tends_attached rfl rfl le_rfl
  · exact tends_attached rfl rfl le_rfl

theorem tends_attachSupervisor {pid : Pid} :
    l.Tends (attachSupervisor sight caller pid l).state := by
  unfold attachSupervisor
  split
  · exact tends_attached rfl rfl le_rfl
  · exact tends_attached rfl rfl le_rfl

theorem calm_wait (hlookup : l.entries.lookup id = some entry) :
    l.Calm (wait caller id entry l).state :=
  calm_put hlookup (fun hactive => hactive) rfl

theorem calm_stop : l.Calm (stop caller id l).state := by
  unfold stop
  split
  · rename_i entry hlookup
    split
    · exact calm_wait hlookup
    · exact .refl
  · exact .refl

theorem calm_cancel : l.Calm (cancel caller id l).state := by
  unfold cancel
  split <;> exact .refl

theorem calm_await : l.Calm (await caller id l).state := by
  unfold await
  split
  · rename_i entry hlookup
    split
    · exact calm_wait hlookup
    · exact .refl
  · exact .refl

theorem calm_status : l.Calm (status caller id l).state := by
  unfold status
  split <;> exact .refl

/-- A guard that asks is recorded and monitored, whoever was before. -/
theorem guarded_guardStarted (guard : Pid) :
    (guardStarted caller id guard l).state.Guarded id := by
  unfold guardStarted
  split
  · rename_i entry hlookup
    refine guarded_monitor (fun found hfound => ?_) (by simp)
    rcases lookup_insert_cases hfound with ⟨-, rfl⟩ | ⟨hne, -⟩
    · rfl
    · exact absurd rfl hne
  · rename_i hnone
    intro entry hlookup _
    exact absurd (hnone.symm.trans hlookup) (by simp)

theorem tends_guardStarted (guard : Pid) :
    l.Tends (guardStarted caller id guard l).state := by
  refine ⟨fun hl => ?_, fun id' hid' => ?_⟩
  · unfold guardStarted
    split
    · exact (tends_monitor _ _ _).numbered ⟨hl.given, hl.nodup⟩
    · exact hl
  · by_cases hid : id' = id
    · subst hid
      exact guarded_guardStarted guard
    · unfold guardStarted
      split
      · refine (tends_monitor _ _ _).guarded id' fun found hfound => ?_
        rcases lookup_insert_cases hfound with ⟨rfl, -⟩ | ⟨-, hfound⟩
        · exact absurd rfl hid
        · exact hid' found hfound
      · exact hid'

theorem calm_armTimer : l.Calm (armTimer l).state := by
  unfold armTimer
  split
  · exact .refl
  · exact calm_of_entries rfl rfl (Nat.le_succ _)

theorem calm_shutdown : l.Calm (shutdown sight caller l).state := by
  refine Ledger.Calm.trans ?_ calm_settle
  refine Ledger.Calm.trans ?_ calm_armTimer
  exact calm_of_entries rfl rfl le_rfl

theorem calm_shutdownDeadline : l.Calm (shutdownDeadline l).state :=
  calm_of_entries rfl rfl le_rfl

theorem calm_statusChanged {guard : Pid} {changes : List StatusChange} :
    l.Calm (statusChanged id guard changes l).state := by
  unfold statusChanged
  split
  · rename_i entry hlookup
    split
    · rename_i hguard
      exact calm_put hlookup (fun _ => (Bool.and_eq_true _ _ ▸ hguard).2) (guard_foldl_apply _ _)
    · exact .refl
  · exact .refl

theorem calm_executionDown : l.Calm (executionDown id l).state := by
  unfold executionDown
  split
  · split <;> exact .refl
  · exact .refl

theorem calm_guardLost {reason : Term} : l.Calm (guardLost sight id reason l).state := by
  unfold guardLost
  split
  · rename_i entry hlookup
    split
    · rename_i hactive
      exact (calm_put hlookup (fun _ => hactive) (guard_recoverStatus entry)).trans calm_complete
    · exact .refl
  · exact .refl

theorem calm_guardDown {reason : Term} : l.Calm (guardDown sight id reason l).state :=
  calm_certificate.trans calm_guardLost

theorem calm_ended {reason : Term} (kind : Option Kind) :
    l.Calm (ended sight reason l kind).state := by
  cases kind with
  | none => exact .refl
  | some kind =>
    cases kind with
    | manager => exact calm_of_entries rfl rfl le_rfl
    | supervisor => exact calm_of_entries rfl rfl le_rfl
    | parent => exact calm_of_entries rfl rfl le_rfl
    | execution id => exact calm_executionDown
    | guard id => exact calm_guardDown

/-- A completion that the entry's own guard asks for. -/
theorem complete_own {result : Result} {cleanup : Cleanup}
    (hlookup : l.entries.lookup id = some entry) (hactive : entry.active = true) :
    (complete sight id entry.status.guard result cleanup l).state =
      (settle sight (evict (l.withOutcome id entry result cleanup)).state).state := by
  unfold complete
  rw [hlookup]
  dsimp only
  rw [hactive, Bool.and_true, if_pos (decide_eq_true rfl)]
  rfl

theorem inactive_complete {result : Result} {cleanup : Cleanup}
    (hlookup : l.entries.lookup id = some entry) (hactive : entry.active = true) :
    ¬ (complete sight id entry.status.guard result cleanup l).state.Active id := by
  rw [complete_own hlookup hactive]
  have hcalm : (l.withOutcome id entry result cleanup).Calm
      (settle sight (evict (l.withOutcome id entry result cleanup)).state).state :=
    (calm_evictFrom _ _).trans calm_settle
  rintro ⟨found, hfound, hfoundActive⟩
  obtain ⟨before, hbefore, hbeforeActive, -⟩ := hcalm.entries id found hfound hfoundActive
  rcases lookup_insert_cases hbefore with ⟨-, rfl⟩ | ⟨hne, -⟩
  · rw [completed_inactive] at hbeforeActive
    cases hbeforeActive
  · exact absurd rfl hne

/-- Once its guard is down the entry is completed. -/
theorem inactive_guardLost (reason : Term) :
    ¬ (guardLost sight id reason l).state.Active id := by
  unfold guardLost
  split
  · rename_i entry hlookup
    split
    · rename_i hactive
      have hput : (l.put id (recoverStatus sight id entry)).entries.lookup id =
          some (recoverStatus sight id entry) := AList.lookup_insert _
      exact inactive_complete hput ((like_recoverStatus sight id entry).active.trans hactive)
    · rename_i hinactive
      rintro ⟨found, hfound, hactive⟩
      cases hlookup.symm.trans hfound
      exact hinactive hactive
  · rename_i hnone
    rintro ⟨found, hfound, -⟩
    exact absurd (hnone.symm.trans hfound) (by simp)

/-- The ledger without the monitor that has fired. -/
abbrev Ledger.unmonitored (l : Ledger) (ref : Ref) : Ledger :=
  { l with monitors := l.monitors.filter fun m => m.1 ≠ ref }

theorem lookup_monitors (hl : l.Numbered) {ref : Ref} {kind : Kind}
    (hmem : (ref, kind) ∈ l.monitors) : l.monitors.lookup ref = some kind := by
  obtain ⟨before, after, heq⟩ := List.append_of_mem hmem
  refine List.lookup_eq_some_iff.mpr ⟨before, after, heq, fun m hm => ?_⟩
  have hnodup := hl.nodup
  rw [heq, List.map_append, List.map_cons] at hnodup
  have hne : ref ≠ m.1 := fun hsame =>
    (List.nodup_append.mp hnodup).2.2 m.1 (List.mem_map_of_mem hm) ref List.mem_cons_self
      hsame.symm
  simpa using hne

/-- The end of its guard completes an entry. -/
theorem inactive_down {ref : Ref} {reason : Term}
    (hkind : l.monitors.lookup ref = some (.guard id)) :
    ¬ (down sight ref reason l).state.Active id := by
  unfold down
  rw [hkind]
  rintro ⟨found, hfound, hactive⟩
  obtain ⟨before, hbefore, hbeforeActive, -⟩ := calm_settle.entries id found hfound hactive
  exact inactive_guardLost reason ⟨before, hbefore, hbeforeActive⟩

/-- The end of a process leaves every other entry guarded, and completes its own. -/
theorem tends_down (hl : l.Numbered) {ref : Ref} {reason : Term} :
    (down sight ref reason l).state.Numbered ∧
      ∀ id, l.Guarded id → (down sight ref reason l).state.Guarded id := by
  have hcalm : (l.unmonitored ref).Calm (down sight ref reason l).state :=
    (calm_ended _).trans calm_settle
  refine ⟨hcalm.tends.numbered ⟨fun m hm => hl.given m (List.mem_of_mem_filter hm),
    hl.nodup.sublist (List.filter_sublist.map _)⟩, fun id hid => ?_⟩
  by_cases hkind : l.monitors.lookup ref = some (.guard id)
  · exact fun entry hlookup hactive => absurd ⟨entry, hlookup, hactive⟩ (inactive_down hkind)
  · refine hcalm.tends.guarded id fun entry hlookup hactive => ?_
    obtain ⟨hguard, ref', hmem⟩ := hid entry hlookup hactive
    refine ⟨hguard, ref', List.mem_filter.mpr ⟨hmem, ?_⟩⟩
    have hne : ref' ≠ ref := by
      rintro rfl
      exact hkind (lookup_monitors hl hmem)
    simpa using hne

/-- Messages that admit nothing keep the watch. -/
theorem tends_handle (hl : l.Numbered) {message : Message} (hnot : ¬ message.Admits l) :
    (handle sight message l).state.Numbered ∧
      ∀ id, l.Guarded id → (handle sight message l).state.Guarded id := by
  have hall : ∀ {l' : Ledger}, l.Tends l' → l'.Numbered ∧ ∀ id, l.Guarded id → l'.Guarded id :=
    fun h => ⟨h.numbered hl, h.guarded⟩
  cases message with
  | call caller request =>
    cases request with
    | attachManager pid => exact hall tends_attachManager
    | attachSupervisor pid => exact hall tends_attachSupervisor
    | start options child =>
      change (start caller options child l).state.Numbered ∧ _
      have hrefused : (handle sight (.call caller (.start options child)) l).state = l := by
        change (start caller options child l).state = l
        unfold start
        split
        · rfl
        · rename_i hnone
          exact absurd hnone hnot
      rw [← hrefused] at hl
      refine ⟨hl, fun id hid => ?_⟩
      rw [hrefused]
      exact hid
    | list => exact hall Ledger.Calm.refl.tends
    | status id => exact hall calm_status.tends
    | stop id => exact hall calm_stop.tends
    | cancel id => exact hall calm_cancel.tends
    | await id => exact hall calm_await.tends
    | guardStarted id guard => exact hall (tends_guardStarted guard)
    | finished id guard result cleanup => exact hall calm_complete.tends
    | shutdown => exact hall calm_shutdown.tends
  | statusChanged id guard changes => exact hall calm_statusChanged.tends
  | down ref reason => exact tends_down hl
  | shutdownDeadline => exact hall calm_shutdownDeadline.tends

end Turns

section Boots

variable {id' : ℕ} {options : LedgerOptions} {saved : Option Ledger} {t : LedgerTurn}

theorem entries_monitor (pid : Option Pid) (kind : Kind) (l : Ledger) :
    (monitor pid kind l).state.entries = l.entries := by
  cases pid <;> rfl

theorem guarded_put (hne : id' ≠ id) (h : l.Guarded id') : (l.put id entry).Guarded id' := by
  intro found hfound
  rcases lookup_insert_cases hfound with ⟨rfl, -⟩ | ⟨-, hfound⟩
  · exact absurd rfl hne
  · exact h found hfound

/-- One round of the recovery leaves the others guarded, and guards an entry with a row. -/
theorem guarded_recoverEntry (h : l.Guarded id' ∨ id' = id ∧ sight.guardRow id ≠ none) :
    (recoverEntry sight id l).state.Guarded id' := by
  unfold recoverEntry
  split
  · rename_i hnone
    rcases h with h | ⟨rfl, -⟩
    · exact h
    · intro found hfound
      exact absurd (hnone.symm.trans hfound) (by simp)
  · rename_i entry hlookup
    refine calm_certificate.tends.guarded id' ?_
    by_cases hid : id' = id
    · subst hid
      by_cases hguard : (recoverStatus sight id' (entry.located sight id')).status.guard = none
      · rcases h with h | ⟨-, hrow⟩
        · refine (tends_monitor _ _ _).guarded id' ((tends_monitor _ _ _).guarded id' ?_)
          intro found hfound hactive
          rcases lookup_insert_cases hfound with ⟨-, rfl⟩ | ⟨hne, -⟩
          · have hlike := ((like_located sight id' entry).trans
              (like_recoverStatus sight id' (entry.located sight id'))).active
            obtain ⟨hsome, -⟩ := h entry hlookup (hlike.symm.trans hactive)
            rw [guard_recoverStatus] at hguard
            exact absurd (Option.or_eq_none_iff.mp hguard).2 hsome
          · exact absurd rfl hne
        · rw [guard_recoverStatus] at hguard
          exact absurd (Option.or_eq_none_iff.mp hguard).1 hrow
      · refine guarded_monitor (fun found hfound => ?_) hguard
        rw [entries_monitor] at hfound
        rcases lookup_insert_cases hfound with ⟨-, rfl⟩ | ⟨hne, -⟩
        · rfl
        · exact absurd rfl hne
    · rcases h with h | ⟨hsame, -⟩
      · exact (tends_monitor _ _ _).guarded id' ((tends_monitor _ _ _).guarded id'
          (guarded_put hid h))
      · exact absurd hsame hid

theorem numbered_recoverEntry (h : l.Numbered) : (recoverEntry sight id l).state.Numbered := by
  unfold recoverEntry
  split
  · exact h
  · refine calm_certificate.tends.numbered ?_
    exact (tends_monitor _ _ _).numbered ((tends_monitor _ _ _).numbered ⟨h.given, h.nodup⟩)

theorem numbered_recoverEntries (ids : List ℕ) (h : l.Numbered) :
    (recoverEntries sight ids l).state.Numbered := by
  induction ids generalizing l with
  | nil => exact h
  | cons id rest ih => exact ih (numbered_recoverEntry h)

theorem guarded_recoverEntries (ids : List ℕ) (hrow : sight.guardRow id ≠ none)
    (h : l.Guarded id ∨ id ∈ ids) : (recoverEntries sight ids l).state.Guarded id := by
  induction ids generalizing l with
  | nil => exact h.resolve_right List.not_mem_nil
  | cons id' rest ih =>
    refine ih (l := (recoverEntry sight id' l).state) ?_
    rcases h with h | h
    · exact .inl (guarded_recoverEntry (.inl h))
    · rcases List.mem_cons.mp h with rfl | h
      · exact .inl (guarded_recoverEntry (.inr ⟨rfl, hrow⟩))
      · exact .inr h

theorem numbered_restore : (options.restore saved).Numbered := by
  cases saved <;> exact ⟨fun m hm => (by cases hm), List.nodup_nil⟩

theorem numbered_andThen {f : Ledger → LedgerTurn} (ht : t.state.Numbered)
    (hf : ∀ l : Ledger, l.Numbered → (f l).state.Numbered) : (t.andThen f).state.Numbered :=
  hf _ ht

theorem guarded_andThen {f : Ledger → LedgerTurn} (hf : ∀ l : Ledger, (f l).state.Guarded id) :
    (t.andThen f).state.Guarded id :=
  hf _

theorem numbered_init (h : init options sight saved = some t) : t.state.Numbered := by
  unfold init at h
  split at h
  · cases h
    refine numbered_andThen ((tends_monitor _ _ _).numbered numbered_restore) fun l₁ h₁ =>
      numbered_andThen ((tends_monitor _ _ _).numbered h₁) fun l₂ h₂ =>
      numbered_andThen ((tends_monitor _ _ _).numbered h₂) fun l₃ h₃ =>
      numbered_andThen ((calm_evictFrom _ _).tends.numbered h₃) fun l₄ h₄ => ?_
    refine numbered_andThen (numbered_recoverEntries _ h₄) fun l₅ h₅ =>
      numbered_andThen h₅ fun l₆ h₆ => ?_
    exact calm_settle.tends.numbered h₆
  · cases h

/-- After `init` every guard with a row is watched. -/
theorem guarded_init (h : init options sight saved = some t) (hrow : sight.guardRow id ≠ none) :
    t.state.Guarded id := by
  unfold init at h
  split at h
  · cases h
    refine guarded_andThen fun l₁ => guarded_andThen fun l₂ => guarded_andThen fun l₃ =>
      guarded_andThen fun l₄ => ?_
    have hrecovered : (recoverEntries sight l₄.entries.keys l₄).state.Guarded id := by
      refine guarded_recoverEntries _ hrow (or_iff_not_imp_right.mpr fun hnot entry hlookup => ?_)
      exact absurd (AList.mem_keys.mp (AList.lookup_isSome.mp (hlookup ▸ rfl))) hnot
    exact calm_settle.tends.guarded id hrecovered
  · cases h

end Boots

section Starts

variable {options : StartOptions} {child : Except Term Pid}

theorem handle_started (hnone : refusal options l = none) :
    handle sight (.call caller (.start options child)) l =
      (admitStart options l).andThen (started caller options l.history.ids child) := by
  change start caller options child l = _
  unfold start
  rw [hnone]

/-- A start leaves the other entries guarded. -/
theorem tends_started (hl : l.Numbered) (hnone : refusal options l = none) :
    (handle sight (.call caller (.start options child)) l).state.Numbered ∧
      ∀ id ≠ l.history.ids, l.Guarded id →
        (handle sight (.call caller (.start options child)) l).state.Guarded id := by
  rw [handle_started hnone]
  have hadmitted : (l.admitted options).Numbered := ⟨hl.given, hl.nodup⟩
  have hothers : ∀ id ≠ l.history.ids, l.Guarded id → (l.admitted options).Guarded id :=
    fun id hne hid => @guarded_put l _ (options.entry l.history.ids) id hne hid
  cases child with
  | ok execution =>
    refine ⟨(tends_monitor _ _ _).numbered ⟨hl.given, hl.nodup⟩, fun id hne hid => ?_⟩
    exact (tends_monitor _ _ _).guarded id (guarded_put hne (hothers id hne hid))
  | error reason =>
    refine ⟨⟨hl.given, hl.nodup⟩, fun id hne hid entry hlookup hactive => ?_⟩
    exact hothers id hne hid entry (lookup_erase_cases hlookup).2 hactive

/-- A start stores what was active before, and the new entry. -/
theorem active_started (hl : l.Sound) (hnone : refusal options l = none) :
    (handle sight (.call caller (.start options child)) l).Keeps Effect.stored fun l' =>
      ∀ id, l'.Active id → l.Active id ∨ id = l.history.ids := by
  rw [handle_started hnone]
  have hadmitted : ∀ id, (l.admitted options).Active id → l.Active id ∨ id = l.history.ids := by
    rintro id ⟨entry, hlookup, hactive⟩
    rcases lookup_insert_cases hlookup with ⟨rfl, -⟩ | ⟨-, hlookup⟩
    · exact .inr rfl
    · exact .inl ⟨entry, hlookup, hactive⟩
  have hstart : (admitStart options l).Keeps Effect.stored fun l' => l' = l.admitted options := by
    have hpersist : (persist (l.admitted options)).Keeps Effect.stored fun l' =>
        l' = l.admitted options := keeps_persisted rfl
    refine hpersist.andThen fun l' hl' => keeps_silent hl' fun e he => ?_
    rw [List.mem_singleton.mp he]
    rfl
  refine hstart.followed (fun l' hl' => ?_) (fun l' hl' => hl' ▸ hadmitted) fun l' h => h
  subst hl'
  cases child with
  | ok execution =>
    have hproper : Proper (l.admitted options)
        (started caller options l.history.ids (.ok execution) (l.admitted options)) := by
      refine Proper.andThen ?_ (proper_respond _ _)
      exact proper_put (sound_admitted hl options) (AList.lookup_insert _)
        (like_status rfl rfl rfl) (proper_monitor _ _)
    exact hproper.mono fun l' h id hid => hadmitted id (h.2.1.active id hid)
  | error reason =>
    refine keeps_responded fun id => ?_
    rintro ⟨entry, hlookup, hactive⟩
    exact hadmitted id ⟨entry, (lookup_erase_cases hlookup).2, hactive⟩

/-- A start that failed leaves no entry. -/
theorem active_failed (hnone : refusal options l = none) {reason : Term} :
    ∀ id, (handle sight (.call caller (.start options (.error reason))) l).state.Active id →
      l.Active id := by
  rw [handle_started hnone]
  rintro id ⟨entry, hlookup, hactive⟩
  obtain ⟨hne, hlookup⟩ := lookup_erase_cases hlookup
  rcases lookup_insert_cases hlookup with ⟨rfl, -⟩ | ⟨-, hlookup⟩
  · exact absurd rfl hne
  · exact ⟨entry, hlookup, hactive⟩

end Starts

end Sower.Vm
