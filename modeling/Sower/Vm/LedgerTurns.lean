import Sower.Vm.LedgerParts

/-!
# What a turn of the ledger keeps

Every message but a start is handled by parts that admit nothing. A start adds
one entry, under a number that was never given out before, when the mode is open
and its resources are within the budgets.
-/

namespace Sower.Vm

open Durable

variable {l l' l'' : Ledger} {id : ℕ} {entry : Entry} {sight : Sight} {caller : Caller}

section Recovery

theorem like_located (sight : Sight) (id : ℕ) (entry : Entry) :
    entry.Like (entry.located sight id) := like_status rfl rfl rfl

theorem proper_recoverEntry : ProperPart (recoverEntry sight id) := by
  intro l hl
  unfold recoverEntry
  split
  · exact proper_still hl
  · rename_i entry hlookup
    refine Proper.andThen ?_ fun l₁ hl₁ => (proper_monitor _ _ l₁ hl₁).andThen proper_certificate
    exact proper_put hl hlookup ((like_located sight id entry).trans (like_recoverStatus _ _ _))
      (proper_monitor _ _)

theorem proper_recoverEntries (ids : List ℕ) : ProperPart (recoverEntries sight ids) := by
  induction ids with
  | nil => exact fun l hl => proper_still hl
  | cons id rest ih => exact fun l hl => (proper_recoverEntry l hl).andThen ih

/-- What `init` does from the restored state on. -/
theorem proper_init {options : LedgerOptions} {saved : Option Ledger} {t : LedgerTurn}
    (h : init options sight saved = some t) (hl : (options.restore saved).Sound) :
    Proper (options.restore saved) t := by
  unfold init at h
  split at h
  · cases h
    refine (proper_monitor _ _ _ hl).andThen fun l₁ hl₁ => (proper_monitor _ _ l₁ hl₁).andThen
      fun l₂ hl₂ => (proper_monitor _ _ l₂ hl₂).andThen fun l₃ hl₃ =>
      (proper_evict l₃ hl₃).andThen fun l₄ hl₄ => ?_
    exact (proper_recoverEntries _ l₄ hl₄).andThen fun l₅ hl₅ => (proper_drain l₅ hl₅).andThen
      fun l₆ hl₆ => (proper_settle l₆ hl₆).andThen proper_persist
  · cases h

theorem sameAccounts_restore (options : LedgerOptions) (l : Ledger) :
    l.SameAccounts (options.restore (some l)) := ⟨rfl, rfl, rfl, rfl⟩

/-- An empty ledger. -/
theorem sound_empty {budgets : Resources} : ({ budgets := budgets } : Ledger).Sound where
  entries id entry hlookup := by
    rw [AList.lookup_empty] at hlookup
    cases hlookup
  fresh id hid := absurd hid (AList.notMem_empty id)
  past outcome hmem := by cases hmem
  once := List.nodup_nil
  gone id result cleanup hmem := by cases hmem
  orderNodup := List.nodup_nil
  order id := by
    simp only [AList.lookup_empty]
    simp

theorem sound_restore {options : LedgerOptions} {saved : Option Ledger}
    (h : ∀ l, saved = some l → l.Sound) : (options.restore saved).Sound := by
  cases saved with
  | none => exact (@sound_empty options.budgets).congr ⟨rfl, rfl, rfl, rfl⟩
  | some l => exact (h l rfl).congr (sameAccounts_restore options l)

end Recovery

section Calls

theorem moves_recovering {l' : Ledger} (hsame : l.SameAccounts l')
    (hbudgets : l'.budgets = l.budgets) (hlimit : l'.resultLimit = l.resultLimit)
    (hmode : l'.mode = recoveryMode l) : l.Moves l' := by
  refine hsame.moves hbudgets hlimit (fun hopen => ?_) fun hshutdown => ?_
  · rw [hmode, recoveryMode] at hopen
    split at hopen <;> cases hopen
  · rw [hmode, recoveryMode, if_pos hshutdown]

/-- Admission stops: the mode is recovering or shutdown, and what is active is told to stop. -/
theorem proper_stopped {l' : Ledger} (hl : l.Sound) (hsame : l.SameAccounts l')
    (hbudgets : l'.budgets = l.budgets) (hlimit : l'.resultLimit = l.resultLimit)
    (hmode : l'.mode = recoveryMode l) : Proper l (drain l') :=
  (proper_drain l' (hl.congr hsame)).from (moves_recovering hsame hbudgets hlimit hmode)
    (bounds_of_order hsame.order)

/-- A process takes a place in the ledger. -/
theorem proper_attached {pid : Pid} {kind : Kind} (hl : l.Sound) (hsame : l.SameAccounts l')
    (hbudgets : l'.budgets = l.budgets) (hlimit : l'.resultLimit = l.resultLimit)
    (hmode : l'.mode = l.mode) :
    Proper l ((monitor (some pid) kind l').andThen fun l =>
      (settle sight l).andThen (respond caller .ok)) := by
  refine ((proper_monitor _ _ l' (hl.congr hsame)).andThen fun l₁ hl₁ =>
    (proper_settle l₁ hl₁).andThen (proper_respond _ _)).from ?_ (bounds_of_order hsame.order)
  exact hsame.moves hbudgets hlimit (fun hopen => Or.inl (hmode ▸ hopen))
    fun hshutdown => hmode.trans hshutdown

theorem proper_attachManager (pid : Pid) : ProperPart (attachManager sight caller pid) := by
  intro l hl
  unfold attachManager
  refine Proper.andThen ?_ fun l₁ hl₁ => proper_attached hl₁ ⟨rfl, rfl, rfl, rfl⟩ rfl rfl rfl
  split
  · exact proper_stopped hl ⟨rfl, rfl, rfl, rfl⟩ rfl rfl rfl
  · exact proper_still hl

theorem proper_attachSupervisor (pid : Pid) : ProperPart (attachSupervisor sight caller pid) := by
  intro l hl
  unfold attachSupervisor
  refine Proper.andThen ?_ fun l₁ hl₁ => proper_attached hl₁ ⟨rfl, rfl, rfl, rfl⟩ rfl rfl rfl
  split
  · exact proper_stopped hl ⟨rfl, rfl, rfl, rfl⟩ rfl rfl rfl
  · exact proper_still hl

theorem proper_list : ProperPart (list caller) := by
  refine fun l hl => proper_emit (fun e he => ?_) l hl
  rw [List.mem_singleton.mp he]
  rfl

theorem proper_status : ProperPart (status caller id) := by
  intro l hl
  unfold status
  split <;> exact proper_respond _ _ l hl

/-- An active entry gets another caller that waits for it. -/
theorem proper_wait (hl : l.Sound) (hlookup : l.entries.lookup id = some entry)
    (hactive : entry.active = true) : Proper l (wait caller id entry l) := by
  refine proper_put hl hlookup ⟨rfl, rfl, rfl, rfl, rfl, fun hdone => ?_⟩ proper_persist
  rw [hactive] at hdone
  cases hdone

theorem proper_cancelEntry {result : Result} :
    ProperPart (Turn.emit (cancelEntry entry result)) :=
  proper_emit fun _ he => stored_cancelEntry he

theorem proper_stop : ProperPart (stop caller id) := by
  intro l hl
  unfold stop
  split
  · rename_i entry hlookup
    split
    · rename_i hactive
      exact Proper.andThen_emit (proper_cancelEntry l hl) (proper_wait hl hlookup hactive)
    · exact proper_respond _ _ l hl
  · exact proper_respond _ _ l hl

theorem proper_cancel : ProperPart (cancel caller id) := by
  intro l hl
  unfold cancel
  split
  · refine (proper_emit (fun e he => ?_) l hl).andThen (proper_respond _ _)
    split at he
    · exact stored_cancelEntry he
    · cases he
  · exact proper_respond _ _ l hl

theorem proper_await : ProperPart (await caller id) := by
  intro l hl
  unfold await
  split
  · rename_i entry hlookup
    split
    · rename_i hactive
      exact proper_wait hl hlookup hactive
    · exact proper_respond _ _ l hl
  · exact proper_respond _ _ l hl

theorem proper_guardStarted (guard : Pid) : ProperPart (guardStarted caller id guard) := by
  intro l hl
  unfold guardStarted
  split
  · rename_i entry hlookup
    refine Proper.andThen ?_ fun l₁ hl₁ => proper_respond _ _ l₁ hl₁
    exact proper_put hl hlookup (like_status rfl rfl rfl) (proper_monitor _ _)
  · exact proper_respond _ _ l hl

theorem proper_finished {guard : Pid} {result : Result} {cleanup : Cleanup} :
    ProperPart (finished sight caller id guard result cleanup) :=
  fun l hl => (proper_complete l hl).andThen (proper_respond _ _)

theorem proper_shutdown : ProperPart (shutdown sight caller) := by
  intro l hl
  unfold shutdown
  have hsame : l.SameAccounts
      { l with mode := .shutdown, shutdownWaiters := caller :: l.shutdownWaiters } :=
    ⟨rfl, rfl, rfl, rfl⟩
  have hmoves : l.Moves
      { l with mode := .shutdown, shutdownWaiters := caller :: l.shutdownWaiters } :=
    hsame.moves rfl rfl (fun hopen => by cases hopen) fun _ => rfl
  refine Proper.from hmoves (bounds_of_order rfl) ?_
  exact (proper_drain _ (hl.congr hsame)).andThen fun l₁ hl₁ => (proper_armTimer l₁ hl₁).andThen
    fun l₂ hl₂ => (proper_settle l₂ hl₂).andThen proper_persist

end Calls

section Messages

theorem proper_statusChanged (guard : Pid) (changes : List StatusChange) :
    ProperPart (statusChanged id guard changes) := by
  intro l hl
  unfold statusChanged
  split
  · rename_i entry hlookup
    split
    · rename_i hguard
      have hactive : entry.active = true := (Bool.and_eq_true _ _ ▸ hguard).2
      exact proper_put hl hlookup (like_foldl_apply changes hactive) proper_persist
    · exact proper_persist l hl
  · exact proper_persist l hl

theorem proper_executionDown : ProperPart (executionDown id) := by
  intro l hl
  unfold executionDown
  split
  · split
    · refine proper_emit (fun e he => ?_) l hl
      split at he
      · rw [List.mem_singleton.mp he]
        rfl
      · cases he
    · exact proper_still hl
  · exact proper_still hl

theorem proper_guardLost (reason : Term) : ProperPart (guardLost sight id reason) := by
  intro l hl
  unfold guardLost
  split
  · rename_i entry hlookup
    split
    · exact proper_put hl hlookup (like_recoverStatus _ _ _) proper_complete
    · exact proper_still hl
  · exact proper_still hl

theorem proper_guardDown (reason : Term) : ProperPart (guardDown sight id reason) :=
  fun l hl => (proper_certificate l hl).andThen (proper_guardLost reason)

theorem proper_ended (reason : Term) (kind : Option Kind) :
    ProperPart fun l => ended sight reason l kind := by
  intro l hl
  cases kind with
  | none => exact proper_still hl
  | some kind =>
    cases kind with
    | manager => exact proper_stopped hl ⟨rfl, rfl, rfl, rfl⟩ rfl rfl rfl
    | supervisor => exact proper_stopped hl ⟨rfl, rfl, rfl, rfl⟩ rfl rfl rfl
    | parent => exact proper_stopped hl ⟨rfl, rfl, rfl, rfl⟩ rfl rfl rfl
    | execution id => exact proper_executionDown l hl
    | guard id => exact proper_guardDown reason l hl

theorem proper_down (ref : Ref) (reason : Term) : ProperPart (down sight ref reason) := by
  intro l hl
  unfold down
  have hsame : l.SameAccounts { l with monitors := l.monitors.filter fun m => m.1 ≠ ref } :=
    ⟨rfl, rfl, rfl, rfl⟩
  refine Proper.from (hsame.moves rfl rfl (fun hopen => Or.inl hopen) fun hmode => hmode)
    (bounds_of_order rfl) ?_
  exact (proper_ended reason _ _ (hl.congr hsame)).andThen fun l₁ hl₁ =>
    (proper_settle l₁ hl₁).andThen proper_persist

theorem proper_shutdownDeadline : ProperPart shutdownDeadline := by
  intro l hl
  unfold shutdownDeadline
  refine Proper.andThen (proper_emit (fun e he => ?_) l hl) fun l₁ hl₁ => ?_
  · obtain ⟨caller, -, rfl⟩ := List.mem_map.mp he
    rfl
  · have hsame : l₁.SameAccounts { l₁ with shutdownWaiters := [], shutdownTimer := none } :=
      ⟨rfl, rfl, rfl, rfl⟩
    exact (proper_persist _ (hl₁.congr hsame)).from
      (hsame.moves rfl rfl (fun hopen => Or.inl hopen) fun hmode => hmode) (bounds_of_order rfl)

/-- The message is a start that is not refused. -/
def Message.Admits (l : Ledger) : Message → Prop
  | .call _ (.start options _) => refusal options l = none
  | _ => False

/-- Every message but a start that is not refused is handled by parts that admit nothing. -/
theorem proper_handle (hl : l.Sound) (message : Message) (hnot : ¬ message.Admits l) :
    Proper l (handle sight message l) := by
  cases message with
  | call caller request =>
    cases request with
    | attachManager pid => exact proper_attachManager pid l hl
    | attachSupervisor pid => exact proper_attachSupervisor pid l hl
    | start options child =>
      change Proper l (start caller options child l)
      unfold start
      split
      · exact proper_respond _ _ l hl
      · rename_i hnone
        exact absurd hnone hnot
    | list => exact proper_list l hl
    | status id => exact proper_status l hl
    | stop id => exact proper_stop l hl
    | cancel id => exact proper_cancel l hl
    | await id => exact proper_await l hl
    | guardStarted id guard => exact proper_guardStarted guard l hl
    | finished id guard result cleanup => exact proper_finished l hl
    | shutdown => exact proper_shutdown l hl
  | statusChanged id guard changes => exact proper_statusChanged guard changes l hl
  | down ref reason => exact proper_down ref reason l hl
  | shutdownDeadline => exact proper_shutdownDeadline l hl

end Messages

end Sower.Vm
