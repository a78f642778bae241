import Sower.Vm.Callers

/-!
# Answers of the ledger

Whoever asks the ledger to await or stop a virtual machine, or to shut down, gets
one answer from it: at once, or when what it waits for has completed. A shutdown
is answered with success only when the cleanup of everything that was ever
accepted is certified.
-/

namespace Sower.Vm

open Durable

variable {l l' l₁ : Ledger} {id : ℕ} {entry entry' : Entry} {sight : Sight} {c caller : Caller}

section Messages

theorem fair_stopped (hl : l.Sound) (hsame : l.SameAccounts l') (hbudgets : l'.budgets = l.budgets)
    (hlimit : l'.resultLimit = l.resultLimit) (hmode : l'.mode = recoveryMode l)
    (hwaiters : l'.shutdownWaiters = l.shutdownWaiters) : Fair c l (drain l') :=
  (fair_drain l' (hl.congr hsame)).from (waiting_congr hsame.entries hwaiters)
    (moves_recovering hsame hbudgets hlimit hmode) (bounds_of_order hsame.order)

theorem fair_attached {pid : Pid} {kind : Kind} (hne : caller ≠ c) (hl : l.Sound)
    (hsame : l.SameAccounts l') (hbudgets : l'.budgets = l.budgets)
    (hlimit : l'.resultLimit = l.resultLimit) (hmode : l'.mode = l.mode)
    (hwaiters : l'.shutdownWaiters = l.shutdownWaiters) :
    Fair c l ((monitor (some pid) kind l').andThen fun l =>
      (settle sight l).andThen (respond caller .ok)) := by
  have hrest : Fair c l' ((monitor (some pid) kind l').andThen fun l =>
      (settle sight l).andThen (respond caller .ok)) :=
    (fair_monitor _ _ l' (hl.congr hsame)).andThen fun l₁ hl₁ =>
      (fair_settle l₁ hl₁).andThen (fair_respond hne fun _ h => by cases h)
  refine hrest.from (waiting_congr hsame.entries hwaiters) ?_ (bounds_of_order hsame.order)
  exact hsame.moves hbudgets hlimit (fun hopen => Or.inl (hmode ▸ hopen))
    fun hshutdown => hmode.trans hshutdown

theorem fair_attachManager (hne : caller ≠ c) (pid : Pid) :
    FairPart c (attachManager sight caller pid) := by
  intro l hl
  unfold attachManager
  refine Fair.andThen ?_ fun l₁ hl₁ =>
    fair_attached hne hl₁ ⟨rfl, rfl, rfl, rfl⟩ rfl rfl rfl rfl
  split
  · exact fair_stopped hl ⟨rfl, rfl, rfl, rfl⟩ rfl rfl rfl rfl
  · exact fair_still hl

theorem fair_attachSupervisor (hne : caller ≠ c) (pid : Pid) :
    FairPart c (attachSupervisor sight caller pid) := by
  intro l hl
  unfold attachSupervisor
  refine Fair.andThen ?_ fun l₁ hl₁ =>
    fair_attached hne hl₁ ⟨rfl, rfl, rfl, rfl⟩ rfl rfl rfl rfl
  split
  · exact fair_stopped hl ⟨rfl, rfl, rfl, rfl⟩ rfl rfl rfl rfl
  · exact fair_still hl

theorem fair_list (hne : caller ≠ c) : FairPart c (list caller) := by
  refine fun l hl => fair_emit (fun e he => ?_) l hl
  rw [List.mem_singleton.mp he]
  exact mute_reply hne fun _ h => by cases h

theorem fair_status (hne : caller ≠ c) : FairPart c (status caller id) := by
  intro l hl
  unfold status
  split
  · exact fair_respond hne (fun _ h => by cases h) l hl
  · exact fair_respond hne (fun _ h => by cases h) l hl

/-- Somebody else waits for an active virtual machine. -/
theorem fair_wait (hne : caller ≠ c) (hl : l.Sound) (hlookup : l.entries.lookup id = some entry)
    (hactive : entry.active = true) : Fair c l (wait caller id entry l) := by
  refine fair_put hl hlookup ⟨rfl, rfl, rfl, rfl, rfl, fun hdone => ?_⟩ ?_ fair_persist
  · rw [hactive] at hdone
    cases hdone
  · exact List.count_cons_of_ne hne

theorem fair_stop (hne : caller ≠ c) : FairPart c (stop caller id) := by
  intro l hl
  unfold stop
  split
  · rename_i entry hlookup
    split
    · rename_i hactive
      have hfirst : Fair c l (Turn.emit (cancelEntry entry .ok) l) :=
        fair_emit (fun _ he => mute_cancelEntry he) l hl
      have hrest := @fair_wait l id entry c caller hne hl hlookup hactive
      refine ⟨Proper.andThen_emit hfirst.proper hrest.proper,
        hfirst.tells.andThen hrest.tells .refl hrest.proper.state.2.1.evolves, fun e he => ?_⟩
      rcases List.mem_append.mp he with he | he
      · exact hfirst.mild e he
      · exact hrest.mild e he
    · refine fair_respond hne (fun _ h => ?_) l hl
      split at h <;> cases h
  · exact fair_respond hne (fun _ h => by cases h) l hl

theorem fair_cancel (hne : caller ≠ c) : FairPart c (cancel caller id) := by
  intro l hl
  unfold cancel
  split
  · refine (fair_emit (fun e he => ?_) l hl).andThen (fair_respond hne fun _ h => by cases h)
    split at he
    · exact mute_cancelEntry he
    · cases he
  · exact fair_respond hne (fun _ h => by cases h) l hl

theorem fair_await (hne : caller ≠ c) : FairPart c (await caller id) := by
  intro l hl
  unfold await
  split
  · rename_i entry hlookup
    split
    · rename_i hactive
      exact fair_wait hne hl hlookup hactive
    · exact fair_respond hne (fun _ h => by cases h) l hl
  · exact fair_respond hne (fun _ h => by cases h) l hl

theorem fair_guardStarted (hne : caller ≠ c) (guard : Pid) :
    FairPart c (guardStarted caller id guard) := by
  intro l hl
  unfold guardStarted
  split
  · rename_i entry hlookup
    refine Fair.andThen ?_ fun l₁ hl₁ => fair_respond hne (fun _ h => ?_) l₁ hl₁
    · exact fair_put hl hlookup (like_status rfl rfl rfl) rfl (fair_monitor _ _)
    · split at h <;> cases h
  · exact fair_respond hne (fun _ h => by cases h) l hl

theorem fair_finished (hne : caller ≠ c) {guard : Pid} {result : Result} {cleanup : Cleanup} :
    FairPart c (finished sight caller id guard result cleanup) :=
  fun l hl => (fair_complete l hl).andThen (fair_respond hne fun _ h => by cases h)

/-- The rest of a shutdown, when its caller is among those who wait. -/
theorem fair_shutdown_rest : FairPart c fun l => (drain l).andThen fun l =>
    (armTimer l).andThen fun l => (settle sight l).andThen persist :=
  fun l hl => (fair_drain l hl).andThen fun l₁ hl₁ => (fair_armTimer l₁ hl₁).andThen
    fun l₂ hl₂ => (fair_settle l₂ hl₂).andThen fair_persist

theorem moves_shutdown (l : Ledger) (caller : Caller) :
    l.Moves { l with mode := .shutdown, shutdownWaiters := caller :: l.shutdownWaiters } := by
  have hsame : l.SameAccounts
      { l with mode := .shutdown, shutdownWaiters := caller :: l.shutdownWaiters } :=
    ⟨rfl, rfl, rfl, rfl⟩
  exact hsame.moves rfl rfl (fun hopen => by cases hopen) fun _ => rfl

theorem fair_shutdown (hne : caller ≠ c) : FairPart c (shutdown sight caller) := by
  intro l hl
  refine Fair.from (fun place => ?_) (moves_shutdown l caller) (bounds_of_order rfl)
    (fair_shutdown_rest _ (hl.congr ⟨rfl, rfl, rfl, rfl⟩))
  cases place with
  | entry id => rfl
  | shutdown => exact List.count_cons_of_ne hne

theorem fair_statusChanged (guard : Pid) (changes : List StatusChange) :
    FairPart c (statusChanged id guard changes) := by
  intro l hl
  unfold statusChanged
  split
  · rename_i entry hlookup
    split
    · rename_i hguard
      have hactive : entry.active = true := (Bool.and_eq_true _ _ ▸ hguard).2
      exact fair_put hl hlookup (like_foldl_apply changes hactive) rfl fair_persist
    · exact fair_persist l hl
  · exact fair_persist l hl

theorem fair_executionDown : FairPart c (executionDown id) := by
  intro l hl
  unfold executionDown
  split
  · split
    · refine fair_emit (fun e he => ?_) l hl
      split at he
      · rw [List.mem_singleton.mp he]
        exact ⟨rfl, rfl, rfl⟩
      · cases he
    · exact fair_still hl
  · exact fair_still hl

theorem waiters_recoverStatus (sight : Sight) (id : ℕ) (entry : Entry) :
    (recoverStatus sight id entry).waiters = entry.waiters := by
  unfold recoverStatus
  split <;> rfl

theorem fair_guardLost (reason : Term) : FairPart c (guardLost sight id reason) := by
  intro l hl
  unfold guardLost
  split
  · rename_i entry hlookup
    split
    · exact fair_put hl hlookup (like_recoverStatus _ _ _)
        (congrArg (List.count c) (waiters_recoverStatus _ _ _)) fair_complete
    · exact fair_still hl
  · exact fair_still hl

theorem fair_guardDown (reason : Term) : FairPart c (guardDown sight id reason) :=
  fun l hl => (fair_certificate l hl).andThen (fair_guardLost reason)

theorem fair_ended (reason : Term) (kind : Option Kind) :
    FairPart c fun l => ended sight reason l kind := by
  intro l hl
  cases kind with
  | none => exact fair_still hl
  | some kind =>
    cases kind with
    | manager => exact fair_stopped hl ⟨rfl, rfl, rfl, rfl⟩ rfl rfl rfl rfl
    | supervisor => exact fair_stopped hl ⟨rfl, rfl, rfl, rfl⟩ rfl rfl rfl rfl
    | parent => exact fair_stopped hl ⟨rfl, rfl, rfl, rfl⟩ rfl rfl rfl rfl
    | execution id => exact fair_executionDown l hl
    | guard id => exact fair_guardDown reason l hl

theorem fair_down (ref : Ref) (reason : Term) : FairPart c (down sight ref reason) := by
  intro l hl
  have hsame : l.SameAccounts { l with monitors := l.monitors.filter fun m => m.1 ≠ ref } :=
    ⟨rfl, rfl, rfl, rfl⟩
  have hrest : Fair c { l with monitors := l.monitors.filter fun m => m.1 ≠ ref }
      (down sight ref reason l) :=
    (fair_ended reason _ _ (hl.congr hsame)).andThen fun l₁ hl₁ =>
      (fair_settle l₁ hl₁).andThen fair_persist
  have hmoves := hsame.moves rfl rfl (fun hopen => Or.inl hopen) fun hmode => hmode
  refine Fair.from ?_ hmoves (bounds_of_order rfl) hrest
  exact waiting_congr rfl rfl

/-- The message is a call of this caller. -/
def Message.From (c : Caller) : Message → Prop
  | .call caller _ => caller = c
  | _ => False

/-- A message of somebody else that is no start that is not refused. -/
theorem fair_handle (hl : l.Sound) (message : Message) (hother : ¬ message.From c)
    (hnot : ¬ message.Admits l) : Fair c l (handle sight message l) := by
  cases message with
  | call caller request =>
    have hne : caller ≠ c := hother
    cases request with
    | attachManager pid => exact fair_attachManager hne pid l hl
    | attachSupervisor pid => exact fair_attachSupervisor hne pid l hl
    | start options child =>
      change Fair c l (start caller options child l)
      unfold start
      split
      · exact fair_respond hne (fun _ h => by cases h) l hl
      · rename_i hnone
        exact absurd hnone hnot
    | list => exact fair_list hne l hl
    | status id => exact fair_status hne l hl
    | stop id => exact fair_stop hne l hl
    | cancel id => exact fair_cancel hne l hl
    | await id => exact fair_await hne l hl
    | guardStarted id guard => exact fair_guardStarted hne guard l hl
    | finished id guard result cleanup => exact fair_finished hne l hl
    | shutdown => exact fair_shutdown hne l hl
  | statusChanged id guard changes => exact fair_statusChanged guard changes l hl
  | down ref reason => exact fair_down ref reason l hl
  | shutdownDeadline => exact fair_shutdownDeadline l hl

end Messages

section Starts

variable {options : StartOptions} {child : Except Term Pid}

/-- Nobody waits with an entry that is new or has been withdrawn. -/
theorem waiting_admitted (hl : l.Sound)
    (hother : ∀ other, other ≠ l.history.ids → l'.entries.lookup other = l.entries.lookup other)
    (hnew : ∀ entry, l'.entries.lookup l.history.ids = some entry → entry.waiters = [])
    (hwaiters : l'.shutdownWaiters = l.shutdownWaiters) (place : Place) :
    l'.waiting c place = l.waiting c place := by
  cases place with
  | shutdown => simp only [Ledger.waiting, hwaiters]
  | entry id =>
    simp only [Ledger.waiting]
    by_cases hid : id = l.history.ids
    · rw [hid, lookup_ids hl]
      cases hlookup : l'.entries.lookup l.history.ids with
      | none => rfl
      | some entry =>
        rw [Option.elim_some, hnew entry hlookup]
        rfl
    · rw [hother id hid]

/-- What a start that is not refused says to others: nothing. -/
theorem answersTo_started (hne : caller ≠ c) :
    answersTo c ((admitStart options l).andThen
      (started caller options l.history.ids child)).effects = [] := by
  have hadmit : answersTo c (admitStart options l).effects = [] := rfl
  have hreply : ∀ answer l', answersTo c (respond caller answer l').effects = [] := by
    intro answer l'
    apply answersTo_silent
    intro e he
    rcases List.mem_append.mp he with he | he
    · rw [List.mem_singleton.mp he]
      rfl
    · rw [List.mem_singleton.mp he]
      exact if_neg hne
  have hmonitor : ∀ pid kind l', answersTo c (monitor (some pid) kind l').effects = [] := by
    intro pid kind l'
    apply answersTo_silent
    intro e he
    rcases List.mem_append.mp he with he | he
    · obtain ⟨m, -, rfl⟩ := List.mem_map.mp he
      rfl
    · rw [List.mem_singleton.mp he]
      rfl
  rw [Turn.andThen_effects, answersTo_append, hadmit, List.nil_append]
  cases child with
  | ok execution =>
    unfold started
    rw [Turn.andThen_effects, answersTo_append, hmonitor, hreply, List.nil_append]
  | error reason => exact hreply _ _

/-- A start of somebody else. -/
theorem tells_start (hne : caller ≠ c) (hl : l.Sound) :
    Tells c l (start caller options child l) := by
  unfold start
  split
  · exact (fair_respond hne (fun _ h => by cases h) l hl).tells
  · refine tells_mute ?_ (answersTo_started hne)
    cases child with
    | ok execution =>
      refine waiting_admitted hl ?_ ?_ rfl
      · intro other hother
        have hput : ((l.admitted options).put l.history.ids
            { options.entry l.history.ids with
              status := { (options.entry l.history.ids).status with
                execution := some execution } }).entries.lookup other =
            l.entries.lookup other := by
          unfold Ledger.put
          rw [AList.lookup_insert_ne hother, AList.lookup_insert_ne hother]
        exact hput
      · intro entry hentry
        have hput : ((l.admitted options).put l.history.ids
            { options.entry l.history.ids with
              status := { (options.entry l.history.ids).status with
                execution := some execution } }).entries.lookup l.history.ids = some entry :=
          hentry
        unfold Ledger.put at hput
        rw [AList.lookup_insert] at hput
        rw [← Option.some.inj hput]
        rfl
    | error reason =>
      refine waiting_admitted hl ?_ ?_ rfl
      · intro other hother
        have herase : ((l.admitted options).entries.erase l.history.ids).lookup other =
            l.entries.lookup other := by
          rw [AList.lookup_erase_ne hother, AList.lookup_insert_ne hother]
        exact herase
      · intro entry hentry
        have herase : ((l.admitted options).entries.erase l.history.ids).lookup
            l.history.ids = some entry := hentry
        rw [AList.lookup_erase] at herase
        cases herase

/-- No message of somebody else loses a caller or answers one twice. -/
theorem tells_handle (hl : l.Sound) (message : Message) (hother : ¬ message.From c) :
    Tells c l (handle sight message l) := by
  by_cases hadmits : message.Admits l
  · cases message with
    | call caller request =>
      cases request with
      | start options child => exact tells_start hother hl
      | _ => exact absurd hadmits (fun h => h)
    | _ => exact absurd hadmits (fun h => h)
  · exact (fair_handle hl message hother hadmits).tells

end Starts

section Asking

theorem answersTo_respond (answer : Answer) (l : Ledger) :
    answersTo c (respond c answer l).effects = [answer] := by
  have heffects : answersTo c (respond c answer l).effects =
      answersTo c [.reply c answer] := rfl
  rw [heffects]
  simp [answersTo, Effect.answerTo]

/-- Who asked for an active virtual machine waits for it. -/
theorem waits_put (hfree : l.Free c) (hlookup : l.entries.lookup id = some entry) :
    (l.put id { entry with waiters := c :: entry.waiters }).Waits c (.entry id) := by
  intro other
  cases other with
  | shutdown => exact hfree .shutdown
  | entry other =>
    by_cases hother : other = id
    · subst hother
      have hzero := hfree (.entry other)
      rw [waiting_of_lookup hlookup] at hzero
      rw [waiting_of_lookup (AList.lookup_insert _), List.count_cons_self, hzero, if_pos rfl]
    · have hsame : (l.put id { entry with waiters := c :: entry.waiters }).waiting c
          (.entry other) = l.waiting c (.entry other) := by
        simp only [Ledger.waiting, Ledger.put, AList.lookup_insert_ne hother]
      rw [hsame, hfree, if_neg fun heq => hother (Place.entry.inj heq)]

theorem answersTo_cancelEntry (entry : Entry) (result : Result) :
    answersTo c (cancelEntry entry result) = [] :=
  answersTo_silent fun _ he => (mute_cancelEntry (c := c) he).answerTo

end Asking

section Sessions

/-- The ledger handles messages, one after the other. -/
def handleAll : List (Sight × Message) → Ledger → LedgerTurn
  | [], l => still l
  | input :: rest, l => (handle input.1 input.2 l).andThen (handleAll rest)

theorem follows_handleAll (inputs : List (Sight × Message)) (hl : l.Sound) :
    (handleAll inputs l).state.Sound ∧ l.Evolves (handleAll inputs l).state := by
  induction inputs generalizing l with
  | nil => exact ⟨hl, .refl⟩
  | cons input rest ih =>
    have hfirst := (@follows_handle l input.1 hl input.2).state
    obtain ⟨hsound, hevolves⟩ := ih hfirst.sound
    exact ⟨hsound, hfirst.evolves.trans hevolves⟩

/-- Whoever waits is answered once, however many messages of others come. -/
theorem tells_handleAll (inputs : List (Sight × Message)) (hl : l.Sound)
    (hothers : ∀ input ∈ inputs, ¬ input.2.From c) : Tells c l (handleAll inputs l) := by
  induction inputs generalizing l with
  | nil => exact (fair_still hl).tells
  | cons input rest ih =>
    have hfirst := (@follows_handle l input.1 hl input.2).state
    have hrest : ∀ input ∈ rest, ¬ input.2.From c := fun other hmem =>
      hothers other (List.mem_cons_of_mem _ hmem)
    exact (tells_handle hl input.2 (hothers input List.mem_cons_self)).andThen
      (ih hfirst.sound hrest) hfirst.evolves (follows_handleAll rest hfirst.sound).2

end Sessions

end Sower.Vm
