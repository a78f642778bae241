import Mathlib.Logic.Relation
import Sower.Vm.LedgerWatches

/-!
# Reservations and those who complete them

A start persists its entry before there is an execution. The execution writes its row itself,
and so does the guard that it spawns, before it asks the ledger. The ledger may die at any
moment in between, and boots again from what it has persisted and from the rows. An entry that
nobody will ever complete keeps its reservation, and keeps the ledger from admitting anything.
-/

namespace Sower.Vm

open Durable Relation

section Fleets

/-- How far the processes of a virtual machine have come. -/
inductive Launch where
  | absent
  /-- The execution wrote its row. -/
  | begun (execution : Pid)
  /-- The execution spawned its guard. -/
  | spawned (execution guard : Pid)
  /-- The guard wrote its row. -/
  | recorded (execution guard : Pid)
  /-- The guard asks the ledger. -/
  | registering (execution guard : Pid)
  /-- The guard was answered, or there was no ledger to answer. -/
  | registered (execution guard : Pid)
  /-- The execution ended before it spawned a guard. -/
  | unguarded (execution : Pid)
  /-- The guard ended before it asked. -/
  | silent (execution guard : Pid) (wrote : Bool)

/-- `{:execution, id}` -/
def Launch.executionRow : Launch → Option Pid
  | .absent => none
  | .begun execution | .spawned execution _ | .recorded execution _ | .registering execution _
  | .registered execution _ | .unguarded execution | .silent execution _ _ => some execution

/-- `{:guard, id}` -/
def Launch.guardRow : Launch → Option Pid
  | .recorded _ guard | .registering _ guard | .registered _ guard => some guard
  | .silent _ guard wrote => if wrote then some guard else none
  | _ => none

/-- The guard will still register. -/
def Launch.Registers : Launch → Prop
  | .begun _ | .spawned _ _ | .recorded _ _ | .registering _ _ => True
  | _ => False

/-- The guard will register, or has done so. -/
def Launch.Sure : Launch → Prop
  | .registered _ _ => True
  | launch => launch.Registers

/-- The ledger is gone, and so is the call that it has not answered. -/
def Launch.unanswered : Launch → Launch
  | .registering execution guard => .registered execution guard
  | launch => launch

/-- A guard is answered. -/
def Launch.answered (guard : Pid) : Launch → Launch
  | .registering execution guard' =>
    if guard' = guard then .registered execution guard' else .registering execution guard'
  | launch => launch

/-- The ledger with its store, and what has become of each virtual machine. -/
structure Fleet where
  world : World Ledger Effect
  launches : ℕ → Launch

/-- Nothing has been started yet. -/
def Fleet.initial : Fleet := ⟨.initial, fun _ => .absent⟩

/-- The rows are as the processes wrote them. They are deleted with the entry. -/
def Fleet.Shows (w : Fleet) (sight : Sight) : Prop :=
  ∀ l, w.world.saved = some l → ∀ id ∈ l.entries,
    sight.guardRow id = (w.launches id).guardRow ∧
      sight.executionRow id = (w.launches id).executionRow

/-- What becomes of the virtual machines when the ledger has handled a message. -/
def Fleet.heard (w : Fleet) : Message → ℕ → Launch
  | .call _ (.guardStarted id guard) =>
    Function.update w.launches id ((w.launches id).answered guard)
  | _ => w.launches

/-- What becomes of the virtual machines when the ledger dies. -/
def Fleet.deserted (w : Fleet) : ℕ → Launch := fun id => (w.launches id).unanswered

/-- One thing happens: the ledger boots, handles a message or dies, or an execution or a guard
goes on. -/
inductive Fleet.Step : Fleet → Fleet → Prop
  | boot (w : Fleet) (options : LedgerOptions) (sight : Sight) (t : LedgerTurn)
      (hdown : w.world.memory = none) (hshows : w.Shows sight)
      (hboot : init options sight w.world.saved = some t) :
      Step w ⟨w.world.reopened.after ledger t, w.launches⟩
  | bootCrash (w : Fleet) (options : LedgerOptions) (sight : Sight) (t : LedgerTurn) (n : ℕ)
      (hdown : w.world.memory = none) (hshows : w.Shows sight)
      (hboot : init options sight w.world.saved = some t) :
      Step w ⟨w.world.reopened.crashed ledger t n, w.launches⟩
  | handle (w : Fleet) (sight : Sight) (message : Message) (l : Ledger)
      (hup : w.world.memory = some l) (hnot : ¬ message.Admits l) :
      Step w ⟨w.world.after ledger (handle sight message l), w.heard message⟩
  | crash (w : Fleet) (sight : Sight) (message : Message) (l : Ledger) (n : ℕ)
      (hup : w.world.memory = some l) (hnot : ¬ message.Admits l) :
      Step w ⟨w.world.crashed ledger (handle sight message l) n, w.deserted⟩
  /-- A start, with an execution that has spawned its guard. -/
  | start (w : Fleet) (sight : Sight) (caller : Caller) (options : StartOptions) (l : Ledger)
      (execution guard : Pid) (hup : w.world.memory = some l)
      (hnone : refusal options l = none) :
      Step w ⟨w.world.after ledger
          (Vm.handle sight (.call caller (.start options (.ok execution))) l),
        Function.update w.launches l.history.ids (.spawned execution guard)⟩
  | startFailed (w : Fleet) (sight : Sight) (caller : Caller) (options : StartOptions)
      (l : Ledger) (reason : Term) (hup : w.world.memory = some l)
      (hnone : refusal options l = none) :
      Step w ⟨w.world.after ledger
        (Vm.handle sight (.call caller (.start options (.error reason))) l), w.launches⟩
  /-- The ledger dies in a start before it has persisted the entry. -/
  | startLost (w : Fleet) (sight : Sight) (caller : Caller) (options : StartOptions)
      (l : Ledger) (child : Except Term Pid) (hup : w.world.memory = some l)
      (hnone : refusal options l = none) :
      Step w ⟨w.world.crashed ledger
        (Vm.handle sight (.call caller (.start options child)) l) 0, w.deserted⟩
  /-- The ledger dies in a start of which the execution has written its row. -/
  | startCrash (w : Fleet) (sight : Sight) (caller : Caller) (options : StartOptions)
      (l : Ledger) (child : Except Term Pid) (n : ℕ) (execution : Pid)
      (hup : w.world.memory = some l) (hnone : refusal options l = none) :
      Step w ⟨w.world.crashed ledger
          (Vm.handle sight (.call caller (.start options child)) l) (n + 2),
        Function.update w.deserted l.history.ids (.begun execution)⟩
  | spawn (w : Fleet) (id : ℕ) (execution guard : Pid)
      (hlaunch : w.launches id = .begun execution) :
      Step w ⟨w.world, Function.update w.launches id (.spawned execution guard)⟩
  | record (w : Fleet) (id : ℕ) (execution guard : Pid)
      (hlaunch : w.launches id = .spawned execution guard) :
      Step w ⟨w.world, Function.update w.launches id (.recorded execution guard)⟩
  | register (w : Fleet) (id : ℕ) (execution guard : Pid)
      (hlaunch : w.launches id = .recorded execution guard) :
      Step w ⟨w.world, Function.update w.launches id
        (if w.world.memory.isSome then .registering execution guard
          else .registered execution guard)⟩

/-- A process ends at a moment at which nobody takes over. -/
inductive Fleet.Mishap : Fleet → Fleet → Prop
  /-- The ledger dies when it has persisted the entry and there is no row of an execution yet,
  as it does when it asks a supervisor that is gone. -/
  | start (w : Fleet) (sight : Sight) (caller : Caller) (options : StartOptions) (l : Ledger)
      (child : Except Term Pid) (n : ℕ) (hn : n = 1 ∨ n = 2) (hup : w.world.memory = some l)
      (hnone : refusal options l = none) :
      Mishap w ⟨w.world.crashed ledger
        (handle sight (.call caller (.start options child)) l) n, w.deserted⟩
  | execution (w : Fleet) (id : ℕ) (execution : Pid)
      (hlaunch : w.launches id = .begun execution) :
      Mishap w ⟨w.world, Function.update w.launches id (.unguarded execution)⟩
  | guard (w : Fleet) (id : ℕ) (execution guard : Pid)
      (hlaunch : w.launches id = .spawned execution guard) :
      Mishap w ⟨w.world, Function.update w.launches id (.silent execution guard false)⟩
  /-- The guard's row is there, but the ledger that is up has not read it. -/
  | row (w : Fleet) (id : ℕ) (execution guard : Pid)
      (hlaunch : w.launches id = .recorded execution guard)
      (hup : w.world.memory.isSome) :
      Mishap w ⟨w.world, Function.update w.launches id (.silent execution guard true)⟩

/-- What follows without mishaps. -/
abbrev Fleet.Goes : Fleet → Fleet → Prop := ReflTransGen Fleet.Step

/-- What follows, mishaps included. -/
abbrev Fleet.Runs : Fleet → Fleet → Prop :=
  ReflTransGen fun w w' => Fleet.Step w w' ∨ Fleet.Mishap w w'

/-- Every active entry can still be completed. -/
def Fleet.Completes (w : Fleet) : Prop :=
  ∀ l, w.world.memory = some l → ∀ id, l.Active id →
    ∃ w' l', w.Goes w' ∧ w'.world.memory = some l' ∧ ¬ l'.Active id

end Fleets

section Keeping

variable {w w' : Fleet} {l l' : Ledger} {id : ℕ} {sight : Sight} {message : Message}

theorem Launch.Sure.unanswered {launch : Launch} (h : launch.Sure) : launch.unanswered.Sure := by
  cases launch with
  | registering execution guard => trivial
  | _ => exact h

theorem Launch.Sure.answered {launch : Launch} (h : launch.Sure) (guard : Pid) :
    (launch.answered guard).Sure := by
  cases launch with
  | registering execution guard' =>
    change (if guard' = guard then Launch.registered execution guard'
      else .registering execution guard').Sure
    split <;> trivial
  | _ => exact h

/-- A virtual machine of which the guard does not have to register any more has its row. -/
theorem Launch.Sure.guardRow {launch : Launch} (h : launch.Sure) (hnot : ¬ launch.Registers) :
    launch.guardRow ≠ none := by
  cases launch with
  | registered execution guard => simp [Launch.guardRow]
  | absent => exact absurd h id
  | unguarded execution => exact absurd h id
  | silent execution guard wrote => exact absurd h id
  | begun execution => exact absurd trivial hnot
  | spawned execution guard => exact absurd trivial hnot
  | recorded execution guard => exact absurd trivial hnot
  | registering execution guard => exact absurd trivial hnot

/-- What holds of a fleet without mishaps: somebody takes over at every moment. -/
structure Fleet.Kept (w : Fleet) : Prop where
  sound : w.world.Has Ledger.Sound
  sure : w.world.Has fun l => ∀ id, l.Active id → (w.launches id).Sure
  numbered : ∀ l, w.world.memory = some l → l.Numbered
  attended : ∀ l, w.world.memory = some l → ∀ id, l.Guarded id ∨ (w.launches id).Registers

/-- Attended or not matters for active entries only. -/
theorem guarded_or {P : Prop} (h : l.Active id → l.Guarded id ∨ P) : l.Guarded id ∨ P := by
  by_cases hactive : l.Active id
  · exact h hactive
  · exact .inl fun entry hlookup hentry => absurd ⟨entry, hlookup, hentry⟩ hactive

/-- What the ledger stores in a turn that admits nothing was active before. -/
theorem sure_handle (h : w.Kept) (hup : w.world.memory = some l) (hnot : ¬ message.Admits l) :
    (handle sight message l).Keeps Effect.stored fun l' =>
      l'.Sound ∧ ∀ id, l'.Active id → (w.launches id).Sure :=
  (proper_handle (h.sound l (.inr hup)) message hnot).mono fun _ hl' =>
    ⟨hl'.1, fun id hid => h.sure l (.inr hup) id (hl'.2.1.active id hid)⟩

theorem sure_boot (h : w.Kept) {options : LedgerOptions} {t : LedgerTurn}
    (hboot : init options sight w.world.saved = some t) :
    t.Keeps Effect.stored fun l' => l'.Sound ∧
      ∀ id, l'.Active id → ∃ l, w.world.saved = some l ∧ l.Active id := by
  refine (proper_init hboot (sound_restore fun l hl => h.sound l (.inl hl))).mono
    fun l' hl' => ⟨hl'.1, fun id hid => ?_⟩
  obtain ⟨entry, hlookup, hactive⟩ := hl'.2.1.active id hid
  cases hsaved : w.world.saved with
  | none =>
    rw [hsaved] at hlookup
    have hmem : id ∈ (∅ : Entries) := AList.lookup_isSome.mp (Option.isSome_iff_exists.mpr
      ⟨entry, hlookup⟩)
    exact absurd hmem (AList.notMem_empty id)
  | some l =>
    rw [hsaved] at hlookup
    exact ⟨l, rfl, entry, hlookup, hactive⟩

/-- The ledger dies in a turn. -/
theorem Fleet.Kept.crashed (h : w.Kept) {t : LedgerTurn} {n : ℕ} {launches : ℕ → Launch}
    (hsaved : ∀ id, (w.launches id).Sure → (launches id).Sure)
    (ht : t.Keeps Effect.stored fun l' => l'.Sound ∧ ∀ id, l'.Active id → (launches id).Sure) :
    Fleet.Kept ⟨w.world.crashed ledger t n, launches⟩ where
  sound := has_crashed n (fun l hl => h.sound l (.inl hl)) (ht.mono fun _ hl' => hl'.1)
  sure := has_crashed n (fun l hl id hid => hsaved id (h.sure l (.inl hl) id hid))
    (ht.mono fun _ hl' => hl'.2)
  numbered l hl := by cases hl
  attended l hl := by cases hl

/-- The ledger takes a turn to its end. -/
theorem Fleet.Kept.after {t : LedgerTurn} {launches : ℕ → Launch}
    (hhas : (w.world.after ledger t).Has fun l' =>
      l'.Sound ∧ ∀ id, l'.Active id → (launches id).Sure)
    (hnumbered : t.state.Numbered)
    (hattended : ∀ id, t.state.Guarded id ∨ (launches id).Registers) :
    Fleet.Kept ⟨w.world.after ledger t, launches⟩ where
  sound l hl := (hhas l hl).1
  sure l hl := (hhas l hl).2
  numbered l hl := by
    cases hl
    exact hnumbered
  attended l hl := by
    cases hl
    exact hattended

/-- There is no ledger, and the table is as it was. -/
theorem Fleet.Kept.lost (h : w.Kept) {world : World Ledger Effect} {launches : ℕ → Launch}
    (hsaved : world.saved = w.world.saved) (hmemory : world.memory = none)
    (hsure : ∀ id, (w.launches id).Sure → (launches id).Sure) : Fleet.Kept ⟨world, launches⟩ := by
  have hhas : ∀ l, world.saved = some l ∨ world.memory = some l → w.world.saved = some l := by
    rintro l (hl | hl)
    · exact hsaved.symm.trans hl
    · cases hmemory.symm.trans hl
  exact ⟨fun l hl => h.sound l (.inl (hhas l hl)),
    fun l hl id hid => hsure id (h.sure l (.inl (hhas l hl)) id hid),
    fun l hl => (by cases hmemory.symm.trans hl), fun l hl => (by cases hmemory.symm.trans hl)⟩

/-- An execution or a guard goes on. -/
theorem Fleet.Kept.launched (h : w.Kept) {launch : Launch} (hsure : launch.Sure)
    (hregisters : launch.Registers ∨ w.world.memory = none) :
    Fleet.Kept ⟨w.world, Function.update w.launches id launch⟩ where
  sound := h.sound
  sure l hl :=
    (Function.forall_update_iff w.launches fun id launch => l.Active id → launch.Sure).mpr
      ⟨fun _ => hsure, fun id' _ => h.sure l hl id'⟩
  numbered := h.numbered
  attended l hl := by
    have hup : w.world.memory ≠ none := fun hdown => by cases hl.symm.trans hdown
    exact (Function.forall_update_iff w.launches fun id launch =>
      l.Guarded id ∨ launch.Registers).mpr
        ⟨.inr (hregisters.resolve_right hup), fun id' _ => h.attended l hl id'⟩

theorem sure_heard (h : (w.launches id).Sure) : (w.heard message id).Sure := by
  unfold Fleet.heard
  split
  · rename_i id' guard
    by_cases hid : id = id'
    · subst hid
      rw [Function.update_self]
      exact h.answered guard
    · rw [Function.update_of_ne hid]
      exact h
  · exact h

/-- A guard that does not have to register any more after a message was answered by it. -/
theorem registers_heard (h : (w.launches id).Registers) :
    (w.heard message id).Registers ∨
      ∃ caller guard, message = .call caller (.guardStarted id guard) := by
  unfold Fleet.heard
  split
  · rename_i caller id' guard
    by_cases hid : id = id'
    · subst hid
      exact .inr ⟨caller, guard, rfl⟩
    · rw [Function.update_of_ne hid]
      exact .inl h
  · exact .inl h

theorem Fleet.Kept.boot (h : w.Kept) {options : LedgerOptions} {t : LedgerTurn}
    (hshows : w.Shows sight) (hboot : init options sight w.world.saved = some t) :
    Fleet.Kept ⟨w.world.reopened.after ledger t, w.launches⟩ := by
  have hkeeps := sure_boot h hboot
  refine Fleet.Kept.after (w := ⟨w.world.reopened, w.launches⟩) ?_ (numbered_init hboot)
    fun id => guarded_or fun hactive => ?_
  · refine has_after (fun l hl => ⟨h.sound l (.inl hl), h.sure l (.inl hl)⟩) (hkeeps.mono ?_)
    refine fun l' hl' => ⟨hl'.1, fun id hid => ?_⟩
    obtain ⟨l, hsaved, hactive⟩ := hl'.2 id hid
    exact h.sure l (.inl hsaved) id hactive
  · obtain ⟨l, hsaved, entry, hlookup, hentry⟩ := hkeeps.state.2 id hactive
    refine or_iff_not_imp_right.mpr fun hnot => guarded_init hboot ?_
    rw [(hshows l hsaved id (AList.lookup_isSome.mp (hlookup ▸ rfl))).1]
    exact (h.sure l (.inl hsaved) id ⟨entry, hlookup, hentry⟩).guardRow hnot

theorem Fleet.Kept.handle (h : w.Kept) (hup : w.world.memory = some l)
    (hnot : ¬ message.Admits l) :
    Fleet.Kept ⟨w.world.after ledger (handle sight message l), w.heard message⟩ := by
  obtain ⟨hnumbered, hguarded⟩ := @tends_handle l sight (h.numbered l hup) message hnot
  refine Fleet.Kept.after (has_after (fun l' hl' => ⟨h.sound l' (.inl hl'), fun id hid =>
    sure_heard (h.sure l' (.inl hl') id hid)⟩) ((sure_handle h hup hnot).mono fun l' hl' =>
      ⟨hl'.1, fun id hid => sure_heard (hl'.2 id hid)⟩)) hnumbered fun id => ?_
  rcases h.attended l hup id with hid | hregisters
  · exact .inl (hguarded id hid)
  · have hheard : (w.heard message id).Registers ∨
        ∃ caller guard, message = .call caller (.guardStarted id guard) :=
      registers_heard hregisters
    rcases hheard with hstill | ⟨caller, guard, rfl⟩
    · exact .inr hstill
    · exact .inl (guarded_guardStarted guard)

/-- One more virtual machine has been started. -/
theorem sure_update {launches : ℕ → Launch} {launch : Launch} {id₀ : ℕ} {P : ℕ → Prop}
    (h : ∀ id, P id → (launches id).Sure ∨ id = id₀) (hsure : launch.Sure) :
    ∀ id, P id → (Function.update launches id₀ launch id).Sure :=
  (Function.forall_update_iff launches fun id launch => P id → launch.Sure).mpr
    ⟨fun _ => hsure, fun id hne hid => (h id hid).resolve_right hne⟩

theorem Fleet.Kept.start (h : w.Kept) (hup : w.world.memory = some l) {caller : Caller}
    {options : StartOptions} (execution guard : Pid) (hnone : refusal options l = none) :
    Fleet.Kept ⟨w.world.after ledger
        (Vm.handle sight (.call caller (.start options (.ok execution))) l),
      Function.update w.launches l.history.ids (.spawned execution guard)⟩ := by
  have hl := h.sound l (.inr hup)
  have hturn := @tends_started l sight caller options (.ok execution) (h.numbered l hup) hnone
  refine Fleet.Kept.after (has_after (fun l' hl' => ⟨h.sound l' (.inl hl'), ?_⟩) ?_) hturn.1 ?_
  · exact sure_update (fun id hid => .inl (h.sure l' (.inl hl') id hid)) trivial
  · refine ((follows_handle hl _).and (active_started hl hnone)).mono fun l' hl' =>
      ⟨hl'.1.sound, ?_⟩
    exact sure_update (fun id hid => (hl'.2 id hid).imp_left (h.sure l (.inr hup) id)) trivial
  · refine (Function.forall_update_iff w.launches fun id launch => _ ∨ launch.Registers).mpr
      ⟨.inr trivial, fun id hne => ?_⟩
    exact (h.attended l hup id).imp_left (hturn.2 id hne)

/-- The execution could not be started, and nothing is left of its entry. -/
theorem Fleet.Kept.startFailed (h : w.Kept) (hup : w.world.memory = some l) {caller : Caller}
    {options : StartOptions} (reason : Term) (hnone : refusal options l = none) :
    Fleet.Kept ⟨w.world.after ledger
      (Vm.handle sight (.call caller (.start options (.error reason))) l), w.launches⟩ := by
  have hl := h.sound l (.inr hup)
  have hturn := @tends_started l sight caller options (.error reason) (h.numbered l hup) hnone
  have hstate : (Vm.handle sight (.call caller (.start options (.error reason))) l).Saves
      Effect.stored := by
    rw [handle_started hnone]
    exact .andThen (saves_respond _ _)
  refine Fleet.Kept.after (fun l' hl' => ?_) hturn.1 fun id => guarded_or fun hactive => ?_
  · have hsame : l' = (Vm.handle sight (.call caller (.start options (.error reason))) l).state := by
      rcases hl' with hl' | hl'
      · exact (Option.some.inj ((hstate w.world.saved).symm.trans hl')).symm
      · exact (Option.some.inj hl').symm
    rw [hsame]
    exact ⟨(follows_handle hl _).state.sound, fun id hid =>
      h.sure l (.inr hup) id (active_failed hnone id hid)⟩
  · obtain ⟨entry, hlookup, -⟩ := active_failed hnone id hactive
    have hlt := hl.fresh id (AList.lookup_isSome.mp (hlookup ▸ rfl))
    exact (h.attended l hup id).imp_left (hturn.2 id hlt.ne)

theorem Fleet.Step.kept (hstep : Fleet.Step w w') (h : w.Kept) : w'.Kept := by
  cases hstep with
  | boot options sight t hdown hshows hboot => exact h.boot hshows hboot
  | bootCrash options sight t n hdown hshows hboot =>
    have hreopened : Fleet.Kept ⟨w.world.reopened, w.launches⟩ :=
      h.lost rfl rfl fun _ hsure => hsure
    refine hreopened.crashed (fun _ hsure => hsure) ((sure_boot h hboot).mono fun l' hl' =>
      ⟨hl'.1, fun id hid => ?_⟩)
    obtain ⟨l, hsaved, hactive⟩ := hl'.2 id hid
    exact h.sure l (.inl hsaved) id hactive
  | handle sight message l hup hnot => exact h.handle hup hnot
  | crash sight message l n hup hnot =>
    exact h.crashed (fun _ hsure => hsure.unanswered) ((sure_handle h hup hnot).mono
      fun l' hl' => ⟨hl'.1, fun id hid => (hl'.2 id hid).unanswered⟩)
  | start sight caller options l execution guard hup hnone =>
    exact h.start hup execution guard hnone
  | startFailed sight caller options l reason hup hnone => exact h.startFailed hup reason hnone
  | startLost sight caller options l child hup hnone =>
    exact h.lost rfl rfl fun _ hsure => hsure.unanswered
  | startCrash sight caller options l child n execution hup hnone =>
    have hl := h.sound l (.inr hup)
    refine h.crashed ?_ (((follows_handle hl _).and (active_started hl hnone)).mono
      fun l' hl' => ⟨hl'.1.sound, ?_⟩)
    · exact sure_update (fun id hid => .inl (Launch.Sure.unanswered hid)) trivial
    · exact sure_update (fun id hid => (hl'.2 id hid).imp_left fun hactive =>
        (h.sure l (.inr hup) id hactive).unanswered) trivial
  | spawn id execution guard hlaunch => exact h.launched trivial (.inl trivial)
  | record id execution guard hlaunch => exact h.launched trivial (.inl trivial)
  | register id execution guard hlaunch =>
    by_cases hup : w.world.memory.isSome = true
    · rw [if_pos hup]
      exact h.launched trivial (.inl trivial)
    · rw [if_neg hup]
      exact h.launched trivial (.inr (Option.not_isSome_iff_eq_none.mp hup))

theorem Fleet.Goes.kept (hrun : w.Goes w') (h : w.Kept) : w'.Kept := by
  induction hrun with
  | refl => exact h
  | tail _ hstep ih => exact hstep.kept ih

end Keeping

section Completion

variable {w w' : Fleet} {l l' l'' : Ledger} {id : ℕ} {sight : Sight} {reason : Term}

/-- The places in the ledger are as they were, and it stays recovering until it opens. -/
structure Ledger.Seated (l l' : Ledger) : Prop where
  manager : l'.manager = l.manager
  supervisor : l'.supervisor = l.supervisor
  parent : l'.parent = l.parent
  mode : l'.mode = l.mode ∨ l'.mode = .open

theorem Ledger.Seated.refl : l.Seated l := ⟨rfl, rfl, rfl, .inl rfl⟩

theorem Ledger.Seated.trans (h : l.Seated l') (h' : l'.Seated l'') : l.Seated l'' where
  manager := h'.manager.trans h.manager
  supervisor := h'.supervisor.trans h.supervisor
  parent := h'.parent.trans h.parent
  mode := by
    rcases h'.mode with hmode | hopen
    · rw [hmode]
      exact h.mode
    · exact .inr hopen

theorem seated_settle : l.Seated (settle sight l).state := by
  unfold settle
  split
  · exact .refl
  · split
    · exact ⟨rfl, rfl, rfl, .inl rfl⟩
    · split
      · exact ⟨rfl, rfl, rfl, .inr rfl⟩
      · exact .refl

theorem seated_evictFrom (order : List ℕ) (l : Ledger) :
    l.Seated (evictFrom order l).state := by
  induction order generalizing l with
  | nil => exact .refl
  | cons id rest ih =>
    unfold evictFrom
    split
    · have hwithout : l.Seated (l.withoutOldest id rest) := ⟨rfl, rfl, rfl, .inl rfl⟩
      exact hwithout.trans (ih _)
    · exact .refl

theorem seated_complete {guard : Option Pid} {result : Result} {cleanup : Cleanup} :
    l.Seated (complete sight id guard result cleanup l).state := by
  unfold complete
  split
  · exact .refl
  · rename_i entry hlookup
    split
    · have houtcome : l.Seated (l.withOutcome id entry result cleanup) :=
        ⟨rfl, rfl, rfl, .inl rfl⟩
      exact (houtcome.trans (seated_evictFrom _ _)).trans seated_settle
    · exact .refl

theorem seated_put (entry : Entry) : l.Seated (l.put id entry) := ⟨rfl, rfl, rfl, .inl rfl⟩

theorem seated_certificate : l.Seated (certificate sight id l).state := by
  unfold certificate
  split
  · exact (seated_put _).trans seated_complete
  · exact .refl

theorem seated_guardLost : l.Seated (guardLost sight id reason l).state := by
  unfold guardLost
  split
  · split
    · exact (seated_put _).trans seated_complete
    · exact .refl
  · exact .refl

theorem seated_down {ref : Ref} (hkind : l.monitors.lookup ref = some (.guard id)) :
    l.Seated (down sight ref reason l).state := by
  unfold down
  rw [hkind]
  have hpopped : l.Seated (l.unmonitored ref) := ⟨rfl, rfl, rfl, .inl rfl⟩
  exact hpopped.trans ((seated_certificate.trans seated_guardLost).trans seated_settle)

theorem seated_guardStarted {caller : Caller} {guard : Pid} :
    l.Seated (guardStarted caller id guard l).state := by
  unfold guardStarted
  split
  · exact ⟨rfl, rfl, rfl, .inl rfl⟩
  · exact .refl

/-- A launch that moves on without the ledger's help. -/
theorem Fleet.goes_launch {launch : Launch}
    (hstep : Fleet.Step w ⟨w.world, Function.update w.launches id launch⟩) :
    ∃ w', w.Goes w' ∧ w'.world = w.world ∧ w'.launches id = launch :=
  ⟨_, .single hstep, rfl, Function.update_self ..⟩

/-- A guard that will register gets to ask a ledger that is up. -/
theorem Fleet.goes_registering (hup : w.world.memory.isSome = true)
    (h : (w.launches id).Registers) :
    ∃ w' execution guard, w.Goes w' ∧ w'.world = w.world ∧
      w'.launches id = .registering execution guard := by
  have hrecorded : ∀ {v : Fleet} {execution guard : Pid}, v.world = w.world → w.Goes v →
      v.launches id = .recorded execution guard → ∃ w' execution guard, w.Goes w' ∧
        w'.world = w.world ∧ w'.launches id = .registering execution guard := by
    intro v execution guard hworld hgoes hlaunch
    obtain ⟨w', hgoes', hworld', hlaunch'⟩ := goes_launch (.register v id _ _ hlaunch)
    rw [hworld, if_pos hup] at hlaunch'
    exact ⟨w', execution, guard, hgoes.trans hgoes', hworld'.trans hworld, hlaunch'⟩
  have hspawned : ∀ {v : Fleet} {execution guard : Pid}, v.world = w.world → w.Goes v →
      v.launches id = .spawned execution guard → ∃ w' execution guard, w.Goes w' ∧
        w'.world = w.world ∧ w'.launches id = .registering execution guard := by
    intro v execution guard hworld hgoes hlaunch
    obtain ⟨w', hgoes', hworld', hlaunch'⟩ := goes_launch (.record v id _ _ hlaunch)
    exact hrecorded (hworld'.trans hworld) (hgoes.trans hgoes') hlaunch'
  cases hlaunch : w.launches id with
  | begun execution =>
    obtain ⟨w', hgoes', hworld', hlaunch'⟩ := goes_launch (.spawn w id execution 0 hlaunch)
    exact hspawned hworld' hgoes' hlaunch'
  | spawned execution guard => exact hspawned rfl .refl hlaunch
  | recorded execution guard => exact hrecorded rfl .refl hlaunch
  | registering execution guard => exact ⟨w, execution, guard, .refl, rfl, hlaunch⟩
  | absent | registered | unguarded | silent =>
    rw [hlaunch] at h
    exact absurd h False.elim

/-- What a run makes of a ledger when it only completes entries. -/
structure Ledger.Drains (l l' : Ledger) : Prop where
  active : ∀ id, l'.Active id → l.Active id
  seated : l.Seated l'

theorem Ledger.Drains.refl : l.Drains l := ⟨fun _ h => h, .refl⟩

theorem Ledger.Drains.trans (h : l.Drains l') (h' : l'.Drains l'') : l.Drains l'' :=
  ⟨fun id hid => h.active id (h'.active id hid), h.seated.trans h'.seated⟩

/-- An entry whose guard is watched is completed when the guard ends. -/
theorem Fleet.Kept.ends (h : w.Kept) (hup : w.world.memory = some l) (hguarded : l.Guarded id) :
    ∃ w' l', w.Goes w' ∧ w'.world.memory = some l' ∧ ¬ l'.Active id ∧ l.Drains l' := by
  by_cases hactive : l.Active id
  · obtain ⟨entry, hlookup, hentry⟩ := hactive
    obtain ⟨-, ref, hmem⟩ := hguarded entry hlookup hentry
    have hkind := lookup_monitors (h.numbered l hup) hmem
    have hnot : ¬ (Message.down ref (.atom "killed")).Admits l := fun hadmits => hadmits
    have hproper := @proper_handle l {} (h.sound l (.inr hup)) _ hnot
    exact ⟨_, _, .single (.handle w {} (.down ref (.atom "killed")) l hup hnot), rfl,
      inactive_down hkind, hproper.state.2.1.active, seated_down hkind⟩
  · exact ⟨w, l, .refl, hup, hactive, .refl⟩

/-- Every entry can be completed, one way or the other. -/
theorem Fleet.Kept.finishes (h : w.Kept) (hup : w.world.memory = some l) (id : ℕ) :
    ∃ w' l', w.Goes w' ∧ w'.world.memory = some l' ∧ ¬ l'.Active id ∧ l.Drains l' := by
  rcases h.attended l hup id with hguarded | hregisters
  · exact h.ends hup hguarded
  · obtain ⟨w₁, execution, guard, hgoes₁, hworld₁, hlaunch₁⟩ :=
      Fleet.goes_registering (hup ▸ rfl) hregisters
    have hup₁ : w₁.world.memory = some l := hworld₁ ▸ hup
    have hnot : ¬ (Message.call 0 (.guardStarted id guard)).Admits l := fun hadmits => hadmits
    have hproper := @proper_handle l {} (h.sound l (.inr hup)) _ hnot
    have hstep := Fleet.Step.handle w₁ {} (.call 0 (.guardStarted id guard)) l hup₁ hnot
    have hkept := hstep.kept (hgoes₁.kept h)
    obtain ⟨w', l', hgoes', hup', hdone, hdrains⟩ :=
      hkept.ends rfl (guarded_guardStarted guard)
    exact ⟨w', l', (hgoes₁.tail hstep).trans hgoes', hup', hdone,
      Ledger.Drains.trans ⟨hproper.state.2.1.active, seated_guardStarted⟩ hdrains⟩

/-- A start for which the supervisor is gone. -/
def unsupervised : Message :=
  .call 3 (.start { command := true, owner := 9 } (.error (.atom "noproc")))

/-- The ledger asks a supervisor that is gone for an execution, and is booted again. -/
def orphaned : World Ledger Effect :=
  (attached.killed ledger ({}, unsupervised) 2).booted ledger (twoMachines, {})

theorem Fleet.Goes.runs (h : w.Goes w') : w.Runs w' :=
  ReflTransGen.mono (fun _ _ hstep => Or.inl hstep) _ _ h

end Completion

end Sower.Vm
