import Sower.Lib.Monitors
import Sower.Server.LogRetention

/-!
# The owners that the pool of logs watches

The pool takes one call or message at a time. Owners end when they like: by themselves,
stopped by the pool, or stopped at the end of their deployment. The pool hears of it
later, when it may have started other owners already. Whatever the order, its map and its
queue hold the same owners, no more of them than it may have, and no owner that it has
started runs without being one of them.
-/

namespace Sower.Server.OwnerPool

open Monitors

section Pool

/-- Options that the pool passes on to the owners. -/
structure BufferOpts where
  maxBytes : Option ℤ := none
  maxChunks : Option ℤ := none
  deriving DecidableEq, Repr

/-- State of the pool. -/
structure State where
  maxBuffers : ℕ := 64
  bufferOpts : BufferOpts := {}
  /-- The reference of the monitor that is on each owner. -/
  owners : AList (fun _ : ℕ => ℕ) := ∅
  /-- The owners, oldest first. -/
  order : List ℕ := []

/-- A child of the supervisor: an owner's process and what it was started with. -/
structure Child where
  pid : ℕ
  deployment : Deployment
  opts : BufferOpts

/-- What the pool is about to do. -/
inductive Phase where
  /-- Take the next call or message. -/
  | idle
  /-- Look up the owner of the deployment. -/
  | ensure (deployment : Deployment)
  /-- Ask of the remaining owners whether they are alive. -/
  | prune (deployment : Deployment) (owners : List ℕ)
  | makeRoom (deployment : Deployment)
  /-- Forget the owner that was stopped. -/
  | evict (deployment : Deployment) (pid : ℕ)
  /-- Have the supervisor start an owner. -/
  | start (deployment : Deployment)
  /-- Put a monitor on the owner that was started. -/
  | watch (pid : ℕ)
  /-- The queue was empty when an owner had to be taken from it. -/
  | crashed

/-- The pool, the processes and the answers that were given. `ε` holds the reasons for which
a start fails. -/
structure World (ε : Type) where
  state : State
  phase : Phase := .idle
  processes : Processes
  /-- The owners that this pool has had started, whether they still run or not. -/
  started : List Child := []
  replies : List (Except ε ℕ) := []

variable {ε : Type}

/-- `init`: a pool that may have owners stops the children that an earlier pool has left. -/
def init (maxBuffers : ℤ) (bufferOpts : BufferOpts) (children : List ℕ)
    (processes : Processes) : Option (World ε) :=
  if 0 < maxBuffers then
    some {
      state := { maxBuffers := maxBuffers.toNat, bufferOpts }
      processes := children.foldl Processes.exit processes.unwatched }
  else none

/-- `forget` on the pool's own state. -/
def State.forget (state : State) (pid : ℕ) : State :=
  { state with
    owners := state.owners.erase pid
    order := state.order.filter (· != pid) }

/-- `forget`: the monitor of the owner is taken off. -/
def World.forget (w : World ε) (pid : ℕ) : World ε :=
  { w with
    state := w.state.forget pid
    processes :=
      match w.state.owners.lookup pid with
      | some ref => w.processes.demonitor ref
      | none => w.processes }

/-- `make_room`: a full pool has the first owner of its queue stopped. -/
def World.makeRoom (w : World ε) (deployment : Deployment) : World ε :=
  if w.state.owners.keys.length < w.state.maxBuffers then { w with phase := .start deployment }
  else
    match w.state.order with
    | [] => { w with phase := .crashed }
    | pid :: _ => { w with processes := w.processes.exit pid, phase := .evict deployment pid }

/-- The supervisor starts an owner. -/
def World.startChild (w : World ε) (deployment : Deployment) : World ε :=
  { w with
    processes := w.processes.spawn
    started := w.started ++ [⟨w.processes.next, deployment, w.state.bufferOpts⟩]
    phase := .watch w.processes.next }

/-- The pool watches an owner that was just started. -/
def World.watch (w : World ε) (pid : ℕ) : World ε :=
  { w with
    state := { w.state with
      owners := w.state.owners.insert pid w.processes.next
      order := w.state.order ++ [pid] }
    processes := w.processes.monitor pid }

/-- `handle_info` of a `:DOWN` message. -/
def World.handleDown (w : World ε) (ref pid : ℕ) : World ε :=
  let w := { w with processes := w.processes.demonitor ref }
  if w.state.owners.lookup pid = some ref then w.forget pid else w

/-- The call is answered. -/
def World.reply (w : World ε) (reply : Except ε ℕ) : World ε :=
  { w with replies := w.replies ++ [reply], phase := .idle }

/-- What happens next, in the pool or outside of it. -/
inductive Step (w : World ε) : World ε → Prop
  /-- Some other process starts. -/
  | other : Step w { w with processes := w.processes.spawn }
  /-- A process ends, or someone stops it. -/
  | exit (pid : ℕ) : Step w { w with processes := w.processes.exit pid }
  /-- `handle_call` of `ensure`. -/
  | ensure (deployment : Deployment) (idle : w.phase = .idle) :
      Step w { w with phase := .ensure deployment }
  /-- A process is registered under the deployment's name, be it on another node. -/
  | found {deployment : Deployment} (pid : ℕ) (phase : w.phase = .ensure deployment) :
      Step w (w.reply (.ok pid))
  /-- The owners are visited in some order. -/
  | missing {deployment : Deployment} {owners : List ℕ} (phase : w.phase = .ensure deployment)
      (visits : owners.Perm w.state.owners.keys) :
      Step w { w with phase := .prune deployment owners }
  | alive {deployment : Deployment} {pid : ℕ} {owners : List ℕ}
      (phase : w.phase = .prune deployment (pid :: owners)) (live : pid ∈ w.processes.live) :
      Step w { w with phase := .prune deployment owners }
  | dead {deployment : Deployment} {pid : ℕ} {owners : List ℕ}
      (phase : w.phase = .prune deployment (pid :: owners)) (ended : pid ∉ w.processes.live) :
      Step w { w.forget pid with phase := .prune deployment owners }
  | pruned {deployment : Deployment} (phase : w.phase = .prune deployment []) :
      Step w { w with phase := .makeRoom deployment }
  | makeRoom {deployment : Deployment} (phase : w.phase = .makeRoom deployment) :
      Step w (w.makeRoom deployment)
  /-- `terminate_child` has returned. -/
  | evicted {deployment : Deployment} {pid : ℕ} (phase : w.phase = .evict deployment pid) :
      Step w { w.forget pid with phase := .start deployment }
  | started {deployment : Deployment} (phase : w.phase = .start deployment) :
      Step w (w.startChild deployment)
  /-- Another process got the deployment's name in the meantime. -/
  | alreadyStarted {deployment : Deployment} (pid : ℕ) (phase : w.phase = .start deployment) :
      Step w (w.reply (.ok pid))
  | failed {deployment : Deployment} (error : ε) (phase : w.phase = .start deployment) :
      Step w (w.reply (.error error))
  | watch {pid : ℕ} (phase : w.phase = .watch pid) : Step w ((w.watch pid).reply (.ok pid))
  /-- The pool takes the message of a monitor. -/
  | down {ref pid : ℕ} (idle : w.phase = .idle) (pending : w.processes.Pending ref pid) :
      Step w (w.handleDown ref pid)
  /-- The pool crashes for a reason of its own, and its supervisor starts another one. -/
  | restart {w' : World ε} (children : List ℕ)
      (started : init w.state.maxBuffers w.state.bufferOpts children w.processes = some w') :
      Step w w'

end Pool

section Invariant

variable {ε : Type} {maxBuffers : ℤ} {state : State} {processes : Processes} {w w' : World ε}

/-- The map, the queue and the monitors belong together. -/
structure Tied (state : State) (processes : Processes) : Prop where
  queued : state.order.Perm state.owners.keys
  bounded : state.owners.keys.length ≤ state.maxBuffers
  monitored : ∀ ref pid, processes.monitors.lookup ref = some pid ↔
    state.owners.lookup pid = some ref
  known : ∀ pid ∈ state.owners, pid < processes.next

theorem Tied.order_nodup (h : Tied state processes) : state.order.Nodup :=
  h.queued.nodup_iff.mpr state.owners.nodupKeys

theorem Tied.mem_order (h : Tied state processes) {pid : ℕ} :
    pid ∈ state.owners ↔ pid ∈ state.order :=
  AList.mem_keys.trans h.queued.mem_iff.symm

theorem Tied.spawn (h : Tied state processes) : Tied state processes.spawn :=
  ⟨h.queued, h.bounded, h.monitored, fun pid hpid => Nat.lt_succ_of_lt (h.known pid hpid)⟩

theorem Tied.exit (h : Tied state processes) (pid : ℕ) : Tied state (processes.exit pid) :=
  ⟨h.queued, h.bounded, h.monitored, h.known⟩

/-- The owners that are left after one was forgotten. -/
theorem lookup_forget {pid other ref : ℕ} :
    (state.forget pid).owners.lookup other = some ref ↔
      other ≠ pid ∧ state.owners.lookup other = some ref := by
  unfold State.forget
  by_cases hsame : other = pid
  · subst hsame
    rw [AList.lookup_erase]
    simp
  · rw [AList.lookup_erase_ne hsame]
    exact (and_iff_right hsame).symm

theorem mem_forget {pid other : ℕ} :
    other ∈ (state.forget pid).owners ↔ other ≠ pid ∧ other ∈ state.owners :=
  AList.mem_erase

theorem length_forget_le (state : State) (pid : ℕ) :
    (state.forget pid).owners.keys.length ≤ state.owners.keys.length := by
  unfold State.forget
  rw [AList.keys_erase]
  exact List.length_erase_le

/-- An owner that is forgotten makes room. -/
theorem length_forget_lt {pid : ℕ} (h : pid ∈ state.owners) :
    (state.forget pid).owners.keys.length < state.owners.keys.length := by
  have hmem : pid ∈ state.owners.keys := AList.mem_keys.mp h
  have hlength := List.length_erase_of_mem hmem
  have hpositive := List.length_pos_of_mem hmem
  unfold State.forget
  rw [AList.keys_erase, hlength]
  exact Nat.sub_lt hpositive Nat.one_pos

theorem Tied.queued_forget (h : Tied state processes) (pid : ℕ) :
    (state.forget pid).order.Perm (state.forget pid).owners.keys := by
  have hkeys : state.owners.keys.erase pid = state.owners.keys.filter (· != pid) :=
    List.Nodup.erase_eq_filter state.owners.nodupKeys pid
  unfold State.forget
  rw [AList.keys_erase, hkeys]
  exact h.queued.filter _

/-- Whoever is forgotten is no longer watched, and nobody else. -/
theorem Tied.forget {w : World ε} (h : Tied w.state w.processes) (pid : ℕ) :
    Tied (w.forget pid).state (w.forget pid).processes where
  queued := h.queued_forget pid
  bounded := (length_forget_le w.state pid).trans h.bounded
  monitored := by
    intro ref other
    rw [show (w.forget pid).state = w.state.forget pid from rfl, lookup_forget]
    unfold World.forget
    cases hfound : w.state.owners.lookup pid with
    | none =>
      have hother : w.state.owners.lookup other = some ref → other ≠ pid := by
        rintro hlookup rfl
        rw [hfound] at hlookup
        cases hlookup
      rw [h.monitored]
      exact (and_iff_right_of_imp hother).symm
    | some own =>
      rw [Processes.lookup_demonitor, h.monitored]
      refine and_congr_left fun hlookup => not_congr ?_
      constructor
      · rintro rfl
        have hfirst := (h.monitored ref pid).mpr hfound
        have hsecond := (h.monitored ref other).mpr hlookup
        exact Option.some.inj (hsecond.symm.trans hfirst)
      · rintro rfl
        exact Option.some.inj (hlookup.symm.trans hfound)
  known := by
    intro other hother
    have hold := h.known other (mem_forget.mp hother).2
    unfold World.forget
    split
    · exact hold
    · exact hold

/-- A new owner is watched. -/
theorem Tied.watch {w : World ε} (h : Tied w.state w.processes) {pid : ℕ}
    (hroom : w.state.owners.keys.length < w.state.maxBuffers) (hnew : pid ∉ w.state.owners)
    (hpid : pid < w.processes.next) :
    Tied (w.watch pid).state (w.watch pid).processes where
  queued := by
    unfold World.watch
    rw [AList.keys_insert, List.erase_of_not_mem fun hmem => hnew (AList.mem_keys.mpr hmem)]
    exact (List.perm_append_singleton pid _).trans (h.queued.cons pid)
  bounded := by
    unfold World.watch
    rw [AList.keys_insert, List.erase_of_not_mem fun hmem => hnew (AList.mem_keys.mpr hmem)]
    exact hroom
  monitored := by
    intro ref other
    unfold World.watch
    rw [Processes.lookup_monitor]
    by_cases hsame : other = pid
    · subst hsame
      rw [AList.lookup_insert, h.monitored, AList.lookup_eq_none.mpr hnew]
      simp [eq_comm]
    · rw [AList.lookup_insert_ne hsame, h.monitored]
      exact or_iff_right fun hfirst => hsame hfirst.2
  known := by
    intro other hother
    rcases (AList.mem_insert _).mp hother with rfl | hold
    · exact Nat.lt_succ_of_lt hpid
    · exact Nat.lt_succ_of_lt (h.known other hold)

/-- What the pool relies on for what it is about to do. -/
def World.Ready (w : World ε) : Prop :=
  match w.phase with
  | .evict _ pid => pid ∈ w.state.owners ∧ pid ∉ w.processes.live
  | .start _ => w.state.owners.keys.length < w.state.maxBuffers
  | .watch pid => w.state.owners.keys.length < w.state.maxBuffers ∧ pid ∉ w.state.owners ∧
      pid < w.processes.next
  | .crashed => False
  | _ => True

/-- The invariant of the pool with `maxBuffers` owners at most. -/
structure Sound (maxBuffers : ℤ) (w : World ε) : Prop where
  positive : 0 < w.state.maxBuffers
  configured : (w.state.maxBuffers : ℤ) = maxBuffers
  tied : Tied w.state w.processes
  ready : w.Ready
  /-- Owners have been there before. -/
  born : ∀ child ∈ w.started, child.pid < w.processes.next
  owned : ∀ child ∈ w.started, child.pid ∈ w.processes.live →
    child.pid ∈ w.state.owners ∨ w.phase = .watch child.pid

/-- A new pool has no monitors, and stopping children puts none on. -/
theorem foldl_exit_monitors (children : List ℕ) (processes : Processes) :
    (children.foldl Processes.exit processes).monitors = processes.monitors := by
  induction children generalizing processes with
  | nil => rfl
  | cons child rest ih => exact ih (processes.exit child)

theorem init_sound {bufferOpts : BufferOpts} {children : List ℕ}
    (h : init maxBuffers bufferOpts children processes = some w) : Sound maxBuffers w := by
  unfold init at h
  split at h
  · rename_i hpositive
    cases h
    have hnat : 0 < maxBuffers.toNat := Int.pos_iff_toNat_pos.mp hpositive
    refine ⟨hnat, Int.toNat_of_nonneg hpositive.le, ?_, trivial, ?_, ?_⟩
    · refine ⟨.nil, Nat.zero_le _, fun ref pid => ?_, fun pid hpid => ?_⟩
      · rw [foldl_exit_monitors]
        exact iff_of_false (fun hempty => by cases hempty) fun hempty => by cases hempty
      · exact absurd hpid (AList.notMem_empty pid)
    · intro child hchild
      cases hchild
    · intro child hchild
      cases hchild
  · cases h

/-- Nobody but the pool changes the phase, and others do not touch its state. -/
theorem Sound.exit (h : Sound maxBuffers w) (pid : ℕ) :
    Sound maxBuffers { w with processes := w.processes.exit pid } where
  positive := h.positive
  configured := h.configured
  tied := h.tied.exit pid
  ready := by
    have hready := h.ready
    unfold World.Ready at hready ⊢
    cases hphase : w.phase <;> simp only [hphase] at hready ⊢ <;> first | exact hready | skip
    exact ⟨hready.1, fun hlive => hready.2 (Processes.mem_exit.mp hlive).1⟩
  born := h.born
  owned child hchild hlive := h.owned child hchild (Processes.mem_exit.mp hlive).1

theorem Sound.other (h : Sound maxBuffers w) :
    Sound maxBuffers { w with processes := w.processes.spawn } where
  positive := h.positive
  configured := h.configured
  tied := h.tied.spawn
  ready := by
    have hready := h.ready
    unfold World.Ready at hready ⊢
    cases hphase : w.phase <;> simp only [hphase] at hready ⊢ <;> try exact hready
    · exact ⟨hready.1, Processes.not_mem_spawn (h.tied.known _ hready.1) hready.2⟩
    · exact ⟨hready.1, hready.2.1, Nat.lt_succ_of_lt hready.2.2⟩
  born child hchild := Nat.lt_succ_of_lt (h.born child hchild)
  owned := by
    intro child hchild hlive
    rcases List.mem_cons.mp hlive with hnew | hold
    · exact absurd (h.born child hchild) (hnew ▸ lt_irrefl _)
    · exact h.owned child hchild hold

/-- Between two starts every owner that runs is watched. -/
theorem Sound.owned_of_phase (h : Sound maxBuffers w) (hphase : ∀ pid, w.phase ≠ .watch pid) :
    ∀ child ∈ w.started, child.pid ∈ w.processes.live → child.pid ∈ w.state.owners :=
  fun child hchild hlive => (h.owned child hchild hlive).resolve_right (hphase child.pid)

/-- The pool goes on without a change of its state. -/
theorem Sound.turn (h : Sound maxBuffers w) {phase : Phase} {replies : List (Except ε ℕ)}
    (hphase : ∀ pid, w.phase ≠ .watch pid) (hready : World.Ready { w with phase := phase }) :
    Sound maxBuffers { w with phase := phase, replies := replies } where
  positive := h.positive
  configured := h.configured
  tied := h.tied
  ready := hready
  born := h.born
  owned child hchild hlive := Or.inl (h.owned_of_phase hphase child hchild hlive)

/-- The pool forgets an owner that has ended. -/
theorem Sound.forget (h : Sound maxBuffers w) {phase : Phase} {pid : ℕ}
    (hphase : ∀ pid, w.phase ≠ .watch pid) (hended : pid ∉ w.processes.live)
    (hready : World.Ready { w.forget pid with phase := phase }) :
    Sound maxBuffers { w.forget pid with phase := phase } where
  positive := h.positive
  configured := h.configured
  tied := h.tied.forget pid
  ready := hready
  born := by
    intro child hchild
    have hold := h.born child hchild
    dsimp only [World.forget]
    split
    · exact hold
    · exact hold
  owned := by
    intro child hchild hlive
    have hold : child.pid ∈ w.processes.live := by
      dsimp only [World.forget] at hlive
      split at hlive
      · exact hlive
      · exact hlive
    have hother : child.pid ≠ pid := fun hsame => hended (hsame ▸ hold)
    exact Or.inl (mem_forget.mpr ⟨hother, h.owned_of_phase hphase child hchild hold⟩)

/-- A sound pool finds an owner in its queue when it is full. -/
theorem Sound.makeRoom (h : Sound maxBuffers w) {deployment : Deployment}
    (hphase : w.phase = .makeRoom deployment) : Sound maxBuffers (w.makeRoom deployment) := by
  have hturn : ∀ pid, w.phase ≠ .watch pid := by
    intro pid hwatch
    rw [hphase] at hwatch
    cases hwatch
  unfold World.makeRoom
  split
  · rename_i hroom
    exact h.turn hturn hroom
  · rename_i hfull
    rcases horder : w.state.order with _ | ⟨pid, rest⟩
    · have hlength := h.tied.queued.length_eq
      have hpositive := h.positive
      rw [horder, List.length_nil] at hlength
      omega
    · have hmem : pid ∈ w.state.owners := by
        rw [h.tied.mem_order, horder]
        exact List.mem_cons_self
      exact (h.exit pid).turn hturn ⟨hmem, Processes.not_mem_exit⟩

/-- The supervisor starts an owner under a name that was not used before. -/
theorem Sound.startChild (h : Sound maxBuffers w) {deployment : Deployment}
    (hphase : w.phase = .start deployment) : Sound maxBuffers (w.startChild deployment) where
  positive := h.positive
  configured := h.configured
  tied := h.tied.spawn
  ready := by
    have hready := h.ready
    unfold World.Ready at hready
    rw [hphase] at hready
    exact ⟨hready, fun hmem => lt_irrefl _ (h.tied.known _ hmem), Nat.lt_succ_self _⟩
  born := by
    intro child hchild
    rcases List.mem_append.mp hchild with hold | hnew
    · exact Nat.lt_succ_of_lt (h.born child hold)
    · rw [List.mem_singleton.mp hnew]
      exact Nat.lt_succ_self _
  owned := by
    intro child hchild hlive
    rcases List.mem_append.mp hchild with hold | hnew
    · rcases List.mem_cons.mp hlive with hsame | hrunning
      · exact absurd (h.born child hold) (hsame ▸ lt_irrefl _)
      · have howner := h.owned child hold hrunning
        rw [hphase] at howner
        exact Or.inl (howner.resolve_right fun hwatch => by cases hwatch)
    · rw [List.mem_singleton.mp hnew]
      exact Or.inr rfl

/-- The pool watches the owner that it has had started. -/
theorem Sound.watch (h : Sound maxBuffers w) {pid : ℕ} (hphase : w.phase = .watch pid) :
    Sound maxBuffers ((w.watch pid).reply (.ok pid)) := by
  have hready := h.ready
  unfold World.Ready at hready
  rw [hphase] at hready
  obtain ⟨hroom, hnew, hpid⟩ := hready
  refine ⟨h.positive, h.configured, h.tied.watch hroom hnew hpid, trivial, ?_, ?_⟩
  · exact fun child hchild => Nat.lt_succ_of_lt (h.born child hchild)
  · intro child hchild hlive
    refine Or.inl ((AList.mem_insert _).mpr ?_)
    rcases h.owned child hchild hlive with hold | hwatch
    · exact Or.inr hold
    · rw [hphase] at hwatch
      cases hwatch
      exact Or.inl rfl

/-- The message of a monitor is about an owner that has ended. -/
theorem Sound.down (h : Sound maxBuffers w) {ref pid : ℕ} (hidle : w.phase = .idle)
    (hpending : w.processes.Pending ref pid) : Sound maxBuffers (w.handleDown ref pid) := by
  have hlookup := (h.tied.monitored ref pid).mp hpending.1
  have hforget : w.handleDown ref pid = { w.forget pid with phase := w.phase } := by
    unfold World.handleDown
    dsimp only
    rw [if_pos hlookup]
    simp only [World.forget, hlookup, Processes.demonitor_demonitor]
  have hphase : ∀ other, w.phase ≠ .watch other := by
    intro other hwatch
    rw [hidle] at hwatch
    cases hwatch
  rw [hforget, hidle]
  exact h.forget hphase hpending.2 trivial

/-- Every step keeps the invariant. -/
theorem Sound.step (h : Sound maxBuffers w) (hstep : Step w w') : Sound maxBuffers w' := by
  cases hstep with
  | other => exact h.other
  | exit pid => exact h.exit pid
  | ensure deployment idle => exact h.turn (by simp [idle]) trivial
  | found pid phase => exact h.turn (by simp [phase]) trivial
  | missing phase visits => exact h.turn (by simp [phase]) trivial
  | alive phase live => exact h.turn (by simp [phase]) trivial
  | dead phase ended => exact h.forget (by simp [phase]) ended trivial
  | pruned phase => exact h.turn (by simp [phase]) trivial
  | makeRoom phase => exact h.makeRoom phase
  | evicted phase =>
    have hready := h.ready
    unfold World.Ready at hready
    rw [phase] at hready
    have hroom := (length_forget_lt hready.1).trans_le h.tied.bounded
    exact h.forget (by simp [phase]) hready.2 hroom
  | started phase => exact h.startChild phase
  | alreadyStarted pid phase => exact h.turn (by simp [phase]) trivial
  | failed error phase => exact h.turn (by simp [phase]) trivial
  | watch phase => exact h.watch phase
  | down idle pending => exact h.down idle pending
  | restart children started =>
    have hsound := init_sound started
    rw [h.configured] at hsound
    exact hsound

/-- The invariant holds in every run. -/
theorem sound_of_run (h : Sound maxBuffers w) (hrun : Relation.ReflTransGen Step w w') :
    Sound maxBuffers w' := by
  induction hrun with
  | refl => exact h
  | tail _ hstep ih => exact ih.step hstep

end Invariant

section Runs

variable {ε : Type} {maxBuffers : ℤ} {bufferOpts : BufferOpts} {children : List ℕ}
  {processes : Processes} {w w' : World ε}

/-- In every state of every run the map and the queue hold the same owners, each once and no
more than the pool may have; a running owner of the pool is one of them unless it was started
just now; and the pool does not look into an empty queue. -/
theorem owners_queued (hinit : init maxBuffers bufferOpts children processes = some w)
    (hrun : Relation.ReflTransGen Step w w') :
    (∀ pid, pid ∈ w'.state.owners ↔ pid ∈ w'.state.order) ∧ w'.state.order.Nodup ∧
      (w'.state.owners.keys.length : ℤ) ≤ maxBuffers ∧
      (∀ child ∈ w'.started, child.pid ∈ w'.processes.live →
        child.pid ∈ w'.state.owners ∨ w'.phase = .watch child.pid) ∧
      w'.phase ≠ .crashed := by
  have hsound := sound_of_run (init_sound hinit) hrun
  refine ⟨fun pid => hsound.tied.mem_order, hsound.tied.order_nodup, ?_, hsound.owned, ?_⟩
  · rw [← hsound.configured]
    exact Int.ofNat_le.mpr hsound.tied.bounded
  · intro hcrashed
    have hready := hsound.ready
    unfold World.Ready at hready
    rw [hcrashed] at hready
    exact hready

/-- A system in which nothing runs. -/
def nobody : Processes where
  live := []
  monitors := ∅
  next := 0
  live_lt pid hpid := by cases hpid
  monitors_lt ref href := by cases href

/-- A pool of two owners at most. -/
def pair : World Unit where
  state := { maxBuffers := 2 }
  processes := nobody

/-- The first owner ends while the second one is started, and the pool hears of it after
that. The pool starts a third owner and stops the second one in favour of a fourth. -/
theorem owners_queued_pair : ∃ w : World Unit, w.state.order = [4, 6] ∧
    w.replies = [.ok 0, .ok 2, .ok 4, .ok 6] ∧
    (∀ pid, pid ∈ w.state.owners ↔ pid ∈ w.state.order) ∧ w.state.order.Nodup ∧
      (w.state.owners.keys.length : ℤ) ≤ 2 ∧
      (∀ child ∈ w.started, child.pid ∈ w.processes.live →
        child.pid ∈ w.state.owners ∨ w.phase = .watch child.pid) ∧
      w.phase ≠ .crashed := by
  have hinit : init 2 {} [] nobody = some pair := rfl
  refine ⟨_, ?_, ?_, owners_queued hinit (Relation.ReflTransGen.refl
    |>.tail (.ensure loggedDeployment rfl)
    |>.tail (.missing rfl (.refl _))
    |>.tail (.pruned rfl)
    |>.tail (.makeRoom rfl)
    |>.tail (.started rfl)
    |>.tail (.watch rfl)
    |>.tail (.ensure { loggedDeployment with id := 2 } rfl)
    |>.tail (.missing rfl (.refl _))
    |>.tail (.alive rfl (by decide))
    |>.tail (.pruned rfl)
    |>.tail (.makeRoom rfl)
    |>.tail (.exit 0)
    |>.tail (.started rfl)
    |>.tail (.watch rfl)
    |>.tail (.down rfl (show Processes.Pending _ 1 0 from ⟨rfl, by decide⟩))
    |>.tail (.ensure { loggedDeployment with id := 3 } rfl)
    |>.tail (.missing rfl (.refl _))
    |>.tail (.alive rfl (by decide))
    |>.tail (.pruned rfl)
    |>.tail (.makeRoom rfl)
    |>.tail (.started rfl)
    |>.tail (.watch rfl)
    |>.tail (.ensure { loggedDeployment with id := 4 } rfl)
    |>.tail (.missing rfl (.refl _))
    |>.tail (.alive rfl (by decide))
    |>.tail (.alive rfl (by decide))
    |>.tail (.pruned rfl)
    |>.tail (.makeRoom rfl)
    |>.tail (.evicted rfl)
    |>.tail (.started rfl)
    |>.tail (.watch rfl))⟩
  · rfl
  · rfl

end Runs

section Refinement

variable {ε : Type} {maxBuffers : ℤ} {state : State} {pool : LogPool} {w : World ε}

/-- The pool of the accounting holds the same owners in the same order. -/
structure Agrees (state : State) (pool : LogPool) : Prop where
  maxBuffers : pool.maxBuffers = state.maxBuffers
  order : pool.order = state.order
  owners : pool.owners.Perm state.owners.keys

theorem Agrees.consistent (h : Agrees w.state pool) (hsound : Sound maxBuffers w) :
    pool.Consistent where
  positive := by
    rw [h.maxBuffers]
    exact hsound.positive
  queued := by
    rw [h.order]
    exact hsound.tied.queued.trans h.owners.symm

theorem Agrees.forget (h : Agrees state pool) (pid : ℕ) :
    Agrees (state.forget pid) (pool.forget pid) where
  maxBuffers := h.maxBuffers
  order := congrArg (List.filter (· != pid)) h.order
  owners := by
    have hkeys : state.owners.keys.erase pid = state.owners.keys.filter (· != pid) :=
      List.Nodup.erase_eq_filter state.owners.nodupKeys pid
    unfold State.forget LogPool.forget
    rw [AList.keys_erase, hkeys]
    exact h.owners.filter _

theorem Agrees.watch (h : Agrees w.state pool) {pid : ℕ} (hnew : pid ∉ w.state.owners) :
    Agrees (w.watch pid).state (pool.watch pid) where
  maxBuffers := h.maxBuffers
  order := congrArg (· ++ [pid]) h.order
  owners := by
    unfold World.watch LogPool.watch
    rw [AList.keys_insert, List.erase_of_not_mem fun hmem => hnew (AList.mem_keys.mpr hmem)]
    exact (List.perm_append_singleton pid _).trans (h.owners.cons pid)

/-- Undisturbed, the pool asks of one owner after the other and forgets those that have
ended. -/
theorem Agrees.prune (h : Agrees w.state pool) (deployment : Deployment) (owners : List ℕ)
    (hphase : w.phase = .prune deployment owners) :
    ∃ w', Relation.ReflTransGen Step w w' ∧ w'.phase = .makeRoom deployment ∧
      Agrees w'.state (owners.foldl (fun pool pid =>
        if decide (pid ∈ w.processes.live) then pool else pool.forget pid) pool) := by
  induction owners generalizing w pool with
  | nil => exact ⟨_, .single (.pruned hphase), rfl, h⟩
  | cons pid rest ih =>
    rw [List.foldl_cons]
    by_cases hlive : pid ∈ w.processes.live
    · rw [if_pos (decide_eq_true hlive)]
      obtain ⟨w', hrun, hmade, hagrees⟩ := ih (w := { w with phase := .prune deployment rest }) h rfl
      exact ⟨w', .head (.alive hphase hlive) hrun, hmade, hagrees⟩
    · rw [if_neg fun hdead => hlive (of_decide_eq_true hdead)]
      have hkept : (w.forget pid).processes.live = w.processes.live := by
        dsimp only [World.forget]
        split
        · rfl
        · rfl
      obtain ⟨w', hrun, hmade, hagrees⟩ :=
        ih (w := { w.forget pid with phase := .prune deployment rest }) (h.forget pid) rfl
      dsimp only at hagrees
      rw [hkept] at hagrees
      exact ⟨w', .head (.dead hphase hlive) hrun, hmade, hagrees⟩

/-- A call that finds no owner gets to the pool without the owners that have ended. -/
theorem Agrees.forgetDead (h : Agrees w.state pool) {deployment : Deployment}
    (hphase : w.phase = .ensure deployment) :
    ∃ w', Relation.ReflTransGen Step w w' ∧ w'.phase = .makeRoom deployment ∧
      Agrees w'.state (pool.forgetDead fun pid => decide (pid ∈ w.processes.live)) := by
  obtain ⟨w', hrun, hmade, hagrees⟩ := Agrees.prune
    (w := { w with phase := .prune deployment pool.owners }) h deployment pool.owners rfl
  exact ⟨w', .head (.missing hphase h.owners) hrun, hmade, hagrees⟩

/-- Both make room by stopping the same owner, or by stopping none. -/
theorem Agrees.makeRoom (h : Agrees w.state pool) (deployment : Deployment) :
    (w.makeRoom deployment).phase =
      match pool.makeRoom with
      | none => .crashed
      | some (_, none) => .start deployment
      | some (_, some pid) => .evict deployment pid := by
  have hlength : pool.owners.length = w.state.owners.keys.length := h.owners.length_eq
  unfold World.makeRoom LogPool.makeRoom
  rw [hlength, h.maxBuffers, h.order]
  split
  · rfl
  · cases w.state.order with
    | nil => rfl
    | cons pid rest => rfl

end Refinement

end Sower.Server.OwnerPool
