import Sower.Vm.GuestHistory
import Sower.Vm.GuestRuns

/-!
# Containment of a command

The pieces of the loop move bytes, wait for children or record that they were
cleaned up. What the flag and the process tree say of the history is an invariant
of all of them: a tree is taken for clean only behind the certificate of the system
and with the status of the root process, and a cleanup that fails sets the flag.
-/

namespace Sower.Vm.GuestLoop

open Framing Stateful Protocol

section Commands

/-- What the history says while a command runs, and what it said before. -/
structure Tracked (before more : List Happening) (g : Guest) : Prop where
  history : g.runtime.history = before ++ .adopting :: .spawned :: more
  unspawned : Happening.spawned ∉ more
  clean : g.tree.clean = true →
    g.tree.status.isSome = true ∧ Happening.waited .any .noChildren ∈ more
  status : ∀ status, g.tree.status = some status → Reported more status
  /-- A failure to clean up sets the flag. -/
  failed : Happening.cleaned false ∈ more → g.runtime.failed = true

/-- The process tree of a command is tracked. -/
def Tracks (before : List Happening) (g : Guest) : Prop := ∃ more, Tracked before more g

/-- Nothing has failed to be cleaned up. -/
structure Intact (before : List Happening) (g : Guest) : Prop where
  tracks : Tracks before g
  certain : g.runtime.failed = false

/-- A piece of the loop stops without a panic. -/
structure Halts (before : List Happening) (reason : Stop) (g : Guest) : Prop where
  tracks : Tracks before g
  unpanicked : reason ≠ .panicked
  error : g.runtime.failed = true → ∃ error, reason = .error error

variable {before more : List Happening} {g g' : Guest} {α : Type} {serde : Serde}
  {version : Version} {reason : Stop}

theorem Tracked.congr (h : Tracked before more g) (htree : g'.tree = g.tree)
    (hruntime : g'.runtime = g.runtime) : Tracked before more g' where
  history := by
    rw [hruntime, h.history]
  unspawned := h.unspawned
  clean := by
    rw [htree]
    exact h.clean
  status := by
    rw [htree]
    exact h.status
  failed := by
    rw [hruntime]
    exact h.failed

/-- Bytes do not matter. -/
theorem Intact.congr (h : Intact before g) (htree : g'.tree = g.tree)
    (hruntime : g'.runtime = g.runtime) : Intact before g' := by
  obtain ⟨more, htracked⟩ := h.tracks
  refine ⟨⟨more, htracked.congr htree hruntime⟩, ?_⟩
  rw [hruntime]
  exact h.certain

theorem Intact.halts (h : Intact before g) (hreason : reason ≠ .panicked) :
    Halts before reason g := by
  refine ⟨h.tracks, hreason, ?_⟩
  intro hfailed
  rw [h.certain] at hfailed
  cases hfailed

theorem Intact.waiting (g : Guest) (h : Intact before g) : Halts before .waiting g := by
  apply h.halts
  intro hreason
  cases hreason

theorem Intact.stops (error : IoError) (g : Guest) (h : Intact before g) :
    Halts before (.error error) g := by
  apply h.halts
  intro hreason
  cases hreason

/-- A call that changes nothing. -/
theorem call_intact (f : Answer → Except IoError α) :
    Triple (Intact before) (call f) (fun _ => Intact before) (Halts before) := by
  unfold call
  apply Triple.ask
  · exact Intact.waiting
  · intro answer g hg
    cases f answer with
    | ok value => exact hg
    | error error => exact hg.stops _ g

theorem controlRead_intact (fuel : ℕ) :
    Triple (Intact before) (controlRead serde version fuel) (fun _ => Intact before)
      (Halts before) := by
  have hturn : Triple (Intact before) (controlTurn serde version)
      (Turn (Intact before) fun _ => Intact before) (Halts before) := by
    unfold controlTurn
    apply Triple.ask
    · exact Intact.waiting
    · intro answer g hg
      cases reading g.control.room g.incoming answer with
      | interrupted => exact hg
      | wouldBlock => exact hg
      | failed => exact hg.stops _ g
      | data data =>
        cases data with
        | nil => exact hg
        | cons byte data =>
          dsimp only
          cases g.control.receive serde version (byte :: data) with
          | error error =>
            have hkept : Intact before
                { g with incoming := g.incoming.drop (byte :: data).length } := hg.congr rfl rfl
            exact hkept.stops error _
          | ok outcome =>
            obtain ⟨control, complete⟩ := outcome
            cases complete with
            | false => exact hg.congr rfl rfl
            | true => exact hg.congr rfl rfl
  exact Triple.repeatFor hturn Intact.waiting fuel

theorem flush_intact (fuel : ℕ) :
    Triple (Intact before) (flush fuel) (fun _ => Intact before) (Halts before) := by
  have hturn : Triple (Intact before) flushTurn
      (Turn (Intact before) fun _ => Intact before) (Halts before) := by
    unfold flushTurn
    apply Triple.view_bind
    intro g hg
    refine Triple.at_state ?_ hg
    apply Triple.ite
    · intro _
      apply Triple.ask
      · exact Intact.waiting
      · intro answer g hg
        cases writing (g.output.length - g.output.sent) answer with
        | moved n =>
          cases n with
          | zero => exact hg.stops _ g
          | succ n => exact hg.congr rfl rfl
        | interrupted => exact hg
        | wouldBlock => exact hg
        | brokenPipe => exact hg.stops _ g
        | failed => exact hg.stops _ g
    · intro _
      refine Triple.seq (Triple.update_keep fun g hg => hg.congr rfl rfl) ?_
      intro _
      exact Triple.pure fun _ hs => hs
  exact Triple.repeatFor hturn Intact.waiting fuel

theorem closeStdin_intact :
    Triple (Intact before) closeStdin (fun _ => Intact before) (Halts before) :=
  Triple.update_keep fun _ hg => hg.congr rfl rfl

theorem writeStdin_intact :
    Triple (Intact before) writeStdin (fun _ => Intact before) (Halts before) := by
  unfold writeStdin
  apply Triple.view_bind
  intro g hg
  refine Triple.at_state ?_ hg
  apply Triple.ite
  · intro _
    apply Triple.ask
    · exact Intact.waiting
    · intro answer g hg
      cases writing (g.input.length - g.inputSent) answer with
      | moved n => exact hg.congr rfl rfl
      | interrupted => exact hg
      | wouldBlock => exact hg
      | brokenPipe => exact hg.congr rfl rfl
      | failed => exact hg.stops _ g
  · intro _
    exact Triple.pure fun _ hs => hs

theorem setPipe_intact (h : Intact before g) (p : Pipe) (rest : Option (List UInt8)) :
    Intact before (g.setPipe p rest) := by
  cases p with
  | stdout => exact h.congr rfl rfl
  | stderr => exact h.congr rfl rfl

theorem pipe_intact (p : Pipe) :
    Triple (Intact before) (pipe p) (fun _ => Intact before) (Halts before) := by
  unfold pipe
  apply Triple.view_bind
  intro g hg
  refine Triple.at_state ?_ hg
  apply Triple.ite
  · intro _
    exact Triple.pure fun _ hs => hs
  · intro _
    cases g.pipe p with
    | none => exact Triple.pure fun _ hs => hs
    | some rest =>
      apply Triple.ask
      · exact Intact.waiting
      · intro answer g hg
        cases reading chunk rest answer with
        | interrupted => exact hg
        | wouldBlock => exact hg
        | failed => exact hg.stops _ g
        | data data =>
          cases data with
          | nil => exact setPipe_intact hg p none
          | cons byte data => exact (setPipe_intact hg p _).congr rfl rfl

theorem pipes_intact : Triple (Intact before) pipes (fun _ => Intact before) (Halts before) := by
  unfold pipes
  apply Triple.view_bind
  intro g hg
  refine Triple.at_state ?_ hg
  apply Triple.ite
  · intro _
    exact Triple.seq (pipe_intact .stderr) fun _ => pipe_intact .stdout
  · intro _
    exact Triple.seq (pipe_intact .stdout) fun _ => pipe_intact .stderr

/-- A clean tree has a status, so the exit can be framed. -/
theorem finish_intact :
    Triple (Intact before) (finish serde version) (fun _ => Intact before) (Halts before) := by
  unfold finish
  apply Triple.view_bind
  intro g hg
  apply Triple.ite
  · intro hfinish
    have hexited : Triple (· = g) (exited serde version) (fun _ => Intact before)
        (Halts before) := by
      unfold exited
      apply Triple.view_bind
      intro s hs
      rw [hs]
      cases hstatus : g.tree.status with
      | none =>
        obtain ⟨more, htracked⟩ := hg.tracks
        have hsome := (htracked.clean hfinish.1).1
        rw [hstatus] at hsome
        cases hsome
      | some status =>
        refine Triple.at_state ?_ hg
        apply Triple.ite
        · intro _
          exact Triple.throw fun g hg => hg.stops _ g
        · intro _
          exact Triple.update_keep fun g hg => hg.congr rfl rfl
    refine Triple.seq hexited ?_
    intro _
    exact Triple.update_keep fun g hg => hg.congr rfl rfl
  · intro _
    exact Triple.at_state (Triple.pure fun _ hs => hs) hg

theorem fillEmpty_intact :
    Triple (Intact before) (fillEmpty serde version) (fun _ => Intact before) (Halts before) := by
  unfold fillEmpty
  apply Triple.view_bind
  intro g hg
  refine Triple.at_state ?_ hg
  apply Triple.ite
  · intro _
    unfold fillOutput
    refine Triple.seq pipes_intact ?_
    intro _
    refine Triple.seq (Triple.update_keep fun g hg => hg.congr rfl rfl) ?_
    intro _
    exact finish_intact
  · intro _
    exact Triple.pure fun _ hs => hs

end Commands

section Trees

variable {before more : List Happening} {g : Guest} {serde : Serde} {version : Version}

/-- Everything but a spawn and a failure may be recorded. -/
theorem Tracked.record (h : Tracked before more g) {happening : Happening}
    (hspawned : happening ≠ .spawned) (hcleaned : happening ≠ .cleaned false) :
    Tracked before (more ++ [happening]) (record happening g) where
  history := by
    change g.runtime.history ++ [happening] = _
    rw [h.history]
    simp
  unspawned := by
    intro hmem
    rcases List.mem_append.mp hmem with hmem | hmem
    · exact h.unspawned hmem
    · exact hspawned (List.mem_singleton.mp hmem).symm
  clean := by
    intro hclean
    have hsome := h.clean hclean
    exact ⟨hsome.1, List.mem_append_left _ hsome.2⟩
  status := by
    intro status hstatus
    exact (h.status status hstatus).append _
  failed := by
    intro hmem
    rcases List.mem_append.mp hmem with hmem | hmem
    · exact h.failed hmem
    · exact absurd (List.mem_singleton.mp hmem).symm hcleaned

/-- A failure is recorded together with the flag. -/
theorem Tracked.uncertain (h : Tracked before more g) :
    Tracked before (more ++ [.cleaned false]) (uncertain (GuestLoop.record (.cleaned false) g)) where
  history := by
    change g.runtime.history ++ [Happening.cleaned false] = _
    rw [h.history]
    simp
  unspawned := by
    intro hmem
    rcases List.mem_append.mp hmem with hmem | hmem
    · exact h.unspawned hmem
    · cases List.mem_singleton.mp hmem
  clean := by
    intro hclean
    have hsome := h.clean hclean
    exact ⟨hsome.1, List.mem_append_left _ hsome.2⟩
  status := by
    intro status hstatus
    exact (h.status status hstatus).append _
  failed := fun _ => rfl

/-- A status that was reported. -/
theorem Tracked.setStatus (h : Tracked before more g) {status : ExitStatus}
    (hreported : Reported more status) : Tracked before more (setStatus status g) where
  history := h.history
  unspawned := h.unspawned
  clean := by
    intro hclean
    exact ⟨rfl, (h.clean hclean).2⟩
  status := by
    intro status' hstatus
    cases hstatus
    exact hreported
  failed := h.failed

/-- What has been waited for is in the history. -/
structure Waits (before : List Happening) (target : Target) (waited : Waited) (g : Guest) :
    Prop where
  tracks : ∃ more, Tracked before more g ∧ Happening.waited target waited ∈ more
  certain : g.runtime.failed = false

theorem Waits.intact {target : Target} {waited : Waited} (h : Waits before target waited g) :
    Intact before g := by
  obtain ⟨more, htracked, -⟩ := h.tracks
  exact ⟨⟨more, htracked⟩, h.certain⟩

/-- A status of the root process is noted. -/
theorem Waits.setStatus {target : Target} {root : Bool} {status : ExitStatus}
    (h : Waits before target (.child root status) g) (hroot : target = .root ∨ root = true) :
    Intact before (setStatus status g) := by
  obtain ⟨more, htracked, hmem⟩ := h.tracks
  exact ⟨⟨more, htracked.setStatus ⟨target, root, hmem, hroot⟩⟩, h.certain⟩

theorem waitChild_intact (target : Target) (fuel : ℕ) :
    Triple (Intact before) (waitChild target fuel) (fun waited => Waits before target waited)
      (Halts before) := by
  unfold waitChild
  refine Triple.seq (show Triple (Intact before) _ (fun _ => Intact before) (Halts before) from
    Triple.repeatFor ?_ Intact.waiting fuel) ?_
  · refine (call_intact _).weaken ?_
    intro outcome g hg
    cases outcome with
    | none => exact hg
    | some waited => exact hg
  · intro waited
    have hrecord : Triple (θ := Answer) (Intact before) (update (record (.waited target waited)))
        (fun _ => Waits before target waited) (Halts before) := by
      apply Triple.update
      intro g hg
      obtain ⟨more, htracked⟩ := hg.tracks
      refine ⟨⟨more ++ [.waited target waited], ?_, ?_⟩, hg.certain⟩
      · exact htracked.record (fun h => nomatch h) (fun h => nomatch h)
      · exact List.mem_append_right _ List.mem_cons_self
    refine Triple.bind hrecord ?_
    intro _
    exact Triple.pure fun _ hs => hs

theorem rootExited_intact (fuel : ℕ) :
    Triple (Intact before) (rootExited fuel) (fun _ => Intact before) (Halts before) := by
  unfold rootExited
  apply Triple.view_bind
  intro g hg
  refine Triple.at_state ?_ hg
  apply Triple.ite
  · intro _
    exact Triple.pure fun _ hs => hs
  · intro _
    refine Triple.bind (waitChild_intact .root fuel) ?_
    intro waited
    cases waited with
    | child root status =>
      have hset : Triple (θ := Answer) (Waits before .root (.child root status))
          (update (setStatus status)) (fun _ => Intact before) (Halts before) :=
        Triple.update fun g hg => hg.setStatus (Or.inl rfl)
      refine Triple.seq hset ?_
      intro _
      exact Triple.pure fun _ hs => hs
    | none => exact Triple.pure fun _ hs => hs.intact
    | noChildren => exact Triple.throw fun g hg => hg.intact.stops _ g
    | failed => exact Triple.throw fun g hg => hg.intact.stops _ g

/-- The process tree is clean. -/
structure Cleaned (before : List Happening) (g : Guest) : Prop where
  intact : Intact before g
  clean : g.tree.clean = true

/-- The tree is taken for clean only where the system says that no child is left, and the
status of the root process is known. -/
theorem reapTurn_intact (fuel : ℕ) :
    Triple (Intact before) (reapTurn fuel)
      (Turn (Intact before) fun done g => Intact before g ∧ (done = true → Cleaned before g))
      (Halts before) := by
  unfold reapTurn checkDeadline
  refine Triple.seq (call_intact _) ?_
  intro _
  refine Triple.bind (waitChild_intact .any fuel) ?_
  intro waited
  cases waited with
  | child root status =>
    apply Triple.ite
    · intro hroot
      have hset : Triple (θ := Answer) (Waits before .any (.child root status))
          (update (setStatus status)) (fun _ => Intact before) (Halts before) :=
        Triple.update fun g hg => hg.setStatus (Or.inr hroot)
      refine Triple.seq hset ?_
      intro _
      exact Triple.pure fun _ hs => hs
    · intro _
      exact Triple.pure fun _ hs => hs.intact
  | none => exact Triple.pure fun _ hs => ⟨hs.intact, fun h => nomatch h⟩
  | noChildren =>
    apply Triple.view_bind
    intro g hg
    apply Triple.ite
    · intro _
      exact Triple.at_state (Triple.throw fun g hg => hg.intact.stops _ g) hg
    · intro hknown
      have hsome : g.tree.status.isSome = true := by
        cases hstatus : g.tree.status with
        | none =>
          rw [hstatus] at hknown
          exact absurd rfl hknown
        | some status => rfl
      have hclean : Triple (θ := Answer) (· = g) (update fun g =>
          { g with tree := { g.tree with clean := true } } )
          (fun _ => Cleaned before) (Halts before) := by
        apply Triple.update
        intro s hs
        rw [hs]
        obtain ⟨more, htracked, hmem⟩ := hg.tracks
        refine ⟨⟨⟨more, ?_⟩, hg.certain⟩, rfl⟩
        exact ⟨htracked.history, htracked.unspawned, fun _ => ⟨hsome, hmem⟩, htracked.status,
          htracked.failed⟩
      refine Triple.bind hclean ?_
      intro _
      exact Triple.pure fun _ hs => ⟨hs.intact, fun _ => hs⟩
  | failed => exact Triple.throw fun g hg => hg.intact.stops _ g

theorem cleanupInner_intact (fuel : ℕ) :
    Triple (Intact before) (cleanupInner fuel) (fun _ => Cleaned before) (Halts before) := by
  have hturn : Triple (Intact before) (cleanupTurn fuel)
      (Turn (Intact before) fun _ => Cleaned before) (Halts before) := by
    unfold cleanupTurn killing checkDeadline
    refine Triple.seq (call_intact _) ?_
    intro _
    refine Triple.bind (Triple.repeatFor (reapTurn_intact fuel) Intact.waiting fuel) ?_
    intro done
    apply Triple.ite
    · intro hdone
      exact Triple.pure fun g hg => hg.2 hdone
    · intro _
      refine Triple.seq ((call_intact _).strengthen fun g hg => hg.1) ?_
      intro _
      exact Triple.pure fun _ hs => hs
  have hloop : Triple (Intact before) (repeatFor .waiting (cleanupTurn fuel) fuel)
      (fun _ => Cleaned before) (Halts before) :=
    Triple.repeatFor hturn Intact.waiting fuel
  unfold cleanupInner
  apply Triple.view_bind
  intro g hg
  apply Triple.ite
  · intro hclean
    apply Triple.pure
    intro s hs
    rw [hs]
    exact ⟨hg, hclean⟩
  · intro _
    refine Triple.at_state ?_ hg
    apply Triple.ite
    · intro _
      unfold killing
      refine Triple.seq (call_intact _) ?_
      intro _
      exact hloop
    · intro _
      exact hloop

/-- A cleanup that returns an error has set the flag. -/
structure Fails (before : List Happening) (reason : Stop) (g : Guest) : Prop where
  halts : Halts before reason g
  failed : ∀ error, reason = .error error → g.runtime.failed = true

/-- What the inner part of a cleanup leaves. -/
def AfterCleanup (before : List Happening) : Except IoError PUnit → Guest → Prop
  | .ok _ => Cleaned before
  | .error _ => Tracks before

theorem cleanup_intact (fuel : ℕ) :
    Triple (Intact before) (cleanup fuel) (fun _ => Cleaned before) (Fails before) := by
  have hinner : Triple (Intact before) (attempt Stop.error? (cleanupInner fuel))
      (fun result g => AfterCleanup before result g) (Fails before) := by
    refine Triple.attempt (cleanupInner_intact fuel) ?_ ?_
    · intro reason error _ g hg
      exact hg.tracks
    · intro reason hnone g hg
      refine ⟨hg, ?_⟩
      intro error herror
      rw [herror] at hnone
      cases hnone
  unfold cleanup
  refine Triple.bind hinner ?_
  intro result
  cases result with
  | ok _ =>
    apply Triple.update
    intro g hg
    obtain ⟨⟨⟨more, htracked⟩, hcertain⟩, hclean⟩ := hg
    exact ⟨⟨⟨_, htracked.record (fun h => by cases h) (fun h => by cases h)⟩, hcertain⟩, hclean⟩
  | error error =>
    have hrecord : Triple (θ := Answer) (Tracks before) (update (record (.cleaned false)))
        (fun _ g => ∃ g₀, Tracks before g₀ ∧ g = record (.cleaned false) g₀) (Fails before) :=
      Triple.update fun g hg => ⟨g, hg, rfl⟩
    refine Triple.bind hrecord ?_
    intro _
    have hflag : Triple (θ := Answer)
        (fun g => ∃ g₀, Tracks before g₀ ∧ g = record (.cleaned false) g₀) (update uncertain)
        (fun _ g => Tracks before g ∧ g.runtime.failed = true) (Fails before) := by
      apply Triple.update
      intro g hg
      obtain ⟨g₀, ⟨more, htracked⟩, rfl⟩ := hg
      exact ⟨⟨_, htracked.uncertain⟩, rfl⟩
    refine Triple.bind hflag ?_
    intro _
    apply Triple.throw
    intro g hg
    exact ⟨⟨hg.1, (fun h => by cases h), fun _ => ⟨error, rfl⟩⟩, fun _ _ => hg.2⟩

theorem watchTree_intact (fuel : ℕ) :
    Triple (Intact before) (watchTree fuel) (fun _ => Intact before) (Halts before) := by
  have hcleanup : Triple (Intact before) (cleanup fuel) (fun _ => Intact before)
      (Halts before) :=
    (cleanup_intact fuel).consequence (fun _ hg => hg) (fun _ _ hg => hg.intact)
      fun _ _ hg => hg.halts
  unfold watchTree
  apply Triple.view_bind
  intro g hg
  refine Triple.at_state ?_ hg
  apply Triple.ite
  · intro _
    refine Triple.seq (rootExited_intact fuel) ?_
    intro hasExited
    apply Triple.ite
    · intro _
      exact Triple.seq closeStdin_intact fun _ => hcleanup
    · intro _
      exact Triple.pure fun _ hs => hs
  · intro _
    exact Triple.pure fun _ hs => hs

theorem moveBytes_intact (fuel : ℕ) :
    Triple (Intact before) (moveBytes serde version fuel)
      (Turn (Intact before) fun _ => Intact before) (Halts before) := by
  unfold moveBytes
  refine Triple.seq (flush_intact fuel) ?_
  intro _
  apply Triple.view_bind
  intro g hg
  refine Triple.at_state ?_ hg
  apply Triple.ite
  · intro _
    exact Triple.pure fun _ hs => hs
  · intro _
    refine Triple.seq writeStdin_intact ?_
    intro _
    refine Triple.seq fillEmpty_intact ?_
    intro _
    refine Triple.seq (call_intact _) ?_
    intro _
    exact Triple.pure fun _ hs => hs

theorem turn_intact (fuel : ℕ) :
    Triple (Intact before) (turn serde version fuel)
      (Turn (Intact before) fun _ => Intact before) (Halts before) := by
  have hrest : Triple (Intact before) (do
      watchTree fuel
      moveBytes serde version fuel) (Turn (Intact before) fun _ => Intact before)
      (Halts before) :=
    Triple.seq (watchTree_intact fuel) fun _ => moveBytes_intact fuel
  unfold turn
  refine Triple.seq (controlRead_intact fuel) ?_
  intro event
  cases event with
  | disconnected => exact Triple.pure fun _ hs => hs
  | cancel =>
    have hcleanup : Triple (Intact before) (cleanup fuel) (fun _ => Intact before)
        (Halts before) :=
      (cleanup_intact fuel).consequence (fun _ hg => hg) (fun _ _ hg => hg.intact)
        fun _ _ hg => hg.halts
    exact Triple.seq closeStdin_intact fun _ => Triple.seq hcleanup fun _ => hrest
  | pending => exact hrest

/-- The loop keeps track of the process tree, and it never panics. -/
theorem run_intact (fuel : ℕ) :
    Triple (Intact before) (run serde version fuel) (fun _ => Intact before) (Halts before) := by
  unfold run nonblocking
  refine Triple.seq (call_intact _) ?_
  intro _
  refine Triple.seq (call_intact _) ?_
  intro _
  refine Triple.seq (call_intact _) ?_
  intro _
  refine Triple.seq (call_intact _) ?_
  intro _
  exact Triple.repeatFor (turn_intact fuel) Intact.waiting fuel

end Trees

end Sower.Vm.GuestLoop
