import Sower.Vm.GuestContainment

/-!
# Sequences of connections

A connection is never taken for served while a cleanup has failed or a descendant
may be left, and behind a cleanup that has failed no later one starts a process.
The static variables carry what one connection leaves to the next.
-/

namespace Sower.Vm.GuestLoop

open Framing Stateful Protocol

section Connections

variable {before : List Happening} {g g' : Guest} {service : Service} {connection : Connection}

/-- The guest adopts orphans and has not spawned anything. -/
structure Ready (before : List Happening) (g : Guest) : Prop where
  history : g.runtime.history = before ++ [.adopting]
  certain : g.runtime.failed = false
  tree : g.tree = {}

theorem Ready.congr (h : Ready before g) (htree : g'.tree = g.tree)
    (hruntime : g'.runtime = g.runtime) : Ready before g' := by
  refine ⟨?_, ?_, ?_⟩
  · rw [hruntime, h.history]
  · rw [hruntime, h.certain]
  · rw [htree, h.tree]

/-- A stop that is no panic, of a guest that has not spawned anything. -/
structure Waiting (before : List Happening) (reason : Stop) (g : Guest) : Prop where
  ready : Ready before g
  unpanicked : reason ≠ .panicked

theorem Ready.stops (error : IoError) (g : Guest) (h : Ready before g) :
    Waiting before (.error error) g := ⟨h, fun hreason => nomatch hreason⟩

theorem Ready.waiting (g : Guest) (h : Ready before g) : Waiting before .waiting g :=
  ⟨h, fun hreason => nomatch hreason⟩

theorem readExact_ready (length : ℕ) :
    Triple (Ready before) (readExact length)
      (fun bytes g => Ready before g ∧ bytes.length = length) (Waiting before) := by
  unfold readExact
  apply Triple.ite
  · intro hzero
    exact Triple.pure fun g hg => ⟨hg, hzero.symm⟩
  · intro _
    have hread : ∀ g, Ready before g → Outcome
        (fun bytes g => Ready before g ∧ bytes.length = length) (Waiting before)
        (if g.incoming.length < length then
          ((.error (.error .unexpectedEof) : Except Stop (List UInt8)), { g with incoming := [] })
        else (.ok (g.incoming.take length), { g with incoming := g.incoming.drop length })).1
        (if g.incoming.length < length then
          ((.error (.error .unexpectedEof) : Except Stop (List UInt8)), { g with incoming := [] })
        else (.ok (g.incoming.take length), { g with incoming := g.incoming.drop length })).2 := by
      intro g hg
      by_cases hshort : g.incoming.length < length
      · rw [if_pos hshort]
        have hkept : Ready before { g with incoming := [] } := hg.congr rfl rfl
        exact hkept.stops _ _
      · rw [if_neg hshort]
        refine ⟨hg.congr rfl rfl, ?_⟩
        rw [List.length_take]
        omega
    apply Triple.ask
    · exact Ready.waiting
    · intro answer g hg
      cases answer with
      | failed => exact hg.stops _ g
      | moved n => exact hread g hg
      | interrupted => exact hread g hg
      | wouldBlock => exact hread g hg
      | brokenPipe => exact hread g hg
      | child root status => exact hread g hg
      | noneReady => exact hread g hg
      | noChildren => exact hread g hg
      | late => exact hread g hg

theorem readRequest_ready (serde : Serde) :
    Triple (Ready before) (readRequest serde) (fun _ => Ready before) (Waiting before) := by
  unfold readRequest
  refine Triple.bind (readExact_ready 5) ?_
  intro header
  cases hheader : header? header with
  | none =>
    apply Triple.throw
    intro g hg
    have hshort := header?_eq_none_iff.mp hheader
    omega
  | some fields =>
    obtain ⟨kind, length, rest⟩ := fields
    dsimp only
    refine Triple.strengthen ?_ fun g hg => hg.1
    apply Triple.ite
    · intro _
      exact Triple.pure fun _ hs => hs
    · intro _
      refine Triple.bind (readExact_ready length) ?_
      intro body
      exact Triple.pure fun g hg => hg.1

theorem sendMetadata_ready (serde : Serde) (message : GuestMessage) :
    Triple (Ready before) (sendMetadata serde message) (fun _ => Ready before)
      (Waiting before) := by
  unfold sendMetadata
  cases frame 1 (serde.toVec message.json) with
  | error message => exact Triple.throw fun g hg => hg.stops _ g
  | ok bytes =>
    dsimp only
    unfold writeAll
    apply Triple.ask
    · exact Ready.waiting
    · intro answer g hg
      cases answer with
      | moved n =>
        dsimp only
        by_cases hshort : n < bytes.length
        · rw [if_pos hshort]
          have hkept : Ready before { g with written := g.written ++ bytes.take n } :=
            hg.congr rfl rfl
          exact hkept.stops _ _
        · rw [if_neg hshort]
          exact hg.congr rfl rfl
      | interrupted => exact hg.stops _ g
      | wouldBlock => exact hg.stops _ g
      | brokenPipe => exact hg.stops _ g
      | failed => exact hg.stops _ g
      | child root status => exact hg.stops _ g
      | noneReady => exact hg.stops _ g
      | noChildren => exact hg.stops _ g
      | late => exact hg.stops _ g

/-- A process that has been spawned is tracked. -/
theorem Ready.spawned (h : Ready before g) (input : List UInt8)
    (stdout stderr : Option (List UInt8)) :
    Intact before (record .spawned { g with input := input, stdout := stdout, stderr := stderr }) := by
  refine ⟨⟨[], ?_, List.not_mem_nil, ?_, ?_, ?_⟩, h.certain⟩
  · change g.runtime.history ++ [Happening.spawned] = _
    rw [h.history]
    simp
  · intro hclean
    change g.tree.clean = true at hclean
    rw [h.tree] at hclean
    cases hclean
  · intro status hstatus
    change g.tree.status = some status at hstatus
    rw [h.tree] at hstatus
    cases hstatus
  · intro hmem
    cases hmem

theorem spawn_intact (command : Command) :
    Triple (Ready before) (spawn connection command) (fun _ => Intact before)
      (Waiting before) := by
  unfold spawn
  apply Triple.ask
  · exact Ready.waiting
  · intro answer g hg
    cases answer with
    | failed => exact hg.stops _ g
    | moved n => exact hg.spawned _ _ _
    | interrupted => exact hg.spawned _ _ _
    | wouldBlock => exact hg.spawned _ _ _
    | brokenPipe => exact hg.spawned _ _ _
    | child root status => exact hg.spawned _ _ _
    | noneReady => exact hg.spawned _ _ _
    | noChildren => exact hg.spawned _ _ _
    | late => exact hg.spawned _ _ _

/-- A command that is not run to its end was not spawned, or could not be cleaned up. -/
def Breaks (before : List Happening) (reason : Stop) (g : Guest) : Prop :=
  Waiting before reason g ∨ Fails before reason g

/-- Whatever the loop returns, a command is cleaned up behind it or the flag is set. -/
theorem runCommand_cleaned (version : Version) (command : Command) (fuel : ℕ) :
    Triple (Ready before) (runCommand service connection version command fuel)
      (fun _ => Cleaned before) (Breaks before) := by
  have hrun : Triple (Intact before) (attempt Stop.error? (run service.serde version fuel))
      (fun result g => match result with
        | .ok _ => Intact before g
        | .error error => Halts before (.error error) g) (Fails before) := by
    refine Triple.attempt (run_intact fuel) ?_ ?_
    · intro reason error hcatches g hg
      cases reason with
      | waiting => cases hcatches
      | error reason =>
        cases hcatches
        exact hg
      | panicked => cases hcatches
    · intro reason hnone g hg
      refine ⟨hg, ?_⟩
      intro error herror
      rw [herror] at hnone
      cases hnone
  have hcleanup : Triple (Intact before) (cleanup fuel) (fun _ => Cleaned before)
      (Breaks before) :=
    (cleanup_intact fuel).consequence (fun _ hg => hg) (fun _ _ hg => hg) fun _ _ hg => Or.inr hg
  unfold runCommand
  refine Triple.bind ((spawn_intact command).consequence (fun _ hg => hg) (fun _ _ hg => hg)
    fun _ _ hg => Or.inl hg) ?_
  intro _
  refine Triple.bind (hrun.consequence (fun _ hg => hg) (fun _ _ hg => hg)
    fun _ _ hg => Or.inr hg) ?_
  intro result
  apply Triple.view_bind
  intro g hg
  cases result with
  | ok ending =>
    apply Triple.ite
    · intro hfailed
      rw [Intact.certain hg] at hfailed
      cases hfailed
    · intro _
      exact Triple.at_state hcleanup hg
  | error error =>
    have hhalts : Halts before (.error error) g := hg
    apply Triple.ite
    · intro hfailed
      apply Triple.throw
      intro s hs
      rw [hs]
      exact Or.inr ⟨hhalts, fun _ _ => hfailed⟩
    · intro hcertain
      have hintact : Intact before g := ⟨hhalts.tracks, by simpa using hcertain⟩
      exact Triple.at_state hcleanup hintact

/-- A connection that is not served to its end has set the flag, or is still served. -/
structure Aborts (before : List Happening) (reason : Stop) (g : Guest) : Prop where
  unpanicked : reason ≠ .panicked
  failed : ∀ error, reason = .error error → g.runtime.failed = true
  history : g.runtime.history = before ∨
    ∃ events, g.runtime.history = before ++ .adopting :: events

theorem Breaks.aborts {reason : Stop} (h : Breaks before reason g)
    (hfailed : ∀ error, reason = .error error → g.runtime.failed = true) :
    Aborts before reason g := by
  rcases h with hwaiting | hfails
  · exact ⟨hwaiting.unpanicked, hfailed, Or.inr ⟨[], hwaiting.ready.history⟩⟩
  · obtain ⟨more, htracked⟩ := hfails.halts.tracks
    exact ⟨hfails.halts.unpanicked, hfailed, Or.inr ⟨_, htracked.history⟩⟩

/-- What is not caught is no error. -/
theorem Breaks.uncaught {reason : Stop} (h : Breaks before reason g)
    (hnone : Stop.error? reason = none) : Aborts before reason g := by
  apply h.aborts
  intro error herror
  rw [herror] at hnone
  cases hnone

/-- A request was answered by running its command, or was not, or the flag is set. -/
def Executed (before : List Happening) (result : Except IoError PUnit) (g : Guest) : Prop :=
  match result with
  | .ok _ => Cleaned before g
  | .error error => Breaks before (.error error) g

theorem execute_executed (fuel : ℕ) :
    Triple (Ready before) (execute service connection fuel)
      (fun result => Executed before result.2) (Aborts before) := by
  have hrequest : Triple (Ready before) (attempt Stop.error? (readRequest service.serde))
      (fun _ => Ready before) (Aborts before) := by
    refine Triple.attempt (readRequest_ready service.serde) ?_ ?_
    · intro reason error _ g hg
      exact hg.ready
    · intro reason hnone g hg
      exact Breaks.uncaught (Or.inl hg) hnone
  unfold execute
  refine Triple.bind hrequest ?_
  intro request
  match request with
  | .error error => exact Triple.pure fun g hg => Or.inl (hg.stops _ g)
  | .ok (version, .error error) => exact Triple.pure fun g hg => Or.inl (hg.stops _ g)
  | .ok (version, .ok command) =>
    have hcommand : Triple (Ready before)
        (attempt Stop.error? (runCommand service connection version command fuel))
        (Executed before) (Aborts before) := by
      refine Triple.attempt (runCommand_cleaned version command fuel) ?_ ?_
      · intro reason error hcatches g hg
        cases reason with
        | waiting => cases hcatches
        | error reason =>
          cases hcatches
          exact hg
        | panicked => cases hcatches
      · intro reason hnone g hg
        exact hg.uncaught hnone
    refine Triple.bind hcommand ?_
    intro result
    exact Triple.pure fun _ hs => hs

/-- A connection that was served: nothing was spawned, or the tree is clean. -/
def Finished (before : List Happening) (g : Guest) : Prop := Ready before g ∨ Cleaned before g

theorem answer_finished (version : Version) (result : Except IoError PUnit) :
    Triple (Executed before result) (answer service version result) (fun _ => Finished before)
      (Aborts before) := by
  unfold answer
  apply Triple.view_bind
  intro g hg
  cases result with
  | ok _ =>
    have hcleaned : Cleaned before g := hg
    apply Triple.ite
    · intro hfailed
      rw [hcleaned.intact.certain] at hfailed
      cases hfailed
    · intro _
      exact Triple.at_state (Triple.pure fun _ hs => Or.inr hs) hcleaned
  | error error =>
    have hbreaks : Breaks before (.error error) g := hg
    apply Triple.ite
    · intro hfailed
      apply Triple.throw
      intro s hs
      rw [hs]
      exact hbreaks.aborts fun _ _ => hfailed
    · intro hcertain
      have hready : Ready before g := by
        rcases hbreaks with hwaiting | hfails
        · exact hwaiting.ready
        · exact absurd (hfails.failed error rfl) hcertain
      have hsend : Triple (Ready before) (attempt Stop.error? (sendMetadata service.serde
          (.error version (service.message error)))) (fun _ => Ready before) (Aborts before) := by
        refine Triple.attempt (sendMetadata_ready service.serde _) ?_ ?_
        · intro reason error _ g hg
          exact hg.ready
        · intro reason hnone g hg
          exact Breaks.uncaught (Or.inl hg) hnone
      refine Triple.at_state ?_ hready
      refine Triple.seq hsend ?_
      intro _
      exact Triple.pure fun _ hs => Or.inl hs

/-- The guest that has accepted a connection while no cleanup has failed. -/
structure Accepted (before : List Happening) (g : Guest) : Prop where
  history : g.runtime.history = before
  certain : g.runtime.failed = false
  tree : g.tree = {}

theorem adopt_ready :
    Triple (Accepted before) adopt (fun _ => Ready before) (Aborts before) := by
  have hadopted : ∀ g, Accepted before g → Ready before (record .adopting g) := by
    intro g hg
    refine ⟨?_, hg.certain, hg.tree⟩
    change g.runtime.history ++ [Happening.adopting] = _
    rw [hg.history]
  unfold adopt
  apply Triple.ask
  · intro g hg
    exact ⟨(fun h => nomatch h), (fun _ h => nomatch h), Or.inl hg.history⟩
  · intro answer g hg
    cases answer with
    | failed => exact ⟨(fun h => nomatch h), fun _ _ => rfl, Or.inl hg.history⟩
    | moved n => exact hadopted g hg
    | interrupted => exact hadopted g hg
    | wouldBlock => exact hadopted g hg
    | brokenPipe => exact hadopted g hg
    | child root status => exact hadopted g hg
    | noneReady => exact hadopted g hg
    | noChildren => exact hadopted g hg
    | late => exact hadopted g hg

theorem serveLocked_finished (service : Service) (connection : Connection) (fuel : ℕ) :
    Triple (Accepted before) (serveLocked service connection fuel) (fun _ => Finished before)
      (Aborts before) := by
  have hsend : Triple (Ready before) (attempt Stop.error? (sendMetadata service.serde .ready))
      (fun _ => Ready before) (Aborts before) := by
    refine Triple.attempt (sendMetadata_ready service.serde _) ?_ ?_
    · intro reason error _ g hg
      exact hg.ready
    · intro reason hnone g hg
      exact Breaks.uncaught (Or.inl hg) hnone
  unfold serveLocked
  apply Triple.view_bind
  intro g hg
  apply Triple.ite
  · intro hfailed
    rw [hg.certain] at hfailed
    cases hfailed
  · intro _
    refine Triple.at_state ?_ hg
    refine Triple.bind adopt_ready ?_
    intro _
    refine Triple.bind hsend ?_
    intro sent
    cases sent with
    | error _ => exact Triple.pure fun _ hs => Or.inl hs
    | ok _ =>
      refine Triple.bind (execute_executed fuel) ?_
      intro result
      exact answer_finished result.1 result.2

end Connections

section Runs

variable {service : Service} {statics : Statics}

/-- What the static variables say of the history. -/
structure Statics.Sound (statics : Statics) : Prop where
  unpoisoned : statics.poisoned = false
  spawns : SpawnsAdopted false statics.runtime.history
  cleaned : Happening.cleaned false ∈ statics.runtime.history → statics.runtime.failed = true
  certified : statics.runtime.failed = false → Certified statics.runtime.history

/-- Where a cleanup has failed nothing is done any more. -/
theorem serve_refused (fuel : ℕ) (connection : Connection) (answers : List Answer)
    (hsound : statics.Sound) (hfailed : statics.runtime.failed = true) :
    service.serve fuel statics connection answers =
      (.error (.error .previouslyFailed), connection.accepted statics.runtime) := by
  have hrun : (serveConnection service connection statics.poisoned fuel).exec
      (answers, connection.accepted statics.runtime) =
      (.error (.error .previouslyFailed), answers, connection.accepted statics.runtime) := by
    have hguest : (connection.accepted statics.runtime).runtime.failed = true := hfailed
    unfold serveConnection serveLocked
    rw [hsound.unpoisoned, if_neg Bool.false_ne_true, exec_bind]
    change (if (connection.accepted statics.runtime).runtime.failed = true then _ else _ :
      Sys PUnit).exec _ = _
    rw [if_pos hguest]
    rfl
  unfold Service.serve
  rw [hrun]

/-- What holds at the end of a connection. -/
structure Served (before : List Happening) (result : Except Stop PUnit) (g : Guest) : Prop where
  finished : result = .ok ⟨⟩ → Finished before g
  aborts : ∀ reason, result = .error reason → Aborts before reason g

theorem serve_served (service : Service) (fuel : ℕ) (connection : Connection) (answers : List Answer)
    (hsound : statics.Sound) (hcertain : statics.runtime.failed = false) :
    Served statics.runtime.history (service.serve fuel statics connection answers).1
      (service.serve fuel statics connection answers).2 := by
  have haccepted : Accepted statics.runtime.history (connection.accepted statics.runtime) :=
    ⟨rfl, hcertain, rfl⟩
  have hend := serveLocked_finished service connection fuel answers _ haccepted
  unfold Service.serve serveConnection
  rw [hsound.unpoisoned, if_neg Bool.false_ne_true]
  revert hend
  generalize (serveLocked service connection fuel).exec
    (answers, connection.accepted statics.runtime) = ending
  obtain ⟨outcome, answers', g⟩ := ending
  cases outcome with
  | ok value =>
    intro hfinished
    exact ⟨fun _ => hfinished, fun reason h => nomatch h⟩
  | error reason =>
    intro haborts
    refine ⟨(fun h => nomatch h), ?_⟩
    intro reason' hreason
    cases hreason
    exact haborts

theorem Statics.Sound.not_cleaned (h : statics.Sound) (hcertain : statics.runtime.failed = false) :
    Happening.cleaned false ∉ statics.runtime.history := by
  intro hmem
  rw [h.cleaned hmem] at hcertain
  cases hcertain

variable {before : List Happening} {g : Guest}

/-- Behind a connection that was served the system has certified that nothing is left. -/
theorem Finished.certified (h : Finished before g) (hbefore : Certified before) :
    Certified g.runtime.history := by
  rcases h with hready | hcleaned
  · rw [hready.history]
    exact hbefore.append (by decide)
  · obtain ⟨more, htracked⟩ := hcleaned.intact.tracks
    have hwaited := (htracked.clean hcleaned.clean).2
    have hhistory : g.runtime.history = (before ++ [.adopting, .spawned]) ++ more := by
      rw [htracked.history]
      simp
    rw [hhistory]
    exact certified_of_waited _ hwaited htracked.unspawned

theorem Finished.certain (h : Finished before g) : g.runtime.failed = false := by
  rcases h with hready | hcleaned
  · exact hready.certain
  · exact hcleaned.intact.certain

/-- The events of a connection that was served. -/
theorem Finished.events (h : Finished before g) : ∃ events,
    g.runtime.history = before ++ .adopting :: events ∧ Happening.cleaned false ∉ events ∧
      (Happening.spawned ∉ events ∨
        ∃ status, g.tree.status = some status ∧ Reported events status) := by
  rcases h with hready | hcleaned
  · exact ⟨[], hready.history, List.not_mem_nil, Or.inl List.not_mem_nil⟩
  · obtain ⟨more, htracked⟩ := hcleaned.intact.tracks
    refine ⟨.spawned :: more, htracked.history, ?_, Or.inr ?_⟩
    · intro hmem
      rcases List.mem_cons.mp hmem with heq | hmem
      · cases heq
      · have hfailed := htracked.failed hmem
        rw [hcleaned.intact.certain] at hfailed
        cases hfailed
    · obtain ⟨status, hstatus⟩ := Option.isSome_iff_exists.mp (htracked.clean hcleaned.clean).1
      exact ⟨status, hstatus, (htracked.status status hstatus).append_front [.spawned]⟩

/-- One connection keeps what the static variables say of the history. -/
theorem Statics.Sound.after (h : statics.Sound) (fuel : ℕ) (connection : Connection)
    (answers : List Answer) {result : Except Stop PUnit} {g : Guest}
    (hending : service.serve fuel statics connection answers = (result, g))
    (hreturned : result ≠ .error .waiting) : (statics.after result g).Sound := by
  cases hflag : statics.runtime.failed with
  | true =>
    rw [serve_refused fuel connection answers h hflag] at hending
    cases hending
    refine ⟨?_, h.spawns, h.cleaned, h.certified⟩
    unfold Statics.after
    rw [h.unpoisoned]
    rfl
  | false =>
    have hserved := serve_served service fuel connection answers h hflag
    rw [hending] at hserved
    have hadopted : ∀ events, g.runtime.history = statics.runtime.history ++ .adopting :: events →
        SpawnsAdopted false g.runtime.history := by
      intro events hevents
      rw [hevents]
      exact h.spawns.adopting events
    match result with
    | .ok ⟨⟩ =>
      have hfinished := hserved.finished rfl
      obtain ⟨events, hevents, hcleaned, -⟩ := hfinished.events
      refine ⟨?_, hadopted events hevents, ?_, fun _ => hfinished.certified (h.certified hflag)⟩
      · unfold Statics.after
        rw [h.unpoisoned]
        rfl
      · intro hmem
        change Happening.cleaned false ∈ g.runtime.history at hmem
        rw [hevents] at hmem
        rcases List.mem_append.mp hmem with hmem | hmem
        · exact absurd hmem (h.not_cleaned hflag)
        · rcases List.mem_cons.mp hmem with heq | hmem
          · cases heq
          · exact absurd hmem hcleaned
    | .error .waiting => exact absurd rfl hreturned
    | .error .panicked => exact absurd rfl (hserved.aborts .panicked rfl).unpanicked
    | .error (.error error) =>
      have haborts := hserved.aborts (.error error) rfl
      have hfailed : g.runtime.failed = true := haborts.failed error rfl
      refine ⟨?_, ?_, fun _ => hfailed, ?_⟩
      · unfold Statics.after
        rw [h.unpoisoned]
        rfl
      · change SpawnsAdopted false g.runtime.history
        rcases haborts.history with hsame | ⟨events, hevents⟩
        · rw [hsame]
          exact h.spawns
        · exact hadopted events hevents
      · intro hcertain
        change g.runtime.failed = false at hcertain
        rw [hfailed] at hcertain
        cases hcertain

/-- Between connections the static variables are right about the history. -/
theorem Service.Idle.sound (h : service.Idle statics) : statics.Sound := by
  induction h with
  | start => exact ⟨rfl, trivial, (fun hmem => nomatch hmem), fun _ => certified_nil⟩
  | served before fuel connection answers ending returned ih =>
    exact ih.after fuel connection answers ending returned

/-- What a connection says of the commands so far. -/
structure Contained (before : List Happening) (result : Except Stop PUnit) (g : Guest) : Prop where
  /-- The status is there when the exit is framed, and the lock is never poisoned. -/
  unpanicked : result ≠ .error .panicked
  /-- Success is reported only where no cleanup has ever failed. -/
  certain : result = .ok ⟨⟩ → Happening.cleaned false ∉ g.runtime.history
  /-- Then no descendant is left, whatever the descendants have done. -/
  reaped : result = .ok ⟨⟩ → ∀ k, Follows {} g.runtime.history k → k.descendants = []
  /-- And nothing was spawned, or it is known how the root process ended. -/
  known : result = .ok ⟨⟩ → ∃ events, g.runtime.history = before ++ events ∧
    (Happening.spawned ∉ events ∨ ∃ status, g.tree.status = some status ∧ Reported events status)
  /-- After a failure of a cleanup nothing is done. -/
  refused : Happening.cleaned false ∈ before →
    (∃ error, result = .error (.error error)) ∧ g.runtime.history = before

/-- After every sequence of connections, and however far the next one gets: the guest takes it
for served only if no cleanup has ever failed, no descendant of a command is left and the
status of a command that was spawned is known. After a failure to clean up, every connection
is refused before anything is done. -/
theorem serve_contained (h : service.Idle statics) (fuel : ℕ) (connection : Connection)
    (answers : List Answer) :
    Contained statics.runtime.history (service.serve fuel statics connection answers).1
      (service.serve fuel statics connection answers).2 := by
  have hsound := h.sound
  cases hflag : statics.runtime.failed with
  | true =>
    rw [serve_refused fuel connection answers hsound hflag]
    exact ⟨(fun h => nomatch h), (fun h => nomatch h), (fun h => nomatch h), (fun h => nomatch h),
      fun _ => ⟨⟨_, rfl⟩, rfl⟩⟩
  | false =>
    have hserved := serve_served service fuel connection answers hsound hflag
    have hbefore := hsound.not_cleaned hflag
    constructor
    · intro hpanicked
      exact (hserved.aborts .panicked hpanicked).unpanicked rfl
    · intro hok hmem
      obtain ⟨events, hevents, hcleaned, -⟩ := (hserved.finished hok).events
      rw [hevents] at hmem
      rcases List.mem_append.mp hmem with hmem | hmem
      · exact hbefore hmem
      · rcases List.mem_cons.mp hmem with heq | hmem
        · cases heq
        · exact hcleaned hmem
    · intro hok k hrun
      have hfinished := hserved.finished hok
      have hspawns : SpawnsAdopted false
          (service.serve fuel statics connection answers).2.runtime.history := by
        obtain ⟨events, hevents, -⟩ := hfinished.events
        rw [hevents]
        exact hsound.spawns.adopting events
      exact (hfinished.certified (hsound.certified hflag)).descendants hspawns hrun
    · intro hok
      obtain ⟨events, hevents, -, hknown⟩ := (hserved.finished hok).events
      refine ⟨.adopting :: events, hevents, ?_⟩
      rcases hknown with hspawned | ⟨status, hstatus, hreported⟩
      · left
        intro hmem
        rcases List.mem_cons.mp hmem with heq | hmem
        · cases heq
        · exact hspawned hmem
      · exact Or.inr ⟨status, hstatus, hreported.append_front [.adopting]⟩
    · intro hmem
      exact absurd hmem hbefore

/-- A JSON library that reads one request from every body. -/
def oneRequest : Service where
  serde :=
    { toVec := fun _ => []
      fromSlice := fun _ => some (.object [("type", .string "execute"), ("version", .int 2),
        ("path", .string "/bin/true"), ("args", .array []), ("env", .object []),
        ("stdin", .null)]) }
  describe := fun _ => ""

def emptyBody : Connection := ⟨[1, 0, 0, 0, 0], fun _ => []⟩

/-- The host disconnects, and the process is killed and reaped. -/
def killed : List Answer :=
  [.noneReady, .moved 5, .moved 5, .noneReady, .noneReady, .noneReady, .noneReady, .noneReady,
    .moved 1, .noneReady, .noneReady, .noneReady, .child true (.code 0), .noneReady, .noChildren]

/-- A run of the system along a connection with one process. -/
theorem follows_killed : ∃ k, Follows {} [.adopting, .spawned,
    .waited .any (.child true (.code 0)), .waited .any .noChildren, .cleaned true] k := by
  have hchild : Happens ⟨true, [⟨0, .reaper, some (.code 0)⟩], 0⟩
      (.waited .any (.child true (.code 0))) ⟨true, [], 0⟩ :=
    Happens.child (z := ⟨0, .reaper, some (.code 0)⟩) List.mem_cons_self rfl rfl fun _ => rfl
  refine ⟨⟨true, [], 0⟩, ?_⟩
  refine Follows.happen Happens.adopting ?_
  refine Follows.happen (@Happens.spawned _ 0 (fun _ h => nomatch h)) ?_
  refine Follows.descend (@ProcessTree.Step.exit _ _ _ 0 .reaper (.code 0)
    (fun _ h => nomatch h) (fun h => nomatch h)) ?_
  refine Follows.happen hchild ?_
  refine Follows.happen (Happens.noChildren fun _ _ h => nomatch h) ?_
  exact Follows.happen (Happens.cleaned true) (Follows.done _)

theorem contained_killed : ∃ g, oneRequest.serve 5 {} emptyBody killed = (.ok ⟨⟩, g) ∧
    (∃ k, Follows {} g.runtime.history k) ∧
    Contained g.runtime.history (oneRequest.serve 5 ⟨false, g.runtime⟩ emptyBody killed).1
      (oneRequest.serve 5 ⟨false, g.runtime⟩ emptyBody killed).2 := by
  refine ⟨(oneRequest.serve 5 {} emptyBody killed).2, rfl, follows_killed, ?_⟩
  have hending : oneRequest.serve 5 {} emptyBody killed =
      (.ok ⟨⟩, (oneRequest.serve 5 {} emptyBody killed).2) := rfl
  exact serve_contained (Service.Idle.served Service.Idle.start 5 emptyBody killed hending nofun)
    5 emptyBody killed

end Runs

end Sower.Vm.GuestLoop
