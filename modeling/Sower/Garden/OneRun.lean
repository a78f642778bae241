import Mathlib.Data.List.Perm.Basic
import Mathlib.Data.List.Nodup
import Sower.Garden.Socket

/-!
# One run for each deployment

While the process is not lost with work in progress, each deployment is in one
place only: waiting to be started, running, or waiting to be reported. From
this a deployment never has two tasks, and every finished task is reported
once. A handler that insists on a push without a joined topic loses the
process, and with it the knowledge of what is running.
-/

namespace Sower.Garden.Socket

open Sower.Wire

section Places

/-- Outcome a message reports to the process. -/
def Message.outcome? : Message → Option Outcome
  | .deploymentCompleted outcome => some outcome
  | _ => none

/-- Deployment a message keeps in progress. -/
def Message.sid? : Message → Option Sid
  | .runDeployment sid => some sid
  | .deploymentCompleted outcome => some outcome.sid
  | .incoming _ => none

/-- Outcome a push reports to the server. -/
def Push.outcome? : Push → Option Outcome
  | .result report => some report.outcome
  | _ => none

/-- Outcomes waiting in the mailbox. -/
def World.pending (world : World) : List Outcome := world.process.mailbox.filterMap Message.outcome?

/-- Outcomes that were reported to the server. -/
def World.reported (world : World) : List Outcome := world.pushed.filterMap Push.outcome?

/-- Deployments in progress, once for each task and each message about one. -/
def World.places (world : World) : List Sid :=
  world.running.map Run.sid ++ world.process.mailbox.filterMap Message.sid?

/-- Numbers of all tasks, running and finished. -/
def World.runIds (world : World) : List RunId :=
  world.running.map Run.id ++ world.finished.map Outcome.run

/-- At most one task runs each deployment. -/
def OneRun (world : World) : Prop := (world.running.map Run.sid).Nodup

/-- For each finished task there is exactly one report, made or about to be
made, and it carries the task's result. -/
def ReportedOnce (world : World) : Prop :=
  ∀ outcome ∈ world.finished,
    (world.reported ++ world.pending).filter (fun other => other.run = outcome.run) = [outcome]

end Places

section Guard

/-- The handler of the message gets to a push. -/
def World.pushes (world : World) (reading : Reading) : Message → Bool
  | .incoming (.request request) => ¬ (request = .reportSeeds ∧ reading.profilesFound = false)
  | .incoming _ => false
  | .runDeployment sid => (lookupDeployment sid world.process.activeDeployments).isSome
  | .deploymentCompleted outcome =>
    (lookupDeployment outcome.sid world.process.activeDeployments).isSome

/-- No task is running and none waits to be reported. -/
def World.idle (world : World) : Bool := world.running.isEmpty && world.pending.isEmpty

/-- A push of the next handler finds the private topic joined, or nothing is in
progress. -/
def World.guarded (world : World) : Event → Bool
  | .handle reading =>
    match world.process.mailbox with
    | [] => true
    | message :: _ => !world.pushes reading message || world.process.joined || world.idle
  | _ => true

/-- Every step of the run is guarded. -/
def GuardedRun : World → List Event → Bool
  | _, [] => true
  | world, event :: rest => world.guarded event && GuardedRun (world.step event) rest

end Guard

section Invariant

/-- What holds between two steps. -/
structure Inv (world : World) : Prop where
  /-- A deployment is in one place only. -/
  onePlace : world.places.Nodup
  /-- The process knows every deployment in progress. -/
  inFlight : ∀ sid ∈ world.places, sid ∈ world.process.activeDeployments.map Deployment.sid
  /-- Finished tasks are those reported and those about to be. -/
  accounted : world.finished.Perm (world.reported ++ world.pending)
  /-- No number is given to two tasks. -/
  numbered : world.runIds.Nodup
  fresh : ∀ id ∈ world.runIds, id < world.nextRun

theorem inv_start : Inv {} where
  onePlace := List.nodup_nil
  inFlight := by simp [World.places]
  accounted := List.Perm.refl _
  numbered := List.nodup_nil
  fresh := by simp [World.runIds]

theorem Inv.oneRun {world : World} (h : Inv world) : OneRun world :=
  (List.nodup_append.mp h.onePlace).1

theorem Inv.reportedOnce {world : World} (h : Inv world) : ReportedOnce world := by
  intro outcome houtcome
  have hperm := (h.accounted.filter fun other => other.run = outcome.run).symm
  have hnodup : (world.finished.map Outcome.run).Nodup := (List.nodup_append.mp h.numbered).2.1
  have hone : world.finished.filter (fun other => other.run = outcome.run) = [outcome] := by
    have hmem : ∀ other ∈ world.finished, other.run = outcome.run → other = outcome :=
      fun other hother hrun => List.inj_on_of_nodup_map hnodup hother houtcome hrun
    have hsub : ∀ other ∈ world.finished.filter (fun other => other.run = outcome.run),
        other = outcome := by
      intro other hother
      obtain ⟨hother, hrun⟩ := List.mem_filter.mp hother
      exact hmem other hother (by simpa using hrun)
    have hlist := List.eq_replicate_of_mem hsub
    have hcount : (world.finished.filter fun other => other.run = outcome.run).length = 1 := by
      have hle := (hnodup.of_map.filter (fun other => decide (other.run = outcome.run)))
      rw [hlist, List.nodup_replicate] at hle
      have hpos : outcome ∈ world.finished.filter fun other => other.run = outcome.run := by
        simp [houtcome]
      have := List.length_pos_of_mem hpos
      omega
    rw [hlist, hcount]
    rfl
  rw [hone] at hperm
  exact List.perm_singleton.mp hperm

theorem lookupDeployment_isSome {sid : Sid} {activeDeployments : List Deployment} :
    (lookupDeployment sid activeDeployments).isSome = true ↔
      sid ∈ activeDeployments.map Deployment.sid := by
  simp [lookupDeployment]

theorem lookupDeployment_sid {sid : Sid} {activeDeployments : List Deployment}
    {deployment : Deployment} (h : lookupDeployment sid activeDeployments = some deployment) :
    deployment.sid = sid := by
  simpa using List.find?_some h

end Invariant

section Steps

/-- Two worlds with the same deployments in progress and the same outcomes. -/
structure SameWork (world world' : World) : Prop where
  running : world'.running = world.running
  finished : world'.finished = world.finished
  nextRun : world'.nextRun = world.nextRun
  active : world'.process.activeDeployments = world.process.activeDeployments
  places : world'.places = world.places
  reported : world'.reported = world.reported
  pending : world'.pending = world.pending

theorem SameWork.inv {world world' : World} (h : SameWork world world') (hinv : Inv world) :
    Inv world' := by
  have hids : world'.runIds = world.runIds := by
    unfold World.runIds
    rw [h.running, h.finished]
  refine ⟨?_, ?_, ?_, ?_, ?_⟩
  · rw [h.places]
    exact hinv.onePlace
  · rw [h.places, h.active]
    exact hinv.inFlight
  · rw [h.finished, h.reported, h.pending]
    exact hinv.accounted
  · rw [hids]
    exact hinv.numbered
  · rw [hids, h.nextRun]
    exact hinv.fresh

/-- Messages from outside do not change what is in progress by themselves. -/
theorem sameWork_send (world : World) (event : Incoming) :
    SameWork world (world.send (.incoming event)) where
  running := rfl
  finished := rfl
  nextRun := rfl
  active := rfl
  places := by simp [World.places, World.send, Message.sid?]
  reported := rfl
  pending := by simp [World.pending, World.send, Message.outcome?]

/-- The first message taken out of the mailbox. -/
def World.take (world : World) (rest : List Message) : World :=
  { world with process := { world.process with mailbox := rest } }

theorem sameWork_take {world : World} {event : Incoming} {rest : List Message}
    (h : world.process.mailbox = .incoming event :: rest) : SameWork world (world.take rest) where
  running := rfl
  finished := rfl
  nextRun := rfl
  active := rfl
  places := by simp [World.places, World.take, h, List.filterMap_cons, Message.sid?]
  reported := rfl
  pending := by simp [World.pending, World.take, h, List.filterMap_cons, Message.outcome?]

theorem SameWork.trans {a b c : World} (hab : SameWork a b) (hbc : SameWork b c) :
    SameWork a c where
  running := hbc.running.trans hab.running
  finished := hbc.finished.trans hab.finished
  nextRun := hbc.nextRun.trans hab.nextRun
  active := hbc.active.trans hab.active
  places := hbc.places.trans hab.places
  reported := hbc.reported.trans hab.reported
  pending := hbc.pending.trans hab.pending

/-- A push that succeeds was made on a joined topic and is logged. -/
theorem pushMessage_eq_some {world world' : World} {push : Push} :
    pushMessage world push = some world' ↔
      world.process.joined = true ∧ world' = { world with pushed := world.pushed ++ [push] } := by
  unfold pushMessage
  split
  · rename_i hjoined
    simp [hjoined, eq_comm]
  · rename_i hjoined
    simp [hjoined]

/-- A new deployment is put in progress, waiting to be started. -/
theorem enqueue_inv {world : World} {deployment : Deployment} (hinv : Inv world)
    (hnew : lookupDeployment deployment.sid world.process.activeDeployments = none) :
    Inv { world.send (.runDeployment deployment.sid) with
      process := { (world.send (.runDeployment deployment.sid)).process with
        activeDeployments := world.process.activeDeployments ++ [deployment] } } := by
  have habsent : deployment.sid ∉ world.places := by
    intro hmem
    have hactive := lookupDeployment_isSome.mpr (hinv.inFlight _ hmem)
    rw [hnew] at hactive
    cases hactive
  have hnodup : (world.places ++ [deployment.sid]).Nodup := by
    refine List.nodup_append.mpr ⟨hinv.onePlace, List.nodup_singleton _, ?_⟩
    intro a ha b hb hab
    rw [hab, List.mem_singleton.mp hb] at ha
    exact habsent ha
  refine ⟨?_, ?_, ?_, hinv.numbered, hinv.fresh⟩
  · simpa [World.places, World.send, Message.sid?] using hnodup
  · intro sid hsid
    have hmem : sid ∈ world.places ++ [deployment.sid] := by
      simpa [World.places, World.send, Message.sid?] using hsid
    change sid ∈ (world.process.activeDeployments ++ [deployment]).map Deployment.sid
    rw [List.map_append, List.mem_append]
    rcases List.mem_append.mp hmem with hold | hlast
    · exact Or.inl (hinv.inFlight sid hold)
    · exact Or.inr hlast
  · simpa [World.reported, World.pending, World.send, List.filterMap_cons,
      Message.outcome?] using hinv.accounted

/-- Incoming messages put at most a new deployment in progress. -/
theorem handleIncoming_inv {world world' : World} {reading : Reading} {event : Incoming}
    (hinv : Inv world) (h : handleIncoming world reading event = some world') : Inv world' := by
  cases event with
  | lobbyJoined =>
    cases h
    have hsame : SameWork world
        { world with process := { world.process with identified := true } } :=
      ⟨rfl, rfl, rfl, rfl, rfl, rfl, rfl⟩
    exact hsame.inv hinv
  | privateJoined =>
    cases h
    have hjoined : SameWork world
        { world with process := { world.process with joined := true } } :=
      ⟨rfl, rfl, rfl, rfl, rfl, rfl, rfl⟩
    refine SameWork.inv (hjoined.trans ?_) hinv
    exact ((sameWork_send _ _).trans (sameWork_send _ _)).trans (sameWork_send _ _)
  | disconnected =>
    cases h
    have hsame : SameWork world
        { world with process := { world.process with joined := false } } :=
      ⟨rfl, rfl, rfl, rfl, rfl, rfl, rfl⟩
    exact hsame.inv hinv
  | request request =>
    rw [handleIncoming] at h
    split at h
    · cases h
      exact hinv
    · obtain ⟨-, rfl⟩ := pushMessage_eq_some.mp h
      have hsame : SameWork world { world with pushed := world.pushed ++ [.request request] } :=
        ⟨rfl, rfl, rfl, rfl, rfl, by simp [World.reported, Push.outcome?], rfl⟩
      exact hsame.inv hinv
  | deployment payload =>
    simp only [handleIncoming] at h
    split at h
    · rcases payload with _ | deployment
      · cases h
        exact hinv
      · simp only [receiveDeployment] at h
        by_cases hskipped : deployment.skipped = true
        · simp only [hskipped, if_true] at h
          cases h
          exact hinv
        · simp only [hskipped, Bool.false_eq_true, if_false] at h
          rcases hlookup : lookupDeployment deployment.sid world.process.activeDeployments with
            _ | known
          · simp only [hlookup] at h
            cases h
            exact enqueue_inv hinv hlookup
          · simp only [hlookup] at h
            cases h
            exact hinv
    · cases h
      exact hinv

/-- Starting a task moves its deployment from the mailbox to the tasks. -/
theorem runDeployment_inv {world world' : World} {reading : Reading} {sid : Sid}
    {rest : List Message} (hinv : Inv world)
    (hmailbox : world.process.mailbox = .runDeployment sid :: rest)
    (h : handle (world.take rest) reading (.runDeployment sid) = some world') : Inv world' := by
  have hplace : world.places = world.running.map Run.sid ++ sid :: rest.filterMap Message.sid? := by
    simp [World.places, hmailbox, Message.sid?]
  have hpending : world.pending = rest.filterMap Message.outcome? := by
    simp [World.pending, hmailbox, List.filterMap_cons, Message.outcome?]
  unfold handle at h
  rcases hlookup : lookupDeployment sid (world.take rest).process.activeDeployments with
    _ | deployment
  · have hactive := lookupDeployment_isSome.mpr (hinv.inFlight sid (by simp [hplace]))
    change lookupDeployment sid world.process.activeDeployments = none at hlookup
    rw [hlookup] at hactive
    cases hactive
  · have hsid := lookupDeployment_sid hlookup
    simp only [hlookup] at h
    obtain ⟨acknowledged, hpush, hstart⟩ := Option.bind_eq_some_iff.mp h
    obtain ⟨-, rfl⟩ := pushMessage_eq_some.mp hpush
    cases hstart
    have hplaces : World.places (startTask { world.take rest with
        pushed := (world.take rest).pushed ++ [.acknowledged deployment.sid] } deployment.sid) =
        world.places := by
      rw [hplace, hsid]
      simp [World.places, startTask, World.take]
    have hids : World.runIds (startTask { world.take rest with
        pushed := (world.take rest).pushed ++ [.acknowledged deployment.sid] } deployment.sid) =
        world.running.map Run.id ++ world.nextRun :: world.finished.map Outcome.run := by
      simp [World.runIds, startTask, World.take]
    refine ⟨?_, ?_, ?_, ?_, ?_⟩
    · rw [hplaces]
      exact hinv.onePlace
    · rw [hplaces]
      exact hinv.inFlight
    · have haccounted := hinv.accounted
      rw [hpending] at haccounted
      simpa [World.reported, World.pending, startTask, World.take, List.filterMap_cons,
        Push.outcome?] using haccounted
    · rw [hids]
      refine (List.perm_middle.nodup_iff).mpr (List.nodup_cons.mpr ⟨?_, hinv.numbered⟩)
      intro hmem
      exact absurd (hinv.fresh _ hmem) (Nat.lt_irrefl _)
    · rw [hids]
      intro id hid
      change id < world.nextRun + 1
      rcases List.mem_cons.mp (List.perm_middle.mem_iff.mp hid) with rfl | hold
      · exact Nat.lt_succ_self _
      · exact (hinv.fresh id hold).trans (Nat.lt_succ_self _)

/-- Reporting an outcome moves it from the mailbox to the reports, and its
deployment is no longer in progress. -/
theorem deploymentCompleted_inv {world world' : World} {reading : Reading} {outcome : Outcome}
    {rest : List Message} (hinv : Inv world)
    (hmailbox : world.process.mailbox = .deploymentCompleted outcome :: rest)
    (h : handle (world.take rest) reading (.deploymentCompleted outcome) = some world') :
    Inv world' := by
  have hplace : world.places =
      world.running.map Run.sid ++ outcome.sid :: rest.filterMap Message.sid? := by
    simp [World.places, hmailbox, Message.sid?]
  have hpending : world.pending = outcome :: rest.filterMap Message.outcome? := by
    simp [World.pending, hmailbox, Message.outcome?]
  unfold handle completeDeployment at h
  rcases hlookup : lookupDeployment outcome.sid (world.take rest).process.activeDeployments with
    _ | deployment
  · have hactive := lookupDeployment_isSome.mpr (hinv.inFlight outcome.sid (by simp [hplace]))
    change lookupDeployment outcome.sid world.process.activeDeployments = none at hlookup
    rw [hlookup] at hactive
    cases hactive
  · simp only [hlookup, Option.map_some] at h
    obtain ⟨reported, hpush, hreport⟩ := Option.bind_eq_some_iff.mp h
    obtain ⟨-, rfl⟩ := pushMessage_eq_some.mp hpush
    cases hreport
    have hnodup := hinv.onePlace
    rw [hplace, List.perm_middle.nodup_iff, List.nodup_cons] at hnodup
    refine ⟨?_, ?_, ?_, hinv.numbered, hinv.fresh⟩
    · simpa [World.places, World.send, World.take, List.filterMap_cons, Message.sid?] using
        hnodup.2
    · intro sid hsid
      have hmem : sid ∈ world.running.map Run.sid ++ rest.filterMap Message.sid? := by
        simpa [World.places, World.send, World.take, List.filterMap_cons, Message.sid?] using hsid
      have hne : sid ≠ outcome.sid := by
        intro heq
        rw [heq] at hmem
        exact hnodup.1 hmem
      have hold : sid ∈ world.places := by
        rw [hplace, List.perm_middle.mem_iff]
        exact List.mem_cons_of_mem _ hmem
      obtain ⟨d, hd, hdsid⟩ := List.mem_map.mp (hinv.inFlight sid hold)
      refine List.mem_map.mpr ⟨d, List.mem_filter.mpr ⟨hd, ?_⟩, hdsid⟩
      simpa [hdsid] using hne
    · have haccounted := hinv.accounted
      rw [hpending] at haccounted
      simpa [World.reported, World.pending, World.send, World.take,
        List.filterMap_cons, Push.outcome?, Message.outcome?] using haccounted

/-- A task that finishes moves its deployment to the mailbox. -/
theorem finishRun_inv {world : World} {run : Run} {result : DeploymentResult} (hinv : Inv world)
    (hrun : run ∈ world.running) : Inv (world.finishRun run result) := by
  have herase : world.running.Perm (run :: world.running.erase run) := List.perm_cons_erase hrun
  have hplaces : (world.finishRun run result).places.Perm world.places := by
    have hmap := (herase.map Run.sid).append_right
      (world.process.mailbox.filterMap Message.sid?)
    refine List.Perm.trans ?_ hmap.symm
    have hmoved : ((world.running.erase run).map Run.sid ++
        world.process.mailbox.filterMap Message.sid? ++ [run.sid]).Perm _ := List.perm_append_comm
    simpa [World.places, World.finishRun, World.send, Message.sid?] using hmoved
  have hids : (world.finishRun run result).runIds.Perm world.runIds := by
    have hmap := (herase.map Run.id).append_right (world.finished.map Outcome.run)
    refine List.Perm.trans ?_ hmap.symm
    have hmoved : ((world.running.erase run).map Run.id ++ world.finished.map Outcome.run ++
        [run.id]).Perm _ := List.perm_append_comm
    simpa [World.runIds, World.finishRun, World.send] using hmoved
  refine ⟨hplaces.nodup_iff.mpr hinv.onePlace, ?_, ?_, hids.nodup_iff.mpr hinv.numbered, ?_⟩
  · intro sid hsid
    exact hinv.inFlight sid (hplaces.mem_iff.mp hsid)
  · have haccounted := hinv.accounted.append_right [⟨run.id, run.sid, result⟩]
    simpa [World.reported, World.pending, World.finishRun, World.send, Message.outcome?] using
      haccounted
  · intro id hid
    exact hinv.fresh id (hids.mem_iff.mp hid)

/-- Restarting the process loses nothing while nothing is in progress. -/
theorem restart_inv {world : World} (hinv : Inv world) (hidle : world.idle = true) :
    Inv world.restart := by
  unfold World.idle at hidle
  rw [Bool.and_eq_true, List.isEmpty_iff, List.isEmpty_iff] at hidle
  obtain ⟨hrunning, hpending⟩ := hidle
  refine ⟨?_, ?_, ?_, hinv.numbered, hinv.fresh⟩
  · simp [World.places, World.restart, hrunning]
  · simp [World.places, World.restart, hrunning]
  · have haccounted := hinv.accounted
    rw [hpending] at haccounted
    simpa [World.reported, World.pending, World.restart] using haccounted

/-- Only a push on a topic that is not joined ends the process. -/
theorem handle_eq_none {world : World} {reading : Reading} {message : Message}
    (h : handle world reading message = none) :
    world.pushes reading message = true ∧ world.process.joined = false := by
  have hpush : ∀ push, pushMessage world push = none → world.process.joined = false := by
    intro push hnone
    unfold pushMessage at hnone
    split at hnone
    · cases hnone
    · simpa using ‹¬ world.process.joined = true›
  cases message with
  | incoming event =>
    cases event with
    | lobbyJoined => cases h
    | privateJoined => cases h
    | disconnected => cases h
    | deployment payload =>
      simp only [handle, handleIncoming] at h
      split at h
      · rcases payload with _ | deployment
        · cases h
        · dsimp only at h
          split at h <;> cases h
      · cases h
    | request request =>
      simp only [handle, handleIncoming] at h
      split at h
      · cases h
      · rename_i hsilent
        exact ⟨decide_eq_true hsilent, hpush _ h⟩
  | runDeployment sid =>
    simp only [handle] at h
    rcases hlookup : lookupDeployment sid world.process.activeDeployments with _ | deployment
    · simp [hlookup] at h
    · simp only [hlookup] at h
      rcases hpushed : pushMessage world (.acknowledged deployment.sid) with _ | acknowledged
      · exact ⟨by simp [World.pushes, hlookup], hpush _ hpushed⟩
      · simp [hpushed, bind, Option.bind] at h
  | deploymentCompleted outcome =>
    simp only [handle, completeDeployment] at h
    rcases hlookup : lookupDeployment outcome.sid world.process.activeDeployments with
      _ | deployment
    · simp [hlookup] at h
    · simp only [hlookup, Option.map_some] at h
      rcases hpushed : pushMessage world
          (.result ⟨deployment.requestId, outcome, reading.now⟩) with _ | reported
      · exact ⟨by simp [World.pushes, hlookup], hpush _ hpushed⟩
      · simp [hpushed, bind, Option.bind] at h

/-- A guarded step keeps the invariant. -/
theorem step_inv {world : World} {event : Event} (hinv : Inv world)
    (hguard : world.guarded event = true) : Inv (world.step event) := by
  cases event with
  | deliver incoming => exact (sameWork_send world incoming).inv hinv
  | finish id ending =>
    unfold World.step
    dsimp only
    split
    · exact hinv
    · exact finishRun_inv hinv (List.mem_of_find?_eq_some ‹_›)
  | handle reading =>
    unfold World.guarded at hguard
    unfold World.step World.handleFirst
    dsimp only
    rcases hmailbox : world.process.mailbox with _ | ⟨message, rest⟩
    · exact hinv
    · simp only [hmailbox] at hguard
      dsimp only
      change Inv ((handle (world.take rest) reading message).getD (world.take rest).restart)
      rcases hhandle : handle (world.take rest) reading message with _ | world'
      · obtain ⟨hpushes, hjoined⟩ := handle_eq_none hhandle
        have hpushes' : world.pushes reading message = true := by
          cases message with
          | incoming event => cases event <;> exact hpushes
          | runDeployment sid => exact hpushes
          | deploymentCompleted outcome => exact hpushes
        have hjoined' : world.process.joined = false := hjoined
        have hidle : world.idle = true := by simpa [hpushes', hjoined'] using hguard
        change Inv world.restart
        exact restart_inv hinv hidle
      · rw [Option.getD_some]
        cases message with
        | incoming event => exact handleIncoming_inv ((sameWork_take hmailbox).inv hinv) hhandle
        | runDeployment sid => exact runDeployment_inv hinv hmailbox hhandle
        | deploymentCompleted outcome => exact deploymentCompleted_inv hinv hmailbox hhandle

/-- Every world of a guarded run satisfies the invariant. -/
theorem exec_inv {world : World} {events : List Event} (hinv : Inv world)
    (hguard : GuardedRun world events = true) : Inv (world.exec events) := by
  induction events generalizing world with
  | nil => exact hinv
  | cons event rest ih =>
    unfold GuardedRun at hguard
    rw [Bool.and_eq_true] at hguard
    exact ih (step_inv hinv hguard.1) hguard.2

end Steps

section Runs

/-- In a guarded run no deployment ever has two tasks, and every finished task
has one report with its result. -/
theorem oneRun_of_guarded {events : List Event} (h : GuardedRun {} events = true) :
    OneRun (World.exec {} events) ∧ ReportedOnce (World.exec {} events) :=
  ⟨(exec_inv inv_start h).oneRun, (exec_inv inv_start h).reportedOnce⟩

/-- Joining the topic, with the requests it leads to. -/
def connection : List Event :=
  [.deliver .lobbyJoined, .deliver .privateJoined, .handle ⟨0, true⟩, .handle ⟨0, true⟩,
    .handle ⟨0, true⟩, .handle ⟨0, true⟩, .handle ⟨0, true⟩]

/-- The server sends a deployment, and its task is started. -/
def dispatch : List Event :=
  [.deliver (.deployment (some { sid := 7, seedDeployments := [] })), .handle ⟨0, true⟩,
    .handle ⟨0, true⟩]

/-- A deployment that is repeated while it runs, finishes and is reported. -/
theorem oneRun_of_repeated :
    OneRun (World.exec {} (connection ++ dispatch ++ dispatch ++
        [.finish 0 (.ok .success), .handle ⟨0, true⟩])) ∧
      ReportedOnce (World.exec {} (connection ++ dispatch ++ dispatch ++
        [.finish 0 (.ok .success), .handle ⟨0, true⟩])) :=
  oneRun_of_guarded (by decide)

/-- The connection is lost while a deployment runs, a status of one of its seeds
ends the process, and the server repeats the deployment on the next join. -/
def lostConnection : List Event :=
  connection ++ dispatch ++
    [.deliver .disconnected, .handle ⟨0, true⟩,
      .deliver (.request (.seedStatus 1 .activating)), .handle ⟨0, true⟩] ++
    connection ++ dispatch

/-- After a lost connection one deployment has two tasks. -/
theorem oneRun_fails_after_lost_connection :
    ¬ ∀ events, OneRun (World.exec {} events) ∧ ReportedOnce (World.exec {} events) := by
  intro h
  have hone := (h lostConnection).1
  have htwo : (World.exec {} lostConnection).running.map Run.sid = [7, 7] := by decide
  unfold OneRun at hone
  rw [htwo] at hone
  exact absurd hone (by decide)

end Runs

end Sower.Garden.Socket
