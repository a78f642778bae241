import Sower.Garden.OneRun

/-!
# Reloading the garden's service

Whoever asks for a reload sets a flag and then tells the socket process, which restarts the
service when it finds the flag set and no deployment in flight. It looks when it is told, and
after each deployment. Setting the flag, telling, looking and erasing the flag are steps of
their own, and a check is handled in whatever order with the other messages. A reload hits no
deployment while the process is not lost with work in progress, and unless the process is lost
no request stays behind.
-/

namespace Sower.Garden.Socket

open Sower.Wire

section Service

/-- What happens to the flag. -/
inductive Entry where
  | requested
  /-- The service is restarted, and this is what goes on in it. -/
  | reloaded (world : World)

/-- The garden and the flag of its service. -/
structure Service where
  world : World := {}
  /-- `:sower_pending_reload` -/
  pendingReload : Bool := false
  /-- Calls of `request_reload` that have set the flag and told nobody yet. -/
  asking : ℕ := 0
  /-- Messages `:check_pending_reload` in the mailbox. -/
  checks : ℕ := 0
  /-- Whether the process has read the flag as set and is about to erase it. -/
  taking : Bool := false
  log : List Entry := []

/-- The next message completes a deployment in flight, and the push succeeds. -/
def World.completes (world : World) : Bool :=
  match world.process.mailbox with
  | .deploymentCompleted outcome :: _ =>
    (lookupDeployment outcome.sid world.process.activeDeployments).isSome && world.process.joined
  | _ => false

/-- The next message ends the process. -/
def World.loses (world : World) (reading : Reading) : Bool :=
  match world.process.mailbox with
  | [] => false
  | message :: rest => (handle (world.take rest) reading message).isNone

/-- What happens next. -/
inductive ServiceEvent where
  | garden (event : Event)
  /-- `request_reload` sets the flag. -/
  | request
  /-- `request_reload` sends the check, if it finds the process. -/
  | tell (found : Bool)
  /-- `handle_info(:check_pending_reload)`, as far as it reads the flag. -/
  | check
  /-- The flag is erased and the service restarted. -/
  | erase

/-- Something happens in the garden; after a deployment the process tells itself to look. -/
def Service.garden (service : Service) (event : Event) : Service :=
  { service with
    world := service.world.step event
    checks := match event with
      | .handle reading =>
        if service.world.loses reading then 0
        else if service.world.completes then service.checks + 1
        else service.checks
      | _ => service.checks }

/-- While it takes the flag the process handles nothing else. -/
def Service.step (service : Service) : ServiceEvent → Service
  | .garden (.handle reading) =>
    if service.taking then service else service.garden (.handle reading)
  | .garden event => service.garden event
  | .request =>
    { service with
      pendingReload := true
      asking := service.asking + 1
      log := service.log ++ [.requested] }
  | .tell found =>
    if service.asking = 0 then service
    else
      { service with
        asking := service.asking - 1
        checks := if found then service.checks + 1 else service.checks }
  | .check =>
    if service.taking = true ∨ service.checks = 0 then service
    else
      { service with
        checks := service.checks - 1
        taking := service.world.process.activeDeployments.isEmpty && service.pendingReload }
  | .erase =>
    if service.taking then
      { service with
        pendingReload := false
        taking := false
        log := service.log ++ [.reloaded service.world] }
    else service

/-- The service after a list of events. -/
def Service.exec (service : Service) (events : List ServiceEvent) : Service :=
  events.foldl Service.step service

/-- Every step of the run is of this kind. -/
def Service.Throughout (kind : Service → ServiceEvent → Bool) : Service → List ServiceEvent → Bool
  | _, [] => true
  | service, event :: rest =>
    kind service event && Service.Throughout kind (service.step event) rest

/-- The process is not lost with work in progress. -/
def Service.guarded (service : Service) : ServiceEvent → Bool
  | .garden event => service.world.guarded event
  | _ => true

/-- The process is not lost, and everyone finds it. -/
def Service.kept (service : Service) : ServiceEvent → Bool
  | .garden (.handle reading) => service.taking || !service.world.loses reading
  | .tell found => found
  | _ => true

/-- A reload is requested, and there is none since. -/
def Unserved (log : List Entry) : Prop :=
  ∃ earlier later, log = earlier ++ .requested :: later ∧ ∀ world, .reloaded world ∉ later

/-- A world in which nothing is in progress or left to be reported. -/
structure World.AtRest (world : World) : Prop where
  active : world.process.activeDeployments = []
  running : world.running = []
  reported : world.finished.Perm world.reported

end Service

section Progress

variable {world world' : World}

/-- Every deployment in flight waits to be started, runs or waits to be reported. -/
def World.Placed (world : World) : Prop :=
  ∀ deployment ∈ world.process.activeDeployments, deployment.sid ∈ world.places

/-- Without deployments in flight nothing is in progress. -/
theorem atRest_of_inv (hinv : Inv world) (hactive : world.process.activeDeployments = []) :
    world.AtRest := by
  have hplaces : world.places = [] := by
    rw [List.eq_nil_iff_forall_not_mem]
    intro sid hsid
    have hmem := hinv.inFlight sid hsid
    rw [hactive] at hmem
    cases hmem
  obtain ⟨hrunning, hmailbox⟩ := List.append_eq_nil_iff.mp hplaces
  have hpending : world.pending = [] := by
    refine List.filterMap_eq_nil_iff.mpr fun message hmessage => ?_
    have hsid := List.filterMap_eq_nil_iff.mp hmailbox message hmessage
    cases message with
    | incoming event => rfl
    | runDeployment sid => rfl
    | deploymentCompleted outcome => cases hsid
  have haccounted := hinv.accounted
  rw [hpending, List.append_nil] at haccounted
  exact ⟨hactive, List.map_eq_nil_iff.mp hrunning, haccounted⟩

theorem SameWork.placed (h : SameWork world world') (hplaced : world.Placed) : world'.Placed := by
  unfold World.Placed
  rw [h.active, h.places]
  exact hplaced

theorem sid_ne_of_lookup {sid : Sid} {activeDeployments : List Deployment} {deployment : Deployment}
    (h : lookupDeployment sid activeDeployments = none) (hmem : deployment ∈ activeDeployments) :
    deployment.sid ≠ sid := by
  simpa using List.find?_eq_none.mp h deployment hmem

/-- A deployment keeps its place where the first message is about another one. -/
theorem placed_take {sid : Sid} {message : Message} {rest : List Message}
    (hplaced : world.Placed) (hmailbox : world.process.mailbox = message :: rest)
    (hsid : message.sid? = some sid) {deployment : Deployment}
    (hmem : deployment ∈ world.process.activeDeployments) (hne : deployment.sid ≠ sid) :
    deployment.sid ∈ (world.take rest).places := by
  have hplace := hplaced deployment hmem
  unfold World.places at hplace ⊢
  rw [hmailbox, List.filterMap_cons, hsid] at hplace
  rcases List.mem_append.mp hplace with hrunning | hwaiting
  · exact List.mem_append_left _ hrunning
  · rcases List.mem_cons.mp hwaiting with heq | hrest
    · exact absurd heq hne
    · exact List.mem_append_right _ hrest

theorem placed_handleIncoming {reading : Reading} {event : Incoming} (hplaced : world.Placed)
    (h : handleIncoming world reading event = some world') : world'.Placed := by
  cases event with
  | lobbyJoined =>
    cases h
    exact hplaced
  | privateJoined =>
    cases h
    exact ((sameWork_send _ _).trans ((sameWork_send _ _).trans (sameWork_send _ _))).placed hplaced
  | disconnected =>
    cases h
    exact hplaced
  | request request =>
    rw [handleIncoming] at h
    split at h
    · cases h
      exact hplaced
    · obtain ⟨-, rfl⟩ := pushMessage_eq_some.mp h
      exact hplaced
  | deployment payload =>
    simp only [handleIncoming] at h
    split at h
    · rcases payload with _ | deployment
      · cases h
        exact hplaced
      · simp only [receiveDeployment] at h
        by_cases hskipped : deployment.skipped = true
        · simp only [hskipped, if_true] at h
          cases h
          exact hplaced
        · simp only [hskipped, Bool.false_eq_true, if_false] at h
          rcases hlookup : lookupDeployment deployment.sid world.process.activeDeployments with
            _ | known
          · simp only [hlookup] at h
            cases h
            intro other hother
            have hplaces : (world.send (.runDeployment deployment.sid)).places =
                world.places ++ [deployment.sid] := by
              simp [World.places, World.send, Message.sid?]
            change other.sid ∈ (world.send (.runDeployment deployment.sid)).places
            rw [hplaces]
            rcases List.mem_append.mp hother with hold | hnew
            · exact List.mem_append_left _ (hplaced other hold)
            · rw [List.mem_singleton.mp hnew]
              exact List.mem_append_right _ List.mem_cons_self
          · simp only [hlookup] at h
            cases h
            exact hplaced
    · cases h
      exact hplaced

theorem placed_runDeployment {reading : Reading} {sid : Sid} {rest : List Message}
    (hplaced : world.Placed) (hmailbox : world.process.mailbox = .runDeployment sid :: rest)
    (h : handle (world.take rest) reading (.runDeployment sid) = some world') : world'.Placed := by
  simp only [handle] at h
  rcases hlookup : lookupDeployment sid (world.take rest).process.activeDeployments with
    _ | deployment
  · simp only [hlookup] at h
    cases h
    intro other hother
    exact placed_take hplaced hmailbox rfl hother (sid_ne_of_lookup hlookup hother)
  · simp only [hlookup] at h
    obtain ⟨acknowledged, hpush, hstart⟩ := Option.bind_eq_some_iff.mp h
    obtain ⟨-, rfl⟩ := pushMessage_eq_some.mp hpush
    cases hstart
    intro other hother
    have hstarted : ∀ key ∈ (world.take rest).places ++ [sid], key ∈ (startTask { world.take rest with
        pushed := (world.take rest).pushed ++ [.acknowledged deployment.sid] } deployment.sid).places := by
      intro key hkey
      rw [lookupDeployment_sid hlookup]
      simp only [World.places, startTask, List.map_append, List.mem_append] at hkey ⊢
      rcases hkey with (hrunning | hwaiting) | hnew
      · exact Or.inl (Or.inl hrunning)
      · exact Or.inr hwaiting
      · exact Or.inl (Or.inr hnew)
    refine hstarted _ ?_
    by_cases heq : other.sid = sid
    · rw [heq]
      exact List.mem_append_right _ List.mem_cons_self
    · exact List.mem_append_left _ (placed_take hplaced hmailbox rfl hother heq)

theorem placed_deploymentCompleted {reading : Reading} {outcome : Outcome} {rest : List Message}
    (hplaced : world.Placed)
    (hmailbox : world.process.mailbox = .deploymentCompleted outcome :: rest)
    (h : handle (world.take rest) reading (.deploymentCompleted outcome) = some world') :
    world'.Placed := by
  simp only [handle, completeDeployment] at h
  rcases hlookup : lookupDeployment outcome.sid (world.take rest).process.activeDeployments with
    _ | deployment
  · simp only [hlookup] at h
    cases h
    intro other hother
    exact placed_take hplaced hmailbox rfl hother (sid_ne_of_lookup hlookup hother)
  · simp only [hlookup, Option.map_some] at h
    obtain ⟨reported, hpush, hreport⟩ := Option.bind_eq_some_iff.mp h
    obtain ⟨-, rfl⟩ := pushMessage_eq_some.mp hpush
    cases hreport
    intro other hother
    obtain ⟨hactive, hne⟩ := List.mem_filter.mp hother
    have hplace := placed_take hplaced hmailbox rfl hactive (by simpa using hne)
    simpa [World.places, World.send, List.filterMap_cons, Message.sid?] using hplace

theorem placed_step (event : Event) (hplaced : world.Placed) : (world.step event).Placed := by
  cases event with
  | deliver incoming => exact (sameWork_send world incoming).placed hplaced
  | finish id ending =>
    unfold World.step
    dsimp only
    split
    · exact hplaced
    · rename_i run hfind
      have hrun := List.mem_of_find?_eq_some hfind
      intro deployment hmem
      have hplace := hplaced deployment hmem
      have hperm := (List.perm_cons_erase hrun).map Run.sid
      have hmoved : deployment.sid ∈ (world.running.erase run).map Run.sid ++
          (world.process.mailbox.filterMap Message.sid? ++ [run.sid]) := by
        rcases List.mem_append.mp hplace with hrunning | hwaiting
        · rcases List.mem_cons.mp (hperm.mem_iff.mp hrunning) with heq | hother
          · rw [heq]
            exact List.mem_append_right _ (List.mem_append_right _ List.mem_cons_self)
          · exact List.mem_append_left _ hother
        · exact List.mem_append_right _ (List.mem_append_left _ hwaiting)
      simpa [World.places, World.finishRun, World.send, Message.sid?] using hmoved
  | handle reading =>
    unfold World.step World.handleFirst
    dsimp only
    rcases hmailbox : world.process.mailbox with _ | ⟨message, rest⟩
    · exact hplaced
    · change ((handle (world.take rest) reading message).getD (world.take rest).restart).Placed
      rcases hhandle : handle (world.take rest) reading message with _ | world'
      · intro deployment hmem
        cases hmem
      · cases message with
        | incoming event =>
          exact placed_handleIncoming ((sameWork_take hmailbox).placed hplaced) hhandle
        | runDeployment sid => exact placed_runDeployment hplaced hmailbox hhandle
        | deploymentCompleted outcome =>
          exact placed_deploymentCompleted hplaced hmailbox hhandle

end Progress

section Logs

variable {log : List Entry} {entry : Entry}

/-- The last entry of a log, or one of those before. -/
theorem append_singleton_eq {earlier later : List Entry} {other : Entry}
    (h : log ++ [entry] = earlier ++ other :: later) :
    (log = earlier ∧ entry = other ∧ later = []) ∨
      ∃ rest, later = rest ++ [entry] ∧ log = earlier ++ other :: rest := by
  rcases List.eq_nil_or_concat later with hnil | ⟨rest, last, hlast⟩
  · rw [hnil] at h
    obtain ⟨hlog, hentry⟩ := List.append_inj' h rfl
    exact Or.inl ⟨hlog, (List.cons.inj hentry).1, hnil⟩
  · rw [hlast, List.concat_eq_append] at h
    have hsplit : log ++ [entry] = (earlier ++ other :: rest) ++ [last] := by
      rw [h, List.append_assoc]
      rfl
    obtain ⟨hlog, hentry⟩ := List.append_inj' hsplit rfl
    refine Or.inr ⟨rest, ?_, hlog⟩
    rw [hlast, List.concat_eq_append, (List.cons.inj hentry).1]

theorem unserved_requested : Unserved (log ++ [.requested]) :=
  ⟨log, [], rfl, fun _ => List.not_mem_nil⟩

theorem not_unserved_reloaded {world : World} : ¬ Unserved (log ++ [.reloaded world]) := by
  rintro ⟨earlier, later, heq, hnone⟩
  rcases append_singleton_eq heq with ⟨-, hentry, -⟩ | ⟨rest, hlater, -⟩
  · cases hentry
  · rw [hlater] at hnone
    exact hnone world (List.mem_append_right _ List.mem_cons_self)

theorem not_unserved_nil : ¬ Unserved [] := by
  rintro ⟨earlier, later, heq, -⟩
  exact absurd heq.symm (List.append_ne_nil_of_right_ne_nil _ (List.cons_ne_nil _ _))

end Logs

section Runs

variable {service : Service} {event : ServiceEvent}

/-- What holds between two steps of any run. -/
structure Service.Sound (service : Service) : Prop where
  placed : service.world.Placed
  flag : service.pendingReload = true ↔ Unserved service.log
  taking : service.taking = true →
    service.world.process.activeDeployments = [] ∧ service.pendingReload = true
  /-- A reload answers a request. -/
  answers : ∀ earlier world later, service.log = earlier ++ .reloaded world :: later →
    Unserved earlier

/-- What holds while the process is not lost with work in progress. -/
structure Service.Careful (service : Service) : Prop where
  inv : Inv service.world
  rest : ∀ world, .reloaded world ∈ service.log → world.AtRest

/-- What holds while the process is not lost: somebody looks after a request. -/
def Service.Minded (service : Service) : Prop :=
  service.pendingReload = true → 0 < service.asking ∨ 0 < service.checks ∨
    service.taking = true ∨ service.world.process.activeDeployments ≠ []

/-- Outside of the handler for messages the deployments in flight stay. -/
theorem active_step {world : World} {event : Event} (h : ∀ reading, event ≠ .handle reading) :
    (world.step event).process.activeDeployments = world.process.activeDeployments := by
  cases event with
  | deliver incoming => rfl
  | handle reading => exact absurd rfl (h reading)
  | finish id ending =>
    unfold World.step
    dsimp only
    split <;> rfl

theorem Service.Sound.garden (h : service.Sound) {event : Event}
    (hidle : ∀ reading, event = .handle reading → service.taking = false) :
    (service.garden event).Sound := by
  refine ⟨placed_step event h.placed, h.flag, ?_, h.answers⟩
  intro htaking
  obtain ⟨hactive, hflag⟩ := h.taking htaking
  refine ⟨?_, hflag⟩
  have hother : ∀ reading, event ≠ .handle reading := by
    intro reading heq
    have hnot := hidle reading heq
    change service.taking = true at htaking
    rw [hnot] at htaking
    cases htaking
  change (service.world.step event).process.activeDeployments = []
  rw [active_step hother, hactive]

/-- A step of the garden itself is taken where the process is not about to erase the flag. -/
theorem Service.step_garden (service : Service) (event : Event) :
    service.step (.garden event) = service ∧ service.taking = true ∨
      service.step (.garden event) = service.garden event ∧
        ∀ reading, event = .handle reading → service.taking = false := by
  cases event with
  | deliver incoming => exact Or.inr ⟨rfl, fun reading heq => nomatch heq⟩
  | finish id ending => exact Or.inr ⟨rfl, fun reading heq => nomatch heq⟩
  | handle reading =>
    cases htaking : service.taking with
    | true => exact Or.inl ⟨if_pos htaking, rfl⟩
    | false => exact Or.inr ⟨if_neg (by simp [htaking]), fun _ _ => rfl⟩

theorem Service.Sound.step (h : service.Sound) (event : ServiceEvent) : (service.step event).Sound := by
  cases event with
  | garden event =>
    rcases service.step_garden event with ⟨hstep, -⟩ | ⟨hstep, hidle⟩
    · rw [hstep]
      exact h
    · rw [hstep]
      exact h.garden hidle
  | request =>
    refine ⟨h.placed, ?_, fun htaking => ⟨(h.taking htaking).1, rfl⟩, ?_⟩
    · exact ⟨fun _ => unserved_requested, fun _ => rfl⟩
    · intro earlier world later heq
      rcases append_singleton_eq heq with ⟨-, hentry, -⟩ | ⟨rest, -, hlog⟩
      · cases hentry
      · exact h.answers earlier world rest hlog
  | tell found =>
    unfold Service.step
    dsimp only
    split
    · exact h
    · exact ⟨h.placed, h.flag, h.taking, h.answers⟩
  | check =>
    unfold Service.step
    dsimp only
    split
    · exact h
    · refine ⟨h.placed, h.flag, fun htaking => ?_, h.answers⟩
      obtain ⟨hactive, hflag⟩ := Bool.and_eq_true_iff.mp htaking
      exact ⟨List.isEmpty_iff.mp hactive, hflag⟩
  | erase =>
    unfold Service.step
    dsimp only
    split
    · rename_i htaking
      refine ⟨h.placed, ?_, fun hnot => Bool.noConfusion hnot, ?_⟩
      · exact ⟨fun hnot => Bool.noConfusion hnot, fun hun => absurd hun not_unserved_reloaded⟩
      · intro earlier world later heq
        rcases append_singleton_eq heq with ⟨hlog, -, -⟩ | ⟨rest, -, hlog⟩
        · rw [← hlog]
          exact h.flag.mp (h.taking htaking).2
        · exact h.answers earlier world rest hlog
    · exact h

theorem Service.Careful.step (h : service.Careful) (hsound : service.Sound)
    (hguard : service.guarded event = true) : (service.step event).Careful := by
  cases event with
  | garden event =>
    rcases service.step_garden event with ⟨hstep, -⟩ | ⟨hstep, -⟩
    · rw [hstep]
      exact h
    · rw [hstep]
      exact ⟨step_inv h.inv hguard, h.rest⟩
  | request =>
    refine ⟨h.inv, fun world hmem => ?_⟩
    rcases List.mem_append.mp hmem with hold | hnew
    · exact h.rest world hold
    · cases List.mem_singleton.mp hnew
  | tell found =>
    unfold Service.step
    dsimp only
    split
    · exact h
    · exact ⟨h.inv, h.rest⟩
  | check =>
    unfold Service.step
    dsimp only
    split
    · exact h
    · exact ⟨h.inv, h.rest⟩
  | erase =>
    unfold Service.step
    dsimp only
    split
    · rename_i htaking
      refine ⟨h.inv, fun world hmem => ?_⟩
      rcases List.mem_append.mp hmem with hold | hnew
      · exact h.rest world hold
      · cases List.mem_singleton.mp hnew
        exact atRest_of_inv h.inv (hsound.taking htaking).1
    · exact h

/-- No message from outside takes a deployment out of flight. -/
theorem active_handleIncoming {world world' : World} {reading : Reading} {event : Incoming}
    (h : handleIncoming world reading event = some world')
    (hnone : world'.process.activeDeployments = []) : world.process.activeDeployments = [] := by
  cases event with
  | lobbyJoined =>
    cases h
    exact hnone
  | privateJoined =>
    cases h
    exact hnone
  | disconnected =>
    cases h
    exact hnone
  | request request =>
    rw [handleIncoming] at h
    split at h
    · cases h
      exact hnone
    · obtain ⟨-, rfl⟩ := pushMessage_eq_some.mp h
      exact hnone
  | deployment payload =>
    simp only [handleIncoming] at h
    split at h
    · rcases payload with _ | deployment
      · cases h
        exact hnone
      · simp only [receiveDeployment] at h
        by_cases hskipped : deployment.skipped = true
        · simp only [hskipped, if_true] at h
          cases h
          exact hnone
        · simp only [hskipped, Bool.false_eq_true, if_false] at h
          rcases hlookup : lookupDeployment deployment.sid world.process.activeDeployments with
            _ | known
          · simp only [hlookup] at h
            cases h
            exact absurd hnone (List.append_ne_nil_of_right_ne_nil _ (List.cons_ne_nil _ _))
          · simp only [hlookup] at h
            cases h
            exact hnone
    · cases h
      exact hnone

/-- The last deployment in flight leaves a check behind. -/
theorem completes_of_last {world : World} {reading : Reading} (hkept : world.loses reading = false)
    (hactive : world.process.activeDeployments ≠ [])
    (hlast : (world.step (.handle reading)).process.activeDeployments = []) :
    world.completes = true := by
  unfold World.loses at hkept
  unfold World.step World.handleFirst at hlast
  dsimp only at hlast
  unfold World.completes
  rcases hmailbox : world.process.mailbox with _ | ⟨message, rest⟩
  · rw [hmailbox] at hlast
    exact absurd hlast hactive
  · rw [hmailbox] at hkept hlast
    dsimp only at hkept hlast ⊢
    change ((handle (world.take rest) reading message).getD
      (world.take rest).restart).process.activeDeployments = [] at hlast
    rcases hhandle : handle (world.take rest) reading message with _ | world'
    · rw [hhandle] at hkept
      cases hkept
    · rw [hhandle, Option.getD_some] at hlast
      cases message with
      | incoming event => exact absurd (active_handleIncoming hhandle hlast) hactive
      | runDeployment sid =>
        simp only [handle] at hhandle
        rcases hlookup : lookupDeployment sid (world.take rest).process.activeDeployments with
          _ | deployment
        · simp only [hlookup] at hhandle
          cases hhandle
          exact absurd hlast hactive
        · simp only [hlookup] at hhandle
          obtain ⟨acknowledged, hpush, hstart⟩ := Option.bind_eq_some_iff.mp hhandle
          obtain ⟨-, rfl⟩ := pushMessage_eq_some.mp hpush
          cases hstart
          exact absurd hlast hactive
      | deploymentCompleted outcome =>
        simp only [handle, completeDeployment] at hhandle
        rcases hlookup : lookupDeployment outcome.sid
            (world.take rest).process.activeDeployments with _ | deployment
        · simp only [hlookup] at hhandle
          cases hhandle
          exact absurd hlast hactive
        · simp only [hlookup, Option.map_some] at hhandle
          obtain ⟨reported, hpush, -⟩ := Option.bind_eq_some_iff.mp hhandle
          have hjoined := (pushMessage_eq_some.mp hpush).1
          change lookupDeployment outcome.sid world.process.activeDeployments = _ at hlookup
          change world.process.joined = true at hjoined
          simp [hlookup, hjoined]

theorem Service.Minded.garden (h : service.Minded) {event : Event}
    (hidle : ∀ reading, event = .handle reading → service.taking = false)
    (hkept : service.kept (.garden event) = true) : (service.garden event).Minded := by
  intro hflag
  cases event with
  | deliver incoming => exact h hflag
  | finish id ending =>
    change _ ∨ _ ∨ _ ∨ (service.world.step _).process.activeDeployments ≠ []
    rw [active_step (by simp)]
    exact h hflag
  | handle reading =>
    have hnot := hidle reading rfl
    have hstays : service.world.loses reading = false := by simpa [Service.kept, hnot] using hkept
    have hchecks : (service.garden (.handle reading)).checks =
        if service.world.completes = true then service.checks + 1 else service.checks := by
      unfold Service.garden
      simp only [hstays, Bool.false_eq_true, if_false]
    by_cases hcompletes : service.world.completes = true
    · refine Or.inr (Or.inl ?_)
      rw [hchecks, if_pos hcompletes]
      exact Nat.succ_pos _
    · rcases h hflag with hasking | hcheck | htaking | hactive
      · exact Or.inl hasking
      · refine Or.inr (Or.inl ?_)
        rw [hchecks, if_neg hcompletes]
        exact hcheck
      · exact Or.inr (Or.inr (Or.inl htaking))
      · refine Or.inr (Or.inr (Or.inr fun hlast => ?_))
        exact hcompletes (completes_of_last hstays hactive hlast)

theorem Service.Minded.step (h : service.Minded) (hkept : service.kept event = true) :
    (service.step event).Minded := by
  cases event with
  | garden event =>
    rcases service.step_garden event with ⟨hstep, -⟩ | ⟨hstep, hidle⟩
    · rw [hstep]
      exact h
    · rw [hstep]
      exact h.garden hidle hkept
  | request => exact fun _ => Or.inl (Nat.succ_pos _)
  | tell found =>
    unfold Service.step
    dsimp only
    split
    · exact h
    · intro _
      have hfound : found = true := hkept
      refine Or.inr (Or.inl ?_)
      change 0 < if found = true then service.checks + 1 else service.checks
      rw [if_pos hfound]
      exact Nat.succ_pos _
  | check =>
    unfold Service.step
    dsimp only
    split
    · exact h
    · intro hflag
      by_cases hactive : service.world.process.activeDeployments = []
      · refine Or.inr (Or.inr (Or.inl ?_))
        change (service.world.process.activeDeployments.isEmpty && service.pendingReload) = true
        rw [hactive, hflag]
        rfl
      · exact Or.inr (Or.inr (Or.inr hactive))
  | erase =>
    unfold Service.step
    dsimp only
    split
    · exact fun hflag => Bool.noConfusion hflag
    · exact h

/-- What each step of a kind keeps, a run of such steps keeps. -/
theorem Service.keeps_throughout {kind : Service → ServiceEvent → Bool} (holds : Service → Prop)
    (hstep : ∀ service event, holds service → kind service event = true →
      holds (service.step event)) {events : List ServiceEvent}
    (hrun : Service.Throughout kind service events = true) (h : holds service) :
    holds (service.exec events) := by
  induction events generalizing service with
  | nil => exact h
  | cons event rest ih =>
    obtain ⟨hfirst, hrest⟩ := Bool.and_eq_true_iff.mp hrun
    exact ih hrest (hstep service event h hfirst)

theorem sound_start : Service.Sound {} where
  placed := fun _ hmem => absurd hmem List.not_mem_nil
  flag := ⟨fun hflag => Bool.noConfusion hflag, fun hun => absurd hun not_unserved_nil⟩
  taking := fun htaking => Bool.noConfusion htaking
  answers := fun _ _ _ heq =>
    absurd heq.symm (List.append_ne_nil_of_right_ne_nil _ (List.cons_ne_nil _ _))

theorem careful_start : Service.Careful {} where
  inv := inv_start
  rest := fun _ hmem => absurd hmem List.not_mem_nil

/-- Throughout a run in which the process is not lost with work in progress. -/
theorem careful_of_guarded {events : List ServiceEvent}
    (hrun : Service.Throughout Service.guarded {} events = true) :
    (Service.exec {} events).Sound ∧ (Service.exec {} events).Careful := by
  refine Service.keeps_throughout (fun service => service.Sound ∧ service.Careful) ?_ hrun
    ⟨sound_start, careful_start⟩
  rintro service event ⟨hsound, hcareful⟩ hguard
  exact ⟨hsound.step event, hcareful.step hsound hguard⟩

/-- Throughout a run in which the process is not lost. -/
theorem minded_of_kept {events : List ServiceEvent}
    (hrun : Service.Throughout Service.kept {} events = true) :
    (Service.exec {} events).Sound ∧ (Service.exec {} events).Minded := by
  refine Service.keeps_throughout (fun service => service.Sound ∧ service.Minded) ?_ hrun
    ⟨sound_start, fun hflag => Bool.noConfusion hflag⟩
  rintro service event ⟨hsound, hminded⟩ hkept
  exact ⟨hsound.step event, hminded.step hkept⟩

end Runs

/-- While the process is not lost with work in progress, a reload finds nothing in progress and
everything reported, and it answers a request that no other has. While the process is not lost
at all, a request that is not answered is about to be, or a check of it is sent or about to be,
or there is a deployment in progress, which will be followed by a check. -/
theorem reloads_at_rest (events : List ServiceEvent)
    (hguarded : Service.Throughout Service.guarded {} events = true) :
    (∀ earlier world later, (Service.exec {} events).log = earlier ++ .reloaded world :: later →
      world.AtRest ∧ Unserved earlier) ∧
    (Service.Throughout Service.kept {} events = true → Unserved (Service.exec {} events).log →
      (Service.exec {} events).taking = true ∨ 0 < (Service.exec {} events).checks ∨
        0 < (Service.exec {} events).asking ∨ (Service.exec {} events).world.places ≠ []) := by
  obtain ⟨hsound, hcareful⟩ := careful_of_guarded hguarded
  refine ⟨?_, ?_⟩
  · intro earlier world later hlog
    refine ⟨hcareful.rest world ?_, hsound.answers earlier world later hlog⟩
    rw [hlog]
    exact List.mem_append_right _ List.mem_cons_self
  · intro hkept hun
    rcases (minded_of_kept hkept).2 (hsound.flag.mpr hun) with hasking | hcheck | htaking | hactive
    · exact Or.inr (Or.inr (Or.inl hasking))
    · exact Or.inr (Or.inl hcheck)
    · exact Or.inl htaking
    · refine Or.inr (Or.inr (Or.inr fun hnone => ?_))
      obtain ⟨deployment, hmem⟩ := List.exists_mem_of_ne_nil _ hactive
      have hplace := hsound.placed deployment hmem
      rw [hnone] at hplace
      cases hplace

/-- A reload that is asked for during a deployment comes after it. -/
def reloadAfterDeployment : List ServiceEvent :=
  (connection ++ dispatch).map .garden ++ [.request, .tell true, .check,
    .garden (.finish 0 (.ok .success)), .garden (.handle ⟨0, true⟩), .check, .erase]

theorem reloads_at_rest_after_deployment :
    ∃ world, (Service.exec {} reloadAfterDeployment).log = [.requested, .reloaded world] ∧
      world.AtRest ∧ world.finished = [⟨0, 7, .success⟩] := by
  obtain ⟨hrest, -⟩ := reloads_at_rest reloadAfterDeployment (by decide)
  exact ⟨_, rfl, (hrest [.requested] _ [] rfl).1, rfl⟩

end Sower.Garden.Socket
