import Sower.Server.Jobs

/-!
# Superseded deployments

A reconnecting garden's unresolved deployments that are linked to an overdue
subscription are canceled, and the overdue subscriptions are deployed afresh.
The cancellation asks only whether the subscription is overdue; the fresh
deployment may still be refused, find no seed or repeat another one.
-/

namespace Sower.Server

open Sower.Calendar Sower.Policy Sower.Wire Process Proc Keyed Interleaving Contract

section Replacement

/-- The garden's overdue subscriptions; none when a schedule cannot be evaluated. -/
def overdueSubscriptions (platform : Platform) (garden : Garden) (now : DateTime) (db : Db) :
    List Subscription :=
  ((catchUpOverdueSchedules platform garden now).result db).toOption.getD []

/-- The deployment is unresolved and linked to an overdue subscription. -/
def Superseded (platform : Platform) (garden : Garden) (now : DateTime) (db : Db)
    (row : Deployment) : Prop :=
  row.gardenId = garden.id ∧ row.state.terminal = false ∧
    (db.load platform row).superseded (overdueSubscriptions platform garden now db) = true

/-- The subscriptions that the policies let through, each evaluated at the next
reading of the clock. A policy that cannot be read ends the list. -/
def accepted (platform : Platform) (clock : ℕ → DateTime) :
    ℕ → List Subscription → List Subscription
  | _, [] => []
  | reads, subscription :: rest =>
    match evaluate platform.tzdb (.list subscription.policy) .scheduled (clock reads)
        (some subscription.seedType) subscription.timezone with
    | .error _ => []
    | .ok (.allow _) => subscription :: accepted platform clock (reads + 1) rest
    | .ok (.confirm _) => accepted platform clock (reads + 1) rest
    | .ok .deny => accepted platform clock (reads + 1) rest

/-- The overdue subscriptions that a job is started for. -/
def deployable (platform : Platform) (garden : Garden) (now : DateTime) (db : Db) :
    List Subscription :=
  accepted platform db.clock db.reads (overdueSubscriptions platform garden now db)

/-- The jobs that a reconcile starts, in the store it leaves. -/
def reconcilePool (platform : Platform) (garden : Garden) (now : DateTime) (db : Db) :
    Pool Db Event :=
  ⟨⟨(reconcileDeploymentsOnConnect platform garden now).final db, []⟩,
    ((reconcileDeploymentsOnConnect platform garden now).result db).map (Job.program platform)⟩

/-- The reconcile cancels the deployment as superseded. -/
def CanceledAsSuperseded (platform : Platform) (garden : Garden) (now : DateTime) (db : Db)
    (row : Deployment) : Prop :=
  row ∈ db.deployments.rows ∧ .audit row.id .canceled .superseded (some garden.id) none ∈
    (reconcileDeploymentsOnConnect platform garden now).events db

/-- In every schedule of its jobs the reconcile dispatches a new deployment for an
overdue subscription that the deployment is linked to. -/
def Replaced (platform : Platform) (garden : Garden) (now : DateTime) (db : Db)
    (row : Deployment) : Prop :=
  ∀ steps : List ℕ, ((reconcilePool platform garden now db).exec (steps.map .act)).Finished →
    ∃ i, ∃ subscription ∈ overdueSubscriptions platform garden now db,
      subscription.id ∈ row.subscriptions ∧
        DispatchedFor ((reconcilePool platform garden now db).exec (steps.map .act)).world.log i
          subscription.id

/-- Some overdue subscription of the deployment passes its policy and has a seed;
deployments with that content stand in the way only if they are superseded as
well, and no other job is to deploy it for a foreign subscription. -/
def Replaceable (platform : Platform) (garden : Garden) (now : DateTime) (db : Db)
    (row : Deployment) : Prop :=
  ∃ subscription ∈ deployable platform garden now db, subscription.id ∈ row.subscriptions ∧
    ∃ content, db.contentFor platform subscription = some content ∧
      (∀ other ∈ db.deployments.rows, Blocking garden.id content other →
        Superseded platform garden now db other) ∧
      ∀ other ∈ deployable platform garden now db,
        db.contentFor platform other = some content → other.id ∈ row.subscriptions

end Replacement

section Steps

/-- Keys of the rows that keep the garden from deploying the content. -/
def Db.blockers (db : Db) (gardenId : ℕ) (content : String) : Set ℕ :=
  {id | ∃ row ∈ db.deployments.rows, row.id = id ∧ Blocking gardenId content row}

/-- What the steps of a reconcile leave as it was, and the rows they unblock. -/
structure Frees (ids : Set ℕ) (db db' : Db) : Prop where
  seeds : db'.seeds = db.seeds
  subscriptions : db'.subscriptions = db.subscriptions
  clock : db'.clock = db.clock
  reads : db'.reads = db.reads
  blockers : ∀ gardenId content, db'.blockers gardenId content = db.blockers gardenId content \ ids

variable {ids ids' : Set ℕ} {db db' db'' : Db}

theorem Frees.refl (db : Db) : Frees ∅ db db :=
  ⟨rfl, rfl, rfl, rfl, fun _ _ => Set.sdiff_empty.symm⟩

theorem Frees.trans (h : Frees ids db db') (h' : Frees ids' db' db'') :
    Frees (ids ∪ ids') db db'' where
  seeds := h'.seeds.trans h.seeds
  subscriptions := h'.subscriptions.trans h.subscriptions
  clock := h'.clock.trans h.clock
  reads := h'.reads.trans h.reads
  blockers gardenId content := by
    rw [h'.blockers, h.blockers, Set.sdiff_sdiff]

theorem Frees.trans_empty (h : Frees ∅ db db') (h' : Frees ∅ db' db'') : Frees ∅ db db'' := by
  simpa using h.trans h'

/-- A step that leaves the tables and the clock as they are. -/
theorem Frees.of_tables (hseeds : db'.seeds = db.seeds)
    (hsubscriptions : db'.subscriptions = db.subscriptions) (hclock : db'.clock = db.clock)
    (hreads : db'.reads = db.reads) (hdeployments : db'.deployments = db.deployments) :
    Frees ∅ db db' := by
  refine ⟨hseeds, hsubscriptions, hclock, hreads, fun gardenId content => ?_⟩
  rw [Set.sdiff_empty, Db.blockers, hdeployments, Db.blockers]

/-- No cancellation is audited. -/
def Event.NotSuperseded (garden : Garden) (e : Event) : Prop :=
  ∀ id, e ≠ .audit id .canceled .superseded (some garden.id) none

/-- The program only reads and logs nothing. -/
abbrev Silent {α : Type} (program : Program α) : Prop := program.Stays Eq fun _ => False

/-- The program only reads. -/
abbrev Reads (garden : Garden) {α : Type} (program : Program α) : Prop :=
  program.Stays Eq (Event.NotSuperseded garden)

/-- The program unblocks nothing and cancels nothing. -/
abbrev Idles (garden : Garden) {α : Type} (program : Program α) : Prop :=
  program.Stays (Frees ∅) (Event.NotSuperseded garden)

variable {platform : Platform} {garden : Garden} {now : DateTime} {α : Type}

theorem silent_done (value : α) : Silent (.done value : Program α) := stays_done Eq.refl value

theorem silent_read (f : Db → α) : Silent (.read f) := stays_atomic fun db => ⟨rfl, by simp⟩

theorem silent_scheduleIsOverdue (subscription : Subscription) :
    Silent (scheduleIsOverdue platform now subscription) := by
  unfold scheduleIsOverdue
  split
  · exact silent_done _
  · split
    · exact silent_done _
    · exact silent_done _
    · dsimp only
      split
      · exact silent_done _
      · refine (silent_read _).bind Eq.trans fun last => ?_
        cases last with
        | none => exact silent_done _
        | some deployedAt => exact silent_done _

theorem silent_filterOverdue (subscriptions : List Subscription) :
    Silent (filterOverdue platform now subscriptions) := by
  induction subscriptions with
  | nil => exact silent_done _
  | cons subscription rest ih =>
    unfold filterOverdue
    refine (silent_scheduleIsOverdue subscription).bind Eq.trans ?_
    rintro (reason | overdue)
    · exact silent_done _
    · refine ih.bind Eq.trans ?_
      rintro (reason | others)
      · exact silent_done _
      · exact silent_done _

theorem silent_catchUp : Silent (catchUpOverdueSchedules platform garden now) :=
  (silent_read _).bind Eq.trans fun scheduled => silent_filterOverdue scheduled

/-- A silent program only has a result. -/
theorem Silent.run_eq {program : Program α} (h : Silent program) (db : Db) :
    program.run db = (program.result db, db, []) := by
  obtain ⟨hfinal, hevents⟩ := h db
  exact Prod.ext rfl (Prod.ext hfinal.symm (List.eq_nil_iff_forall_not_mem.mpr hevents))

/-- A silent program audits nothing. -/
theorem Silent.reads {program : Program α} (h : Silent program) : Reads garden program :=
  h.mono (fun _ _ => id) fun _ => False.elim

theorem reads_listUnresolved : Reads garden (listUnresolved platform garden) :=
  stays_atomic fun db => ⟨rfl, by simp [Event.NotSuperseded]⟩

theorem silent_filterReplayable (deployments : List Loaded) :
    Silent (filterReplayable garden deployments) := by
  induction deployments with
  | nil => exact silent_done _
  | cons loaded rest ih =>
    unfold filterReplayable
    have hauthorize : Silent (authorizeReplay garden loaded) := by
      unfold authorizeReplay
      split
      · exact silent_read _
      · exact silent_done _
    exact hauthorize.bind Eq.trans fun _ => ih.bind Eq.trans fun _ => silent_done _

/-- Marking keeps unresolved deployments unresolved and touches no others. -/
theorem frees_markDispatched (db : Db) (keys : List ℕ) (dispatchedAt : DateTime) :
    Frees ∅ db (db.markDispatched keys dispatchedAt) := by
  refine ⟨rfl, rfl, rfl, rfl, fun gardenId content => ?_⟩
  rw [Set.sdiff_empty]
  ext id
  have hblocks (old : Deployment) (hopen : (decide (old.id ∈ keys) && !old.state.terminal) = true) :
      (old.redispatch dispatchedAt).blocks = old.blocks := by
    have hstate : old.state.terminal = false := by simpa using (Bool.and_eq_true_iff.mp hopen).2
    have hstate' : (old.redispatch dispatchedAt).state.terminal = false := rfl
    unfold Deployment.blocks
    rw [hstate, hstate']
    rfl
  constructor
  · rintro ⟨row, hrow, rfl, hgarden, hcontent, hblocking⟩
    obtain ⟨old, hold, rfl⟩ := (Table.mem_update (Deployment.redispatch_id dispatchedAt)).mp hrow
    refine ⟨old, hold, ?_⟩
    split at hgarden
    · rename_i hopen
      rw [if_pos hopen] at hcontent hblocking ⊢
      exact ⟨rfl, hgarden, hcontent, (hblocks old hopen) ▸ hblocking⟩
    · rename_i hclosed
      rw [if_neg hclosed] at hcontent hblocking ⊢
      exact ⟨rfl, hgarden, hcontent, hblocking⟩
  · rintro ⟨old, hold, rfl, hgarden, hcontent, hblocking⟩
    refine ⟨_, (Table.mem_update (Deployment.redispatch_id dispatchedAt)).mpr ⟨old, hold, rfl⟩, ?_⟩
    split
    · rename_i hopen
      exact ⟨rfl, hgarden, hcontent, (hblocks old hopen).trans hblocking⟩
    · exact ⟨rfl, hgarden, hcontent, hblocking⟩

theorem idles_markDeploymentsDispatched (deployments : List Loaded) (dispatchedAt : DateTime) :
    Idles garden (markDeploymentsDispatched deployments dispatchedAt) := by
  unfold markDeploymentsDispatched
  split
  · exact stays_done Frees.refl _
  · exact stays_atomic fun db =>
      ⟨frees_markDispatched db _ dispatchedAt, by simp [Event.NotSuperseded]⟩

theorem idles_replay (deployments : List Loaded) :
    Idles garden (deployments.forM (replay garden) : Program PUnit) := by
  refine stays_forM Frees.refl Frees.trans_empty fun loaded _ => ?_
  have hrequest : Idles garden newRequestId :=
    stays_atomic fun db => ⟨.of_tables rfl rfl rfl rfl rfl, by simp⟩
  refine hrequest.bind Frees.trans_empty fun requestId => ?_
  exact stays_atomic fun db => ⟨.refl db, by simp [Event.NotSuperseded]⟩

/-- A canceled deployment keeps nothing from being deployed. -/
theorem frees_cancel (db : Db) (id : ℕ) :
    Frees {id} db (db.lockedUpdate id { state := .canceled, result := some .failure }).1.1 := by
  rcases lockedUpdate_cases db id { state := .canceled, result := some .failure } with
    ⟨reason, h⟩ | ⟨locked, hlocked, _, h⟩
  · have hmissing : db.deployments.find? id = none := by
      unfold Db.lockedUpdate at h
      split at h
      · assumption
      · simp [State.terminal] at h
    rw [h]
    refine ⟨rfl, rfl, rfl, rfl, fun gardenId content => (Set.sdiff_singleton_eq_self ?_).symm⟩
    rintro ⟨row, hrow, hid, _⟩
    exact Table.find?_eq_none_iff.mp hmissing row hrow hid
  · rw [h]
    refine ⟨rfl, rfl, rfl, rfl, fun gardenId content => ?_⟩
    ext id'
    constructor
    · rintro ⟨row, hrow, rfl, hblocking⟩
      obtain ⟨old, hold, rfl⟩ := mem_setDeployment.mp hrow
      by_cases hid : old.id = id
      · rw [if_pos (by simpa using hid)] at hblocking
        exact absurd hblocking.2.2 (by simp [Deployment.blocks, Deployment.apply, State.terminal])
      · rw [if_neg (by simpa using hid)] at hblocking ⊢
        exact ⟨⟨old, hold, rfl, hblocking⟩, hid⟩
    · rintro ⟨⟨old, hold, rfl, hblocking⟩, hid⟩
      refine ⟨old, mem_setDeployment.mpr ⟨old, hold, if_neg ?_⟩, rfl, hblocking⟩
      simpa using hid

/-- Canceling deployments one after the other unblocks just them and audits each. -/
theorem cancelSuperseded_forM (garden : Garden) (deployments : List Loaded) (db : Db) :
    Frees {id | id ∈ deployments.map fun loaded => loaded.deployment.id} db
        ((deployments.forM (cancelSuperseded garden) : Program PUnit).final db) ∧
      ∀ id, .audit id .canceled .superseded (some garden.id) none ∈
          (deployments.forM (cancelSuperseded garden) : Program PUnit).events db ↔
        id ∈ deployments.map fun loaded => loaded.deployment.id := by
  induction deployments generalizing db with
  | nil =>
    refine ⟨by simpa using Frees.refl db, fun id => ?_⟩
    simp
  | cons loaded rest ih =>
    change Frees _ db ((cancelSuperseded garden loaded >>= fun _ =>
      rest.forM (cancelSuperseded garden)).final db) ∧ ∀ id, _ ∈ (cancelSuperseded garden loaded >>=
        fun _ => rest.forM (cancelSuperseded garden)).events db ↔ _
    have hfinal : (cancelSuperseded garden loaded).final db =
        (db.lockedUpdate loaded.deployment.id { state := .canceled, result := some .failure }).1.1 :=
      rfl
    have hevents (id : ℕ) : .audit id .canceled .superseded (some garden.id) none ∈
        (cancelSuperseded garden loaded).events db ↔ id = loaded.deployment.id := by
      unfold cancelSuperseded updateDeployment
      rw [events_bind, events_atomic]
      rcases lockedUpdate_cases db loaded.deployment.id
        { state := .canceled, result := some .failure } with ⟨_, h⟩ | ⟨_, _, _, h⟩ <;> rw [h] <;> simp
    obtain ⟨hrest, haudited⟩ := ih ((cancelSuperseded garden loaded).final db)
    rw [final_bind, events_bind]
    refine ⟨?_, fun id => ?_⟩
    · have hunion : {id | id ∈ (loaded :: rest).map fun loaded => loaded.deployment.id} =
          {loaded.deployment.id} ∪ {id | id ∈ rest.map fun loaded => loaded.deployment.id} := by
        ext id
        simp
      rw [hunion]
      exact (hfinal ▸ frees_cancel db loaded.deployment.id).trans hrest
    · rw [List.mem_append, hevents, haudited, List.map_cons, List.mem_cons]

/-- What a refused or raised request leads to, and what an accepted one. -/
theorem deployForGarden_run (platform : Platform) (garden : Garden) (subscription : Subscription)
    (db : Db) :
    let request := deployForGarden platform garden subscription
      { actorSid := some garden.id, eventReason := some .scheduleTriggered } none
    match evaluate platform.tzdb (.list subscription.policy) .scheduled (db.clock db.reads)
        (some subscription.seedType) subscription.timezone with
    | .error _ => request.run db = (.error .raised, db.tick, [])
    | .ok (.allow _) => request.run db = (.ok (scheduledJob garden db.requests subscription),
        { db.tick with requests := db.requests + 1 }, [])
    | .ok (.confirm _) => request.run db = (.error .confirmationRequired, db.tick, [])
    | .ok .deny => request.run db = (.error .policyDenied, db.tick, []) := by
  unfold deployForGarden
  simp only [Option.elim, triggerForReason]
  have hclock : utcNow.run db = (db.clock db.reads, db.tick, []) := rfl
  rcases hevaluate : evaluate platform.tzdb (.list subscription.policy) .scheduled
      (db.clock db.reads) (some subscription.seedType) subscription.timezone with
    reason | allowed | confirmed | _
  all_goals
    refine Proc.run_bind_eq hclock ?_
    rw [hevaluate]
    rfl

/-- The fresh deployments: a job for each accepted subscription, no other effect
than readings of the clock and request identifiers. -/
theorem deployOverdue_run (platform : Platform) (garden : Garden)
    (subscriptions : List Subscription) (db : Db) :
    ∃ jobs db', (deployOverdue platform garden subscriptions).run db = (jobs, db', []) ∧
      List.Forall₂ (fun job subscription =>
        ∃ requestId, job = scheduledJob garden requestId subscription) jobs
          (accepted platform db.clock db.reads subscriptions) ∧
      db'.seeds = db.seeds ∧ db'.subscriptions = db.subscriptions ∧
        db'.deployments = db.deployments := by
  induction subscriptions generalizing db with
  | nil => exact ⟨[], db, rfl, .nil, rfl, rfl, rfl⟩
  | cons subscription rest ih =>
    unfold deployOverdue accepted
    have hrequest := deployForGarden_run platform garden subscription db
    rcases hevaluate : evaluate platform.tzdb (.list subscription.policy) .scheduled
        (db.clock db.reads) (some subscription.seedType) subscription.timezone with
      reason | allowed | confirmed | _ <;> rw [hevaluate] at hrequest
    · exact ⟨[], db.tick, Proc.run_bind_eq hrequest rfl, .nil, rfl, rfl, rfl⟩
    · obtain ⟨jobs, db', hrun, hjobs, hkept⟩ := ih { db.tick with requests := db.requests + 1 }
      refine ⟨_, db', Proc.run_bind_eq hrequest (Proc.run_bind_eq hrun rfl), ?_, hkept⟩
      exact .cons ⟨_, rfl⟩ hjobs
    · obtain ⟨jobs, db', hrun, hjobs, hkept⟩ := ih db.tick
      exact ⟨jobs, db', Proc.run_bind_eq hrequest hrun, hjobs, hkept⟩
    · obtain ⟨jobs, db', hrun, hjobs, hkept⟩ := ih db.tick
      exact ⟨jobs, db', Proc.run_bind_eq hrequest hrun, hjobs, hkept⟩

/-- The deployments that the reconcile cancels. -/
def supersededDeployments (platform : Platform) (garden : Garden) (now : DateTime) (db : Db) :
    List Loaded :=
  ((listUnresolved platform garden).result db).filter
    (·.superseded (overdueSubscriptions platform garden now db))

/-- The listed deployments that satisfy a condition. -/
theorem mem_listUnresolved {id : ℕ} (p : Loaded → Bool) :
    id ∈ (((listUnresolved platform garden).result db).filter p).map
        (fun loaded => loaded.deployment.id) ↔
      ∃ row ∈ db.deployments.rows, row.id = id ∧ row.gardenId = garden.id ∧
        row.state.terminal = false ∧ p (db.load platform row) = true := by
  unfold listUnresolved select
  rw [result_atomic]
  simp only [List.mem_map, List.mem_filter, waitingFirst, List.mem_insertionSort]
  constructor
  · rintro ⟨_, ⟨⟨row, ⟨hrow, hcond⟩, rfl⟩, hp⟩, rfl⟩
    obtain ⟨hgarden, hopen⟩ : row.gardenId = garden.id ∧ row.state.terminal = false := by
      simpa using hcond
    exact ⟨row, hrow, rfl, hgarden, hopen, hp⟩
  · rintro ⟨row, hrow, rfl, hgarden, hopen, hp⟩
    exact ⟨_, ⟨⟨row, ⟨hrow, by simp [hgarden, hopen]⟩, rfl⟩, hp⟩, rfl⟩

theorem mem_supersededDeployments {id : ℕ} :
    id ∈ (supersededDeployments platform garden now db).map (fun loaded => loaded.deployment.id) ↔
      ∃ row ∈ db.deployments.rows, row.id = id ∧ Superseded platform garden now db row :=
  mem_listUnresolved _

/-- What a reconcile comes to. -/
structure Reconciled (platform : Platform) (garden : Garden) (now : DateTime) (db : Db)
    (jobs : List Job) (db' : Db) (es : List Event) : Prop where
  seeds : db'.seeds = db.seeds
  subscriptions : db'.subscriptions = db.subscriptions
  blockers : ∀ gardenId content, db'.blockers gardenId content = db.blockers gardenId content \
    {id | ∃ row ∈ db.deployments.rows, row.id = id ∧ Superseded platform garden now db row}
  jobs : List.Forall₂ (fun job subscription =>
    ∃ requestId, job = scheduledJob garden requestId subscription) jobs
      (deployable platform garden now db)
  audited : ∀ id, .audit id .canceled .superseded (some garden.id) none ∈ es ↔
    ∃ row ∈ db.deployments.rows, row.id = id ∧ Superseded platform garden now db row

/-- The steps behind the cancellations. -/
theorem replay_deploy (platform : Platform) (garden : Garden) (now : DateTime)
    (kept : List Loaded) (overdue : List Subscription) (db : Db) :
    let rest : Program (List Job) := do
      let toReplay ← filterReplayable garden kept
      markDeploymentsDispatched toReplay now
      (toReplay.forM (replay garden) : Program PUnit)
      deployOverdue platform garden overdue
    List.Forall₂ (fun job subscription =>
        ∃ requestId, job = scheduledJob garden requestId subscription) (rest.result db)
        (accepted platform db.clock db.reads overdue) ∧
      (rest.final db).seeds = db.seeds ∧ (rest.final db).subscriptions = db.subscriptions ∧
      (∀ gardenId content, (rest.final db).blockers gardenId content =
        db.blockers gardenId content) ∧
      ∀ e ∈ rest.events db, e.NotSuperseded garden := by
  intro rest
  obtain ⟨hfilter, hfiltered⟩ := (silent_filterReplayable kept).reads db
  let toReplay := (filterReplayable garden kept).result db
  obtain ⟨hmark, hmarked⟩ := (idles_markDeploymentsDispatched toReplay now : Idles garden _) db
  let marked := (markDeploymentsDispatched toReplay now).final db
  obtain ⟨hreplay, hreplayed⟩ := (idles_replay toReplay : Idles garden _) marked
  let replayed := (toReplay.forM (replay garden) : Program PUnit).final marked
  obtain ⟨jobs, last, hrun, hjobs, hseeds, hsubscriptions, hdeployments⟩ :=
    deployOverdue_run platform garden overdue replayed
  have hfrees : Frees ∅ db replayed := hmark.trans_empty hreplay
  have hread : (filterReplayable garden kept).run db =
      (toReplay, db, (filterReplayable garden kept).events db) :=
    Prod.ext rfl (Prod.ext hfilter.symm rfl)
  have hrest : rest.run db = (jobs, last, (filterReplayable garden kept).events db ++
      ((markDeploymentsDispatched toReplay now).events db ++
        ((toReplay.forM (replay garden) : Program PUnit).events marked ++ []))) :=
    Proc.run_bind_eq hread (Proc.run_bind_eq rfl (Proc.run_bind_eq rfl hrun))
  rw [result, final, events, hrest]
  refine ⟨?_, hseeds.trans hfrees.seeds, hsubscriptions.trans hfrees.subscriptions, ?_, ?_⟩
  · rw [← hfrees.clock, ← hfrees.reads]
    exact hjobs
  · intro gardenId content
    have hlast : last.blockers gardenId content = replayed.blockers gardenId content := by
      rw [Db.blockers, hdeployments, Db.blockers]
    rw [hlast, hfrees.blockers, Set.sdiff_empty]
  · intro e he
    rcases List.mem_append.mp he with hearly | hlater
    · exact hfiltered e hearly
    rcases List.mem_append.mp hlater with hearly | hlater
    · exact hmarked e hearly
    · exact hreplayed e (by simpa using hlater)

theorem reconciled (platform : Platform) (garden : Garden) (now : DateTime) (db : Db) :
    Reconciled platform garden now db
      ((reconcileDeploymentsOnConnect platform garden now).result db)
      ((reconcileDeploymentsOnConnect platform garden now).final db)
      ((reconcileDeploymentsOnConnect platform garden now).events db) := by
  unfold reconcileDeploymentsOnConnect
  rw [result_bind, final_bind, events_bind]
  obtain ⟨hfinal, hquiet⟩ := silent_catchUp.reads db
  rw [← hfinal]
  rcases hoverdue : (catchUpOverdueSchedules platform garden now).result db with reason | overdue
  · have hnone : overdueSubscriptions platform garden now db = [] := by
      rw [overdueSubscriptions, hoverdue]
      rfl
    have hkept (row : Deployment) : ¬ Superseded platform garden now db row := by
      rintro ⟨_, _, hsuperseded⟩
      rw [hnone] at hsuperseded
      simp [Loaded.superseded] at hsuperseded
    refine ⟨rfl, rfl, ?_, ?_, ?_⟩
    · intro gardenId content
      simp [hkept]
    · rw [deployable, hnone]
      exact .nil
    · intro id
      simp only [hkept, and_false, exists_false, iff_false]
      intro hmem
      rw [List.mem_append] at hmem
      exact hquiet _ (hmem.resolve_right List.not_mem_nil) id rfl
  · have hsome : overdueSubscriptions platform garden now db = overdue := by
      rw [overdueSubscriptions, hoverdue]
      rfl
    obtain ⟨hlist, hlisted⟩ := (reads_listUnresolved : Reads garden (listUnresolved platform garden)) db
    dsimp only
    rw [result_bind, final_bind, events_bind, ← hlist]
    have hcancel : ((listUnresolved platform garden).result db).filter (·.superseded overdue) =
        supersededDeployments platform garden now db := by
      rw [supersededDeployments, hsome]
    rw [hcancel]
    obtain ⟨hfrees, haudited⟩ := cancelSuperseded_forM garden
      (supersededDeployments platform garden now db) db
    simp only [mem_supersededDeployments] at hfrees haudited
    obtain ⟨hjobs, hseeds, hsubscriptions, hblockers, hreplayed⟩ := replay_deploy platform garden now
      (((listUnresolved platform garden).result db).filter (!·.superseded overdue)) overdue
      (((supersededDeployments platform garden now db).forM (cancelSuperseded garden) :
        Program PUnit).final db)
    rw [result_bind, final_bind, events_bind]
    refine ⟨hseeds.trans hfrees.seeds, hsubscriptions.trans hfrees.subscriptions, ?_, ?_, ?_⟩
    · intro gardenId content
      rw [hblockers, hfrees.blockers]
    · rw [deployable, hsome, ← hfrees.clock, ← hfrees.reads]
      exact hjobs
    · intro id
      rw [← haudited]
      refine ⟨fun hmem => ?_, fun hmem => ?_⟩
      · rcases List.mem_append.mp hmem with hearly | hlater
        · exact absurd rfl (hquiet _ hearly id)
        rcases List.mem_append.mp hlater with hearly | hlater
        · exact absurd rfl (hlisted _ hearly id)
        rcases List.mem_append.mp hlater with hcanceled | hlater
        · exact hcanceled
        · exact absurd rfl (hreplayed _ hlater id)
      · exact List.mem_append_right _ (List.mem_append_right _ (List.mem_append_left _ hmem))

end Steps

section Replaced

variable {platform : Platform} {garden : Garden} {now : DateTime} {db : Db}

/-- Overdue subscriptions are among the scheduled ones. -/
theorem filterOverdue_subset {subscriptions overdue : List Subscription}
    (h : (filterOverdue platform now subscriptions).result db = .ok overdue) :
    overdue ⊆ subscriptions := by
  induction subscriptions generalizing overdue with
  | nil =>
    cases h
    exact List.Subset.refl _
  | cons subscription rest ih =>
    unfold filterOverdue at h
    obtain ⟨hfinal, _⟩ := (silent_scheduleIsOverdue subscription :
      Silent (scheduleIsOverdue platform now subscription)) db
    rw [result_bind, ← hfinal] at h
    rcases hdue : (scheduleIsOverdue platform now subscription).result db with reason | due
    · rw [hdue] at h
      cases h
    · rw [hdue] at h
      dsimp only at h
      rw [result_bind] at h
      rcases hothers : (filterOverdue platform now rest).result db with reason | others
      · rw [hothers] at h
        cases h
      · rw [hothers] at h
        cases h
        intro s hs
        split at hs
        · exact List.cons_subset_cons _ (ih hothers) hs
        · exact List.mem_cons_of_mem _ (ih hothers hs)

/-- They are stored and belong to the garden. -/
theorem overdue_owned {subscription : Subscription}
    (h : subscription ∈ overdueSubscriptions platform garden now db) :
    subscription ∈ db.subscriptions.rows ∧ subscription.gardenId = garden.id := by
  unfold overdueSubscriptions at h
  rcases hoverdue : (catchUpOverdueSchedules platform garden now).result db with reason | overdue
  · rw [hoverdue] at h
    cases h
  · rw [hoverdue] at h
    unfold catchUpOverdueSchedules at hoverdue
    rw [result_bind, result_read, final_read] at hoverdue
    obtain ⟨hrow, hcond⟩ := List.mem_filter.mp (filterOverdue_subset hoverdue h)
    exact ⟨hrow, (by simpa using hcond : subscription.gardenId = garden.id ∧ _).1⟩

theorem accepted_subset (clock : ℕ → DateTime) (reads : ℕ) (subscriptions : List Subscription) :
    accepted platform clock reads subscriptions ⊆ subscriptions := by
  induction subscriptions generalizing reads with
  | nil => exact List.Subset.refl _
  | cons subscription rest ih =>
    unfold accepted
    split
    · exact List.nil_subset _
    · exact List.cons_subset_cons _ (ih _)
    · exact List.subset_cons_of_subset _ (ih _)
    · exact List.subset_cons_of_subset _ (ih _)

theorem deployable_subset : deployable platform garden now db ⊆
    overdueSubscriptions platform garden now db := accepted_subset _ _ _

/-- The jobs of a reconcile with what they are started from. -/
def reconcileBatch (platform : Platform) (garden : Garden) (now : DateTime) (db : Db) : Batch where
  platform := platform
  garden := garden
  start := (reconcileDeploymentsOnConnect platform garden now).final db
  subscriptions := deployable platform garden now db
  jobs := (reconcileDeploymentsOnConnect platform garden now).result db
  scheduled := (reconciled platform garden now db).jobs
  owned := by
    intro subscription hmem
    obtain ⟨hrow, hgarden⟩ := overdue_owned (deployable_subset hmem)
    rw [(reconciled platform garden now db).subscriptions, Table.find?_of_mem hrow]
    exact ⟨hgarden, rfl⟩

/-- After the cancellations a content is free when every deployment that blocked it
was superseded. -/
theorem unblocked_iff (content : String) :
    (∀ row ∈ ((reconcileDeploymentsOnConnect platform garden now).final db).deployments.rows,
        ¬ Blocking garden.id content row) ↔
      ∀ row ∈ db.deployments.rows, Blocking garden.id content row →
        Superseded platform garden now db row := by
  have hblockers := (reconciled platform garden now db).blockers garden.id content
  constructor
  · intro hfree row hrow hblocking
    by_contra hkept
    have hleft : row.id ∈ db.blockers garden.id content \ {id | ∃ row ∈ db.deployments.rows,
        row.id = id ∧ Superseded platform garden now db row} := by
      refine ⟨⟨row, hrow, rfl, hblocking⟩, ?_⟩
      rintro ⟨row', hrow', hid, hsuperseded⟩
      rw [Table.eq_of_key hrow' hrow hid] at hsuperseded
      exact hkept hsuperseded
    rw [← hblockers] at hleft
    obtain ⟨row', hrow', _, hblocking'⟩ := hleft
    exact hfree row' hrow' hblocking'
  · intro hall row hrow hblocking
    have hmem : row.id ∈ ((reconcileDeploymentsOnConnect platform garden now).final
        db).blockers garden.id content := ⟨row, hrow, rfl, hblocking⟩
    rw [hblockers] at hmem
    obtain ⟨⟨old, hold, hid, hblocked⟩, hkept⟩ := hmem
    exact hkept ⟨old, hold, hid, hall old hold hblocked⟩

/-- A deployment is replaced just when it is replaceable. -/
theorem replaced_iff (platform : Platform) (garden : Garden) (now : DateTime) (db : Db)
    (row : Deployment) :
    Replaced platform garden now db row ↔ Replaceable platform garden now db row := by
  let linked : ℕ → Prop := fun id => ∃ subscription ∈ overdueSubscriptions platform garden now db,
    subscription.id = id ∧ id ∈ row.subscriptions
  have hcontent (subscription : Subscription) :
      (reconcileBatch platform garden now db).start.contentFor platform subscription =
        db.contentFor platform subscription :=
    congrArg (Option.map fun seed : Seed => computeContentHash platform [seed.id])
      (matchSeed_congr (reconciled platform garden now db).seeds subscription)
  have hlinked {subscription : Subscription} (hmem : subscription ∈ deployable platform garden now db) :
      linked subscription.id ↔ subscription.id ∈ row.subscriptions :=
    ⟨fun ⟨_, _, _, hrow⟩ => hrow, fun hrow => ⟨subscription, deployable_subset hmem, rfl, hrow⟩⟩
  have hdispatches := (reconcileBatch platform garden now db).dispatches_linked_iff linked
  have hreplaced : Replaced platform garden now db row ↔ ∀ steps : List ℕ,
      ((reconcileBatch platform garden now db).pool.exec (steps.map .act)).Finished →
        ∃ i id, DispatchedFor ((reconcileBatch platform garden now db).pool.exec
          (steps.map .act)).world.log i id ∧ linked id := by
    refine forall_congr' fun steps => imp_congr Iff.rfl (exists_congr fun i => ?_)
    constructor
    · rintro ⟨subscription, hoverdue, hrow, hdispatched⟩
      exact ⟨subscription.id, hdispatched, subscription, hoverdue, rfl, hrow⟩
    · rintro ⟨_, hdispatched, subscription, hoverdue, rfl, hrow⟩
      exact ⟨subscription, hoverdue, hrow, hdispatched⟩
  rw [hreplaced, hdispatches]
  constructor
  · rintro ⟨subscription, hmem, hrow, content, hmatch, hfree, honly⟩
    refine ⟨subscription, hmem, (hlinked hmem).mp hrow, content, (hcontent _).symm.trans hmatch,
      (unblocked_iff content).mp hfree, ?_⟩
    intro other hother hsame
    exact (hlinked hother).mp (honly other hother ((hcontent other).trans hsame))
  · rintro ⟨subscription, hmem, hrow, content, hmatch, hfree, honly⟩
    refine ⟨subscription, hmem, (hlinked hmem).mpr hrow, content, (hcontent _).trans hmatch,
      (unblocked_iff content).mpr hfree, ?_⟩
    intro other hother hsame
    exact (hlinked hother).mpr (honly other hother ((hcontent other).symm.trans hsame))

/-- Superseded means replaced. -/
def ReplacesSuperseded (platform : Platform) (garden : Garden) (now : DateTime) (db : Db) : Prop :=
  ∀ row, CanceledAsSuperseded platform garden now db row → Replaced platform garden now db row

/-- A reconcile replaces what it cancels just when every superseded deployment is
replaceable. -/
theorem replacesSuperseded_iff (platform : Platform) (garden : Garden) (now : DateTime) (db : Db) :
    ReplacesSuperseded platform garden now db ↔ ∀ row ∈ db.deployments.rows,
      Superseded platform garden now db row → Replaceable platform garden now db row := by
  have hcanceled (row : Deployment) : CanceledAsSuperseded platform garden now db row ↔
      row ∈ db.deployments.rows ∧ Superseded platform garden now db row := by
    refine and_congr_right fun hrow => ?_
    rw [(reconciled platform garden now db).audited]
    constructor
    · rintro ⟨row', hrow', hid, hsuperseded⟩
      rwa [Table.eq_of_key hrow' hrow hid] at hsuperseded
    · intro hsuperseded
      exact ⟨row, hrow, rfl, hsuperseded⟩
  refine forall_congr' fun row => ?_
  rw [hcanceled, replaced_iff, and_imp]

/-- Every schedule runs daily at midnight. -/
def atMidnight : Platform :=
  { Platform.plain with
    crontab := fun _ => .previousRun fun naive => some (naive / 86400000000 * 86400000000) }

/-- The machine's subscription with a nightly schedule. -/
def nightly : Subscription := { hostSubscription with schedule := some "0 0 * * *" }

/-- The system was deployed at night and is forced again on the next day. -/
def redeployed : Db :=
  { subscribed with
    subscriptions := Table.empty.insert (fun id => { nightly with id := id }) fun _ => rfl
  }.after atMidnight
    [register "/nix/store/a", .processDeployment ⟨1, workstation, [nightly], {}⟩,
      .recordDeployment 1 .success 10000000,
      .processDeployment ⟨2, workstation, [nightly], { force := true }⟩]

/-- The forced deployment is canceled when the garden reconnects after midnight, and
the scheduled one only repeats the older success. -/
theorem replacesSuperseded_fails_when_repeated :
    ¬ ∀ (platform : Platform) (garden : Garden) (now : DateTime) (db : Db),
      ReplacesSuperseded platform garden now db := by
  intro h
  have haudit : Event.audit 2 .canceled .superseded (some workstation.id) none ∈
      (reconcileDeploymentsOnConnect atMidnight workstation 90000000000).events redeployed := by
    decide
  have hdeployable : deployable atMidnight workstation 90000000000 redeployed = [nightly] := by decide
  have hcontent : redeployed.contentFor atMidnight nightly = some "1" := by decide
  have hrows : (∃ row ∈ redeployed.deployments.rows, row.id = 2) ∧
      ∃ row ∈ redeployed.deployments.rows, row.gardenId = 1 ∧ row.contentHash = "1" ∧
        row.blocks = true ∧ row.state.terminal = true := by decide
  obtain ⟨⟨forced, hforced, hid⟩, older, holder, hgarden, hsame, hblocks, hterminal⟩ := hrows
  have hreplaced := h atMidnight workstation 90000000000 redeployed forced ⟨hforced, hid ▸ haudit⟩
  obtain ⟨subscription, hmem, _, content, hmatch, hfree, _⟩ := (replaced_iff _ _ _ _ _).mp hreplaced
  rw [hdeployable, List.mem_singleton] at hmem
  rw [hmem, hcontent, Option.some.injEq] at hmatch
  rw [← hmatch] at hfree
  obtain ⟨_, hopen, _⟩ := hfree older holder ⟨hgarden, hsame, hblocks⟩
  rw [hterminal] at hopen
  cases hopen

end Replaced

end Sower.Server
