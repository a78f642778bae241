import Sower.Server.Supersede

/-!
# The subscription of a direct deployment

A direct deployment is linked to a subscription of the seed's name and type when
there is one, for history and dedupe only. A reconnect cancels by links alone, so
the link decides what happens to the deployment while the subscription is overdue.
-/

namespace Sower.Server

open Sower.Calendar Sower.Policy Sower.Wire Process Proc Keyed

section Outcomes

/-- The row with other links to subscriptions. -/
def Deployment.relink (subscriptions : List ℕ) (deployment : Deployment) : Deployment :=
  { deployment with subscriptions := subscriptions }

@[simp] theorem Deployment.relink_id (subscriptions : List ℕ) (deployment : Deployment) :
    (deployment.relink subscriptions).id = deployment.id := rfl

/-- The event broadcasts the deployment again. -/
def Event.replays (id : ℕ) : Event → Bool
  | .replayed _ payload => payload.sid = id
  | _ => false

/-- What a reconcile is seen to do with one deployment: whether it is audited as
superseded, whether it is broadcast, and its row afterwards, links aside. -/
structure Outcome where
  canceled : Bool
  replayed : Bool
  row : Option Deployment
  deriving DecidableEq

/-- What the reconcile does with the deployment. -/
def outcome (platform : Platform) (garden : Garden) (now : DateTime) (db : Db) (id : ℕ) :
    Outcome where
  canceled := .audit id .canceled .superseded (some garden.id) none ∈
    (reconcileDeploymentsOnConnect platform garden now).events db
  replayed := ((reconcileDeploymentsOnConnect platform garden now).events db).any (Event.replays id)
  row := (((reconcileDeploymentsOnConnect platform garden now).final db).deployments.find? id).map
    (Deployment.relink [])

end Outcomes

section Decision

/-- What a reconcile decides about a deployment. -/
inductive Treatment where
  /-- It is another garden's, or final. -/
  | untouched
  | canceled
  /-- The garden does not support its override yet. -/
  | deferred
  | replayed
  deriving DecidableEq, Repr

/-- The garden can take a replay of the deployment. -/
def Db.replayable (db : Db) (garden : Garden) (deployment : Deployment) : Bool :=
  !deployment.directOverride || db.supportsOverride garden

/-- The decision for a deployment, once it is known which subscriptions are overdue. -/
def treatment (platform : Platform) (garden : Garden) (db : Db) (overdue : List Subscription)
    (row : Deployment) : Treatment :=
  if row.gardenId = garden.id ∧ row.state.terminal = false then
    if (db.load platform row).superseded overdue then .canceled
    else if db.replayable garden row then .replayed
    else .deferred
  else .untouched

/-- The row that it leaves. -/
def Treatment.apply (now : DateTime) (row : Deployment) : Treatment → Deployment
  | .untouched => row
  | .canceled => row.apply { state := .canceled, result := some .failure }
  | .deferred => row
  | .replayed => row.redispatch now

/-- What is then seen of it. -/
def Treatment.outcome (now : DateTime) (row : Deployment) (treatment : Treatment) : Outcome :=
  ⟨treatment = .canceled, treatment = .replayed, some ((treatment.apply now row).relink [])⟩

variable {platform : Platform} {garden : Garden} {now : DateTime} {db : Db} {id : ℕ}

/-- A lookup after one cancellation. -/
theorem find?_cancelSuperseded (loaded : Loaded) (db : Db) (id : ℕ) :
    ((cancelSuperseded garden loaded).final db).deployments.find? id =
      (db.deployments.find? id).map fun row => if row.id = loaded.deployment.id then
        row.apply { state := .canceled, result := some .failure } else row := by
  change (db.lockedUpdate loaded.deployment.id
    { state := .canceled, result := some .failure }).1.1.deployments.find? id = _
  unfold Db.lockedUpdate
  rcases hfind : db.deployments.find? loaded.deployment.id with _ | locked
  · rcases hrow : db.deployments.find? id with _ | row
    · rfl
    · have hne : row.id ≠ loaded.deployment.id := by
        rw [find?_id hrow]
        rintro rfl
        rw [hrow] at hfind
        cases hfind
      rw [Option.map_some, if_neg hne]
  · have hallowed : (locked.state.terminal && !State.canceled.terminal) = false := by
      simp [State.terminal]
    simp only [hallowed, Bool.false_eq_true, if_false, find?_setDeployment, beq_iff_eq]

theorem presence_cancelSuperseded (loaded : Loaded) (db : Db) :
    ((cancelSuperseded garden loaded).final db).presence = db.presence := by
  change (db.lockedUpdate loaded.deployment.id
    { state := .canceled, result := some .failure }).1.1.presence = _
  rcases lockedUpdate_cases db loaded.deployment.id { state := .canceled, result := some .failure }
    with ⟨_, h⟩ | ⟨_, _, _, h⟩
  · rw [h]
  · rw [h]
    rfl

/-- A lookup after a series of cancellations. -/
theorem find?_cancelSuperseded_forM (deployments : List Loaded) (db : Db) (id : ℕ) :
    ((deployments.forM (cancelSuperseded garden) : Program PUnit).final db).deployments.find? id =
      (db.deployments.find? id).map fun row =>
        if row.id ∈ deployments.map fun loaded => loaded.deployment.id then
          row.apply { state := .canceled, result := some .failure } else row := by
  induction deployments generalizing db with
  | nil => simp
  | cons loaded rest ih =>
    change ((cancelSuperseded garden loaded >>= fun _ =>
      rest.forM (cancelSuperseded garden)).final db).deployments.find? id = _
    rw [final_bind, ih, find?_cancelSuperseded, Option.map_map]
    congr 1
    funext row
    simp only [Function.comp_apply, List.map_cons, List.mem_cons]
    by_cases hfirst : row.id = loaded.deployment.id
    · rw [if_pos hfirst, if_pos (Or.inl hfirst), Deployment.apply_id]
      split
      · rfl
      · rfl
    · rw [if_neg hfirst]
      simp only [hfirst, false_or]

theorem presence_cancelSuperseded_forM (deployments : List Loaded) (db : Db) :
    ((deployments.forM (cancelSuperseded garden) : Program PUnit).final db).presence =
      db.presence := by
  induction deployments generalizing db with
  | nil => rfl
  | cons loaded rest ih =>
    change ((cancelSuperseded garden loaded >>= fun _ =>
      rest.forM (cancelSuperseded garden)).final db).presence = _
    rw [final_bind, ih, presence_cancelSuperseded]

/-- Cancellations broadcast nothing. -/
theorem replays_cancelSuperseded_forM (deployments : List Loaded) (db : Db) :
    ((deployments.forM (cancelSuperseded garden) : Program PUnit).events db).any
      (Event.replays id) = false := by
  induction deployments generalizing db with
  | nil => rfl
  | cons loaded rest ih =>
    change ((cancelSuperseded garden loaded >>= fun _ =>
      rest.forM (cancelSuperseded garden)).events db).any (Event.replays id) = false
    rw [events_bind, List.any_append, ih, Bool.or_false]
    unfold cancelSuperseded updateDeployment
    rw [events_bind, events_atomic]
    rcases lockedUpdate_cases db loaded.deployment.id
      { state := .canceled, result := some .failure } with ⟨_, h⟩ | ⟨_, _, _, h⟩
    · rw [h]
      simp [Event.replays]
    · rw [h]
      simp [Event.replays]

/-- Kept are the deployments that the garden can take. -/
theorem result_filterReplayable (deployments : List Loaded) :
    (filterReplayable garden deployments).result db =
      deployments.filter fun loaded => db.replayable garden loaded.deployment := by
  induction deployments with
  | nil => rfl
  | cons loaded rest ih =>
    have hauthorize : (authorizeReplay garden loaded).run db =
        (db.replayable garden loaded.deployment, db, []) := by
      unfold authorizeReplay Db.replayable
      rcases loaded.deployment.directOverride with _ | _
      · rfl
      · rfl
    have hfinal : (authorizeReplay garden loaded).final db = db := by rw [final, hauthorize]
    have hresult : (authorizeReplay garden loaded).result db =
        db.replayable garden loaded.deployment := by rw [result, hauthorize]
    unfold filterReplayable
    rw [result_bind, result_bind, hfinal, hresult, ih, List.filter_cons]
    rfl

/-- A lookup after the marking. -/
theorem find?_markDeploymentsDispatched (deployments : List Loaded) (db : Db) (id : ℕ) :
    ((markDeploymentsDispatched deployments now).final db).deployments.find? id =
      (db.deployments.find? id).map fun row =>
        if (row.id ∈ deployments.map fun loaded => loaded.deployment.id) ∧
            row.state.terminal = false then row.redispatch now else row := by
  unfold markDeploymentsDispatched
  rcases deployments with _ | ⟨loaded, rest⟩
  · simp
  · simp only [List.isEmpty_cons, Bool.false_eq_true, if_false, final_atomic, find?_markDispatched,
      Bool.and_eq_true, decide_eq_true_eq, Bool.not_eq_true']

theorem replays_markDeploymentsDispatched (deployments : List Loaded) (db : Db) :
    ((markDeploymentsDispatched deployments now).events db).any (Event.replays id) = false := by
  unfold markDeploymentsDispatched
  split
  · rfl
  · rfl

/-- A series of replays broadcasts each deployment and rewrites none. -/
theorem replay_forM (garden : Garden) (id : ℕ) (deployments : List Loaded) (db : Db) :
    ((deployments.forM (replay garden) : Program PUnit).final db).deployments = db.deployments ∧
      ((deployments.forM (replay garden) : Program PUnit).events db).any (Event.replays id) =
        decide (id ∈ deployments.map fun loaded => loaded.deployment.id) := by
  induction deployments generalizing db with
  | nil => exact ⟨rfl, rfl⟩
  | cons loaded rest ih =>
    obtain ⟨hkept, hsent⟩ := ih ((replay garden loaded).final db)
    have hfirst : (replay garden loaded).events db =
        [.replayed garden.id (deploymentEventPayload loaded db.requests)] := rfl
    have hsid : (deploymentEventPayload loaded db.requests).sid = loaded.deployment.id := rfl
    change ((replay garden loaded >>= fun _ => rest.forM (replay garden)).final db).deployments = _ ∧
      ((replay garden loaded >>= fun _ => rest.forM (replay garden)).events db).any _ = _
    rw [final_bind, events_bind, List.any_append, hfirst, hsent, hkept]
    refine ⟨rfl, ?_⟩
    simp [Event.replays, hsid, eq_comm]

/-- Whether a given deployment is among those of the listed that satisfy a condition. -/
theorem mem_listUnresolved_iff {row : Deployment} (hrow : db.deployments.find? id = some row)
    (p : Loaded → Bool) :
    id ∈ (((listUnresolved platform garden).result db).filter p).map
        (fun loaded => loaded.deployment.id) ↔
      row.gardenId = garden.id ∧ row.state.terminal = false ∧ p (db.load platform row) = true := by
  obtain ⟨hmem, hid⟩ := Table.find?_eq_some_iff.mp hrow
  rw [mem_listUnresolved]
  constructor
  · rintro ⟨row', hrow', hid', hlisted⟩
    obtain rfl := Table.eq_of_key hrow' hmem (hid'.trans hid.symm)
    exact hlisted
  · intro hlisted
    exact ⟨row, hmem, hid, hlisted⟩

/-- The row and the broadcasts that a reconcile leaves when its schedules can be
evaluated. -/
theorem reconcile_treats {overdue : List Subscription} {row : Deployment}
    (hoverdue : (catchUpOverdueSchedules platform garden now).result db = .ok overdue)
    (hrow : db.deployments.find? id = some row) :
    ((reconcileDeploymentsOnConnect platform garden now).final db).deployments.find? id =
        some ((treatment platform garden db overdue row).apply now row) ∧
      ((reconcileDeploymentsOnConnect platform garden now).events db).any (Event.replays id) =
        decide (treatment platform garden db overdue row = .replayed) := by
  let unresolved := (listUnresolved platform garden).result db
  let toCancel := unresolved.filter (·.superseded overdue)
  let canceled := (toCancel.forM (cancelSuperseded garden) : Program PUnit).final db
  let kept := unresolved.filter (!·.superseded overdue)
  let toReplay := kept.filter fun loaded => canceled.replayable garden loaded.deployment
  let marked := (markDeploymentsDispatched toReplay now).final canceled
  have hfiltered : (filterReplayable garden kept).run canceled = (toReplay, canceled, []) := by
    rw [(silent_filterReplayable kept).run_eq canceled, result_filterReplayable]
  obtain ⟨hreplayed, hsent⟩ := replay_forM garden id toReplay marked
  obtain ⟨jobs, last, hrun, _, _, _, hlast⟩ := deployOverdue_run platform garden overdue
    ((toReplay.forM (replay garden) : Program PUnit).final marked)
  have hcaughtUp : (catchUpOverdueSchedules platform garden now).run db = (.ok overdue, db, []) :=
    hoverdue ▸ silent_catchUp.run_eq db
  have hreconcile : (reconcileDeploymentsOnConnect platform garden now).run db =
      (jobs, last, [] ++ ((listUnresolved platform garden).events db ++
        ((toCancel.forM (cancelSuperseded garden) : Program PUnit).events db ++
          ([] ++ ((markDeploymentsDispatched toReplay now).events canceled ++
            ((toReplay.forM (replay garden) : Program PUnit).events marked ++ [])))))) :=
    Proc.run_bind_eq hcaughtUp (Proc.run_bind_eq rfl (Proc.run_bind_eq rfl
      (Proc.run_bind_eq hfiltered (Proc.run_bind_eq rfl (Proc.run_bind_eq rfl hrun)))))
  have hcancel : id ∈ toCancel.map (fun loaded => loaded.deployment.id) ↔
      row.gardenId = garden.id ∧ row.state.terminal = false ∧
        (db.load platform row).superseded overdue = true := mem_listUnresolved_iff hrow _
  have hreplay : id ∈ toReplay.map (fun loaded => loaded.deployment.id) ↔
      row.gardenId = garden.id ∧ row.state.terminal = false ∧
        (db.replayable garden row = true ∧ (db.load platform row).superseded overdue = false) := by
    have hpresence : canceled.presence = db.presence := presence_cancelSuperseded_forM _ _
    have hsupports : canceled.replayable garden row = db.replayable garden row := by
      rw [Db.replayable, Db.supportsOverride, hpresence, Db.replayable, Db.supportsOverride]
    have hboth : toReplay = unresolved.filter fun loaded =>
        canceled.replayable garden loaded.deployment && !loaded.superseded overdue :=
      List.filter_filter
    rw [hboth, mem_listUnresolved_iff hrow, Bool.and_eq_true, Bool.not_eq_true', ← hsupports]
    rfl
  have hlisted : ((listUnresolved platform garden).events db).any (Event.replays id) = false := rfl
  rw [final, events, hreconcile]
  dsimp only
  rw [hlast, hreplayed, find?_markDeploymentsDispatched, find?_cancelSuperseded_forM, hrow]
  simp only [List.any_append, List.any_nil, Bool.false_or, Bool.or_false, hlisted, hsent,
    replays_cancelSuperseded_forM, replays_markDeploymentsDispatched, Option.map_some]
  obtain rfl := find?_id hrow
  unfold treatment
  by_cases hmine : row.gardenId = garden.id ∧ row.state.terminal = false
  · rw [if_pos hmine]
    by_cases hsuperseded : (db.load platform row).superseded overdue = true
    · have hnot : row.id ∉ toReplay.map fun loaded => loaded.deployment.id := by
        rw [hreplay, hsuperseded]
        simp
      rw [if_pos hsuperseded, if_pos (hcancel.mpr ⟨hmine.1, hmine.2, hsuperseded⟩)]
      simp [hnot, Treatment.apply]
    · have hnot : row.id ∉ toCancel.map fun loaded => loaded.deployment.id := by
        rw [hcancel]
        simp [hsuperseded]
      rw [if_neg hsuperseded, if_neg hnot]
      by_cases htakes : db.replayable garden row = true
      · have hin : row.id ∈ toReplay.map fun loaded => loaded.deployment.id :=
          hreplay.mpr ⟨hmine.1, hmine.2, htakes, by simpa using hsuperseded⟩
        rw [if_pos htakes, if_pos ⟨hin, hmine.2⟩]
        simp [hin, Treatment.apply]
      · have hout : row.id ∉ toReplay.map fun loaded => loaded.deployment.id := by
          rw [hreplay]
          simp [htakes]
        rw [if_neg htakes, if_neg fun h => hout h.1]
        simp [hout, Treatment.apply]
  · have hnot : row.id ∉ toCancel.map fun loaded => loaded.deployment.id := by
      rw [hcancel]
      exact fun h => hmine ⟨h.1, h.2.1⟩
    have hout : row.id ∉ toReplay.map fun loaded => loaded.deployment.id := by
      rw [hreplay]
      exact fun h => hmine ⟨h.1, h.2.1⟩
    rw [if_neg hmine, if_neg hnot, if_neg fun h => hout h.1]
    simp [hout, Treatment.apply]

/-- Nothing is done when some schedule cannot be evaluated. -/
theorem outcome_of_error {reason : Raise} {row : Deployment}
    (hraised : (catchUpOverdueSchedules platform garden now).result db = .error reason)
    (hrow : db.deployments.find? id = some row) :
    outcome platform garden now db id = Treatment.untouched.outcome now row := by
  have hcaughtUp : (catchUpOverdueSchedules platform garden now).run db = (.error reason, db, []) :=
    hraised ▸ silent_catchUp.run_eq db
  have hreconcile : (reconcileDeploymentsOnConnect platform garden now).run db = ([], db, [] ++ []) :=
    Proc.run_bind_eq hcaughtUp rfl
  unfold outcome
  rw [final, events, hreconcile, hrow]
  rfl

/-- What is seen of a deployment is what the decision says. -/
theorem outcome_of_overdue {overdue : List Subscription} {row : Deployment}
    (hoverdue : (catchUpOverdueSchedules platform garden now).result db = .ok overdue)
    (hrow : db.deployments.find? id = some row) :
    outcome platform garden now db id =
      (treatment platform garden db overdue row).outcome now row := by
  obtain ⟨hmem, hid⟩ := Table.find?_eq_some_iff.mp hrow
  obtain ⟨hleft, hsent⟩ := reconcile_treats hoverdue hrow
  have hsome : overdueSubscriptions platform garden now db = overdue := by
    rw [overdueSubscriptions, hoverdue]
    rfl
  have haudited : .audit id .canceled .superseded (some garden.id) none ∈
      (reconcileDeploymentsOnConnect platform garden now).events db ↔
        treatment platform garden db overdue row = .canceled := by
    rw [(reconciled platform garden now db).audited]
    unfold Superseded treatment
    rw [hsome]
    constructor
    · rintro ⟨row', hmem', hid', hgarden, hopen, hsuperseded⟩
      obtain rfl := Table.eq_of_key hmem' hmem (hid'.trans hid.symm)
      rw [if_pos ⟨hgarden, hopen⟩, if_pos hsuperseded]
    · intro hcanceled
      split at hcanceled
      · rename_i hmine
        split at hcanceled
        · rename_i hsuperseded
          exact ⟨row, hmem, hid, hmine.1, hmine.2, hsuperseded⟩
        · split at hcanceled <;> cases hcanceled
      · cases hcanceled
  unfold outcome Treatment.outcome
  rw [hleft, hsent, Option.map_some]
  simp only [haudited]

/-- Deployments of other gardens and final ones are left alone. -/
theorem outcome_of_foreign {row : Deployment} (hrow : db.deployments.find? id = some row)
    (hnot : ¬ (row.gardenId = garden.id ∧ row.state.terminal = false)) :
    outcome platform garden now db id = Treatment.untouched.outcome now row := by
  rcases hoverdue : (catchUpOverdueSchedules platform garden now).result db with reason | overdue
  · exact outcome_of_error hoverdue hrow
  · rw [outcome_of_overdue hoverdue hrow, treatment, if_neg hnot]

end Decision

section Relinked

variable {platform : Platform} {garden : Garden} {now : DateTime} {db : Db} {id : ℕ}

/-- The store with other links of the deployment to subscriptions. -/
def Db.relink (db : Db) (id : ℕ) (subscriptions : List ℕ) : Db :=
  { db with
    deployments := db.deployments.update (·.id == id) (Deployment.relink subscriptions)
      (Deployment.relink_id subscriptions) }

theorem find?_relink {row : Deployment} (hrow : db.deployments.find? id = some row)
    (subscriptions : List ℕ) :
    (db.relink id subscriptions).deployments.find? id = some (row.relink subscriptions) := by
  have hself : (row.id == id) = true := by simpa using find?_id hrow
  have hupdate := Table.find?_update (t := db.deployments) (p := (·.id == id))
    (Deployment.relink_id subscriptions) id
  rw [hrow, Option.map_some, hself] at hupdate
  exact hupdate

/-- Links of an unresolved deployment do not count as successes of a subscription. -/
theorem lastSuccessfulDeploymentTime_relink {row : Deployment}
    (hrow : db.deployments.find? id = some row) (hopen : row.state.terminal = false)
    (subscriptions : List ℕ) (subscriptionId : ℕ) :
    (db.relink id subscriptions).lastSuccessfulDeploymentTime subscriptionId =
      db.lastSuccessfulDeploymentTime subscriptionId := by
  let succeeded : Deployment → Bool := fun d =>
    subscriptionId ∈ d.subscriptions && d.state = .completed && d.result = some .success
  let linked : Deployment → Deployment := fun d =>
    if d.id == id then d.relink subscriptions else d
  have hcount : ∀ d ∈ db.deployments.rows, (succeeded ∘ linked) d = succeeded d := by
    intro d hd
    by_cases hid : d.id = id
    · obtain ⟨hmem, hrowid⟩ := Table.find?_eq_some_iff.mp hrow
      obtain rfl := Table.eq_of_key hd hmem (hid.trans hrowid.symm)
      have hunfinished : d.state ≠ .completed := by
        intro hcompleted
        rw [hcompleted] at hopen
        cases hopen
      have hlinked : linked d = d.relink subscriptions := if_pos (by simpa using hid)
      have hstate : (d.relink subscriptions).state = d.state := rfl
      simp only [Function.comp_apply, succeeded, hlinked, hstate, hunfinished, decide_false,
        Bool.and_false, Bool.false_and]
    · have hlinked : linked d = d := if_neg (by simpa using hid)
      rw [Function.comp_apply, hlinked]
  have htime : ∀ d : Deployment, (linked d).deployedAt = d.deployedAt := by
    intro d
    unfold linked
    split
    · rfl
    · rfl
  have htimes : ((db.deployments.rows.map linked).filter succeeded).map Deployment.deployedAt =
      (db.deployments.rows.filter succeeded).map Deployment.deployedAt := by
    rw [List.filter_map, List.map_map, List.filter_congr hcount]
    exact List.map_congr_left fun d _ => htime d
  unfold Db.lastSuccessfulDeploymentTime
  have hrows : (db.relink id subscriptions).deployments.rows = db.deployments.rows.map linked := rfl
  rw [hrows]
  dsimp only
  rw [htimes]

/-- Whether a schedule is overdue depends on the last successes alone. -/
theorem scheduleIsOverdue_congr {db' : Db}
    (hlast : ∀ subscriptionId, db'.lastSuccessfulDeploymentTime subscriptionId =
      db.lastSuccessfulDeploymentTime subscriptionId) (subscription : Subscription) :
    (scheduleIsOverdue platform now subscription).result db' =
      (scheduleIsOverdue platform now subscription).result db := by
  unfold scheduleIsOverdue
  split
  · rfl
  · split
    · rfl
    · rfl
    · dsimp only
      split
      · rfl
      · rw [result_bind, result_bind, result_read, result_read, final_read, final_read, hlast]
        split
        · rfl
        · rfl

theorem filterOverdue_congr {db' : Db}
    (hlast : ∀ subscriptionId, db'.lastSuccessfulDeploymentTime subscriptionId =
      db.lastSuccessfulDeploymentTime subscriptionId) (subscriptions : List Subscription) :
    (filterOverdue platform now subscriptions).result db' =
      (filterOverdue platform now subscriptions).result db := by
  induction subscriptions with
  | nil => rfl
  | cons subscription rest ih =>
    have hfinal (db : Db) : (scheduleIsOverdue platform now subscription).final db = db :=
      ((silent_scheduleIsOverdue subscription) db).1.symm
    unfold filterOverdue
    rw [result_bind, result_bind, scheduleIsOverdue_congr hlast, hfinal, hfinal]
    split
    · rfl
    · rw [result_bind, result_bind, ih]
      split
      · rfl
      · rfl

theorem catchUp_relink {row : Deployment} (hrow : db.deployments.find? id = some row)
    (hopen : row.state.terminal = false) (subscriptions : List ℕ) :
    (catchUpOverdueSchedules platform garden now).result (db.relink id subscriptions) =
      (catchUpOverdueSchedules platform garden now).result db := by
  unfold catchUpOverdueSchedules
  rw [result_bind, result_bind, result_read, result_read, final_read, final_read]
  exact filterOverdue_congr (lastSuccessfulDeploymentTime_relink hrow hopen subscriptions) _

/-- The last decision does not look at links. -/
theorem outcome_apply_relink (treatment : Treatment) (row : Deployment)
    (subscriptions : List ℕ) :
    treatment.outcome now (row.relink subscriptions) = treatment.outcome now row := by
  cases treatment with
  | untouched => rfl
  | canceled => rfl
  | deferred => rfl
  | replayed => rfl

/-- An unlinked deployment is never superseded. -/
theorem superseded_unlinked (row : Deployment) (overdue : List Subscription) :
    ((db.relink id []).load platform (row.relink [])).superseded overdue = false := by
  have harrange : platform.arrange [] = [] := List.perm_nil.mp (platform.arrange_perm [])
  have hloaded : ((db.relink id []).load platform (row.relink [])).subscriptions = [] := by
    change (platform.arrange []).filterMap db.subscriptions.find? = []
    rw [harrange]
    rfl
  rw [Loaded.superseded, hloaded]
  rfl

/-- A deployment with one link is superseded when that subscription is overdue. -/
theorem superseded_linked {subscription : Subscription}
    (hstored : subscription ∈ db.subscriptions.rows) (row : Deployment)
    (overdue : List Subscription) :
    ((db.relink id [subscription.id]).load platform (row.relink [subscription.id])).superseded
        overdue = decide (subscription.id ∈ overdue.map Subscription.id) := by
  have harrange : platform.arrange [subscription.id] = [subscription.id] :=
    List.perm_singleton.mp (platform.arrange_perm [subscription.id])
  have hfind : db.subscriptions.find? subscription.id = some subscription :=
    Table.find?_eq_some_iff.mpr ⟨hstored, rfl⟩
  have hloaded : ((db.relink id [subscription.id]).load platform
      (row.relink [subscription.id])).subscriptions = [subscription] := by
    change (platform.arrange [subscription.id]).filterMap db.subscriptions.find? = [subscription]
    rw [harrange, List.filterMap_cons_some hfind]
    rfl
  rw [Loaded.superseded, hloaded, List.any_cons, List.any_nil, Bool.or_false]

/-- The reconcile does the same with the deployment whether it is unlinked or linked to
the subscription. -/
def TreatedAlike (platform : Platform) (garden : Garden) (now : DateTime) (db : Db) (id : ℕ)
    (subscription : Subscription) : Prop :=
  outcome platform garden now (db.relink id []) id =
    outcome platform garden now (db.relink id [subscription.id]) id

/-- The link makes a difference just while the subscription is overdue and the
deployment is an unresolved one of the garden. -/
theorem treatedAlike_iff {row : Deployment} {subscription : Subscription}
    (hrow : db.deployments.find? id = some row)
    (hstored : subscription ∈ db.subscriptions.rows) :
    TreatedAlike platform garden now db id subscription ↔
      ¬ (row.gardenId = garden.id ∧ row.state.terminal = false ∧
        subscription ∈ overdueSubscriptions platform garden now db) := by
  have hunlinked := find?_relink hrow []
  have hlinked := find?_relink hrow [subscription.id]
  unfold TreatedAlike
  by_cases hmine : row.gardenId = garden.id ∧ row.state.terminal = false
  · rcases hoverdue : (catchUpOverdueSchedules platform garden now).result db with reason | overdue
    · have hnone : overdueSubscriptions platform garden now db = [] := by
        rw [overdueSubscriptions, hoverdue]
        rfl
      rw [outcome_of_error ((catchUp_relink hrow hmine.2 _).trans hoverdue) hunlinked,
        outcome_of_error ((catchUp_relink hrow hmine.2 _).trans hoverdue) hlinked, hnone,
        outcome_apply_relink, outcome_apply_relink]
      simp
    · have hsome : overdueSubscriptions platform garden now db = overdue := by
        rw [overdueSubscriptions, hoverdue]
        rfl
      have hin : subscription.id ∈ overdue.map Subscription.id ↔ subscription ∈ overdue := by
        constructor
        · intro hid
          obtain ⟨other, hother, hid⟩ := List.mem_map.mp hid
          have hmem : other ∈ db.subscriptions.rows := (overdue_owned (hsome ▸ hother)).1
          obtain rfl := Table.eq_of_key hmem hstored hid
          exact hother
        · exact List.mem_map_of_mem
      rw [outcome_of_overdue ((catchUp_relink hrow hmine.2 _).trans hoverdue) hunlinked,
        outcome_of_overdue ((catchUp_relink hrow hmine.2 _).trans hoverdue) hlinked, hsome,
        outcome_apply_relink, outcome_apply_relink]
      let decided : Treatment := if db.replayable garden row then .replayed else .deferred
      have hdecided : decided ≠ .canceled := by
        unfold decided
        split
        · rintro ⟨⟩
        · rintro ⟨⟩
      have hmine' (subscriptions : List ℕ) : (row.relink subscriptions).gardenId = garden.id ∧
          (row.relink subscriptions).state.terminal = false := hmine
      have hfirst : treatment platform garden (db.relink id []) overdue (row.relink []) = decided := by
        unfold treatment
        rw [if_pos (hmine' _), superseded_unlinked, if_neg Bool.false_ne_true]
        rfl
      have hsecond : treatment platform garden (db.relink id [subscription.id]) overdue
          (row.relink [subscription.id]) = if subscription ∈ overdue then .canceled else decided := by
        unfold treatment
        rw [if_pos (hmine' _), superseded_linked hstored]
        simp only [hin, decide_eq_true_eq]
        rfl
      rw [hfirst, hsecond]
      by_cases hdue : subscription ∈ overdue
      · rw [if_pos hdue]
        refine iff_of_false (fun halike => hdecided ?_) (not_not.mpr ⟨hmine.1, hmine.2, hdue⟩)
        have hcanceled : decide (decided = .canceled) = true := congrArg Outcome.canceled halike
        exact of_decide_eq_true hcanceled
      · rw [if_neg hdue]
        exact iff_of_true rfl fun h => hdue h.2.2
  · have hno : ¬ (row.gardenId = garden.id ∧ row.state.terminal = false ∧
        subscription ∈ overdueSubscriptions platform garden now db) :=
      fun h => hmine ⟨h.1, h.2.1⟩
    rw [outcome_of_foreign hunlinked hmine, outcome_of_foreign hlinked hmine, outcome_apply_relink,
      outcome_apply_relink]
    simp only [hno, not_false_eq_true]

/-- The subscription is of the deployment's garden, and of the name and type of a seed of
the deployment. -/
def Db.Matches (db : Db) (row : Deployment) (subscription : Subscription) : Prop :=
  subscription ∈ db.subscriptions.rows ∧ subscription.gardenId = row.gardenId ∧
    ∃ seedId ∈ row.seeds, ∃ seed, db.seeds.find? seedId = some seed ∧
      subscription.seedName = seed.name ∧ subscription.seedType = seed.seedType

/-- The link of a direct deployment to a matching subscription is history only. -/
def LinkIsHistory (platform : Platform) (garden : Garden) (now : DateTime) (db : Db) (id : ℕ) :
    Prop :=
  ∀ row, db.deployments.find? id = some row → row.directAction.isSome = true →
    ∀ subscription, db.Matches row subscription →
      TreatedAlike platform garden now db id subscription

/-- The link is history exactly when no matching subscription of an unresolved direct
deployment of the garden is overdue. -/
theorem linkIsHistory_iff (platform : Platform) (garden : Garden) (now : DateTime) (db : Db)
    (id : ℕ) :
    LinkIsHistory platform garden now db id ↔
      ∀ row, db.deployments.find? id = some row → row.directAction.isSome = true →
        row.gardenId = garden.id → row.state.terminal = false →
          ∀ subscription ∈ overdueSubscriptions platform garden now db,
            ¬ db.Matches row subscription := by
  unfold LinkIsHistory
  refine forall_congr' fun row => forall_congr' fun hrow => forall_congr' fun _ => ?_
  constructor
  · intro hall hgarden hopen subscription hoverdue hmatches
    have halike := hall subscription hmatches
    rw [treatedAlike_iff hrow hmatches.1] at halike
    exact halike ⟨hgarden, hopen, hoverdue⟩
  · intro hnone subscription hmatches
    rw [treatedAlike_iff hrow hmatches.1]
    rintro ⟨hgarden, hopen, hoverdue⟩
    exact hnone hgarden hopen subscription hoverdue hmatches

/-- The system was deployed directly, beside its nightly subscription. -/
def activatedDirectly : Db :=
  subscribed.after atMidnight
    [.createSubscription 1 "host" "host" "nixos" [] (some "0 0 * * *") none [], register "/nix/store/a",
      .deployDirect workstation { system with artifact := "/nix/store/a" } { action := some "stage" }]

/-- A reconnect after midnight cancels the linked deployment and replays the unlinked one. -/
theorem linkIsHistory_fails_when_overdue :
    ¬ ∀ (platform : Platform) (garden : Garden) (now : DateTime) (db : Db) (id : ℕ),
      LinkIsHistory platform garden now db id := by
  intro h
  have hdirect : (activatedDirectly.deployments.find? 1).map (fun row =>
      (row.directAction, row.gardenId, row.seeds)) = some (some "stage", 1, [1]) := by decide
  have hseed : (activatedDirectly.seeds.find? 1).map (fun seed => (seed.name, seed.seedType)) =
      some ("host", "nixos") := by decide
  have hcanceled : (outcome atMidnight workstation 90000000000 (activatedDirectly.relink 1 []) 1).canceled ≠
      (outcome atMidnight workstation 90000000000 (activatedDirectly.relink 1 [1]) 1).canceled := by
    decide
  obtain ⟨row, hrow, hcolumns⟩ := Option.map_eq_some_iff.mp hdirect
  obtain ⟨seed, hstored, hidentity⟩ := Option.map_eq_some_iff.mp hseed
  simp only [Prod.mk.injEq] at hcolumns hidentity
  have hmatches : activatedDirectly.Matches row nightly := by
    refine ⟨by decide, hcolumns.2.1.symm, 1, ?_, seed, hstored, ?_, ?_⟩
    · rw [hcolumns.2.2]
      exact List.mem_singleton_self 1
    · exact hidentity.1.symm
    · exact hidentity.2.symm
  have haction : row.directAction.isSome = true := by
    rw [hcolumns.1]
    rfl
  exact hcanceled (congrArg Outcome.canceled
    (h atMidnight workstation 90000000000 activatedDirectly 1 row hrow haction nightly hmatches))

end Relinked

end Sower.Server
