import Sower.Server.Duplicates

/-!
# Scheduled jobs side by side

The jobs that a reconcile starts run concurrently, each for one subscription.
Of the jobs with one content the first to look for a duplicate creates the
deployment and the others may be skipped. In every schedule at least one of
them dispatches; in a suitable one it is any of them.
-/

namespace Sower.Server

open Sower.Calendar Sower.Policy Sower.Wire Process Keyed Interleaving Contract

section Jobs

/-- The job for an overdue subscription. -/
def scheduledJob (garden : Garden) (requestId : Sid) (subscription : Subscription) : Job :=
  ⟨requestId, garden, [subscription],
    { actorSid := some garden.id, eventReason := some .scheduleTriggered }⟩

/-- The row keeps its garden from deploying the content again. -/
def Blocking (gardenId : ℕ) (content : String) (row : Deployment) : Prop :=
  row.gardenId = gardenId ∧ row.contentHash = content ∧ row.blocks = true

/-- Content of the latest seed for the subscription. -/
def Db.contentFor (db : Db) (platform : Platform) (subscription : Subscription) : Option String :=
  (db.matchSeed subscription none).map fun seed => computeContentHash platform [seed.id]

theorem matchSeed_congr {db db' : Db} (h : db'.seeds = db.seeds) (subscription : Subscription) :
    db'.matchSeed subscription none = db.matchSeed subscription none := by
  unfold Db.matchSeed Db.matching
  rw [h]

/-- The matching seed is stored. -/
theorem find?_matchSeed {db : Db} {subscription : Subscription} {seed : Seed}
    (h : db.matchSeed subscription none = some seed) : db.seeds.find? seed.id = some seed := by
  have hmem := (List.mem_filter.mp (List.argmax_mem h)).1
  exact Table.find?_of_mem (List.mem_filter.mp hmem).1

/-- The program of a job in its stages: the seed, the duplicate, the row, the
broadcast. -/
theorem scheduledJob_program (platform : Platform) (garden : Garden) (requestId : Sid)
    (subscription : Subscription) :
    (scheduledJob garden requestId subscription).program platform =
      matchSeed subscription none >>= fun seed =>
        dispatchSeedDeploys platform requestId subscription.gardenId
          (seed.toList.map fun seed =>
            { seed := seed.toWire, subscriptionSid := some subscription.id })
          [subscription] (scheduledJob garden requestId subscription).opts >>=
          announce garden requestId := by
  unfold scheduledJob Job.program doDeployment
  dsimp only
  rw [bind_assoc]
  unfold collectSeeds
  rw [bind_assoc]
  refine bind_congr fun seed => ?_
  cases seed with
  | none => rfl
  | some seed => rfl

/-- Jobs that are started together, with the store they are started from. -/
structure Batch where
  platform : Platform
  garden : Garden
  start : Db
  /-- One subscription for each job. -/
  subscriptions : List Subscription
  jobs : List Job
  scheduled : List.Forall₂ (fun job subscription =>
    ∃ requestId, job = scheduledJob garden requestId subscription) jobs subscriptions
  /-- The subscriptions are stored and belong to the garden. -/
  owned : ∀ subscription ∈ subscriptions, subscription.gardenId = garden.id ∧
    (start.subscriptions.find? subscription.id).isSome = true

/-- The jobs before their first steps. -/
def Batch.pool (batch : Batch) : Pool Db Event :=
  ⟨⟨batch.start, []⟩, batch.jobs.map (Job.program batch.platform)⟩

/-- The job with this index is to deploy the content. -/
def Batch.Member (batch : Batch) (content : String) (i : ℕ) : Prop :=
  ∃ subscription, batch.subscriptions[i]? = some subscription ∧
    batch.start.contentFor batch.platform subscription = some content

/-- A new deployment for the subscription was broadcast by the job. -/
def DispatchedFor (log : List (ℕ × Event)) (i : ℕ) (subscriptionId : ℕ) : Prop :=
  ∃ garden payload, (i, .dispatched garden payload) ∈ log ∧ payload.skipped = false ∧
    ∃ entry ∈ payload.seedDeployments, entry.subscriptionSid = some subscriptionId

end Jobs

section Contract

/-- What the jobs of a batch promise each other, for one content: a row that
blocks it was created by a job that is to deploy it. -/
def jobContract (batch : Batch) (content : String) : Contract Db Event where
  inv w := w.store.seeds = batch.start.seeds ∧
    w.store.subscriptions = batch.start.subscriptions ∧
    ∀ row ∈ w.store.deployments.rows, Blocking batch.garden.id content row →
      ∃ j, batch.Member content j ∧ (j, .created row.id) ∈ w.log
  rely i w w' := w.log <+: w'.log ∧
    ∀ id, (i, .created id) ∈ w'.log → (i, .created id) ∈ w.log
  guar i w w' := ∃ es : List Event, w'.log = w.log ++ es.map (i, ·) ∧ w'.store.seeds = w.store.seeds ∧
    w'.store.subscriptions = w.store.subscriptions ∧
    ∀ row ∈ w'.store.deployments.rows, Blocking batch.garden.id content row →
      (∃ old ∈ w.store.deployments.rows, old.id = row.id ∧ Blocking batch.garden.id content old) ∨
        (batch.Member content i ∧ .created row.id ∈ es)
  keeps := by
    rintro i w w' ⟨hseeds, hsubscriptions, hcreated⟩ ⟨es, hlog, hseeds', hsubscriptions', hrows⟩
    refine ⟨hseeds'.trans hseeds, hsubscriptions'.trans hsubscriptions, ?_⟩
    intro row hrow hblocking
    rw [hlog]
    rcases hrows row hrow hblocking with ⟨old, hold, hid, hblocked⟩ | ⟨hmember, hevent⟩
    · obtain ⟨j, hmember, hlogged⟩ := hcreated old hold hblocked
      rw [hid] at hlogged
      exact ⟨j, hmember, List.mem_append_left _ hlogged⟩
    · exact ⟨i, hmember, List.mem_append_right _ (List.mem_map_of_mem hevent)⟩
  compatible := by
    rintro i j w w' hij ⟨es, hlog, _⟩
    rw [hlog]
    refine ⟨List.prefix_append _ _, ?_⟩
    intro id hid
    rcases List.mem_append.mp hid with hold | hnew
    · exact hold
    · obtain ⟨e, _, heq⟩ := List.mem_map.mp hnew
      exact absurd (Prod.ext_iff.mp heq).1.symm hij

variable {batch : Batch} {content : String} {α : Type}

/-- A step that creates no deployment and blocks nothing new. -/
theorem jobContract_harmless {f : Db → (Db × List Event) × α}
    (hseeds : ∀ db, (f db).1.1.seeds = db.seeds)
    (hsubscriptions : ∀ db, (f db).1.1.subscriptions = db.subscriptions)
    (hrows : ∀ db, ∀ row ∈ (f db).1.1.deployments.rows, row.blocks = true →
      ∃ old ∈ db.deployments.rows, old.id = row.id ∧ old.gardenId = row.gardenId ∧
        old.contentHash = row.contentHash ∧ old.blocks = true)
    (hevents : ∀ db id, .created id ∉ (f db).1.2) :
    (jobContract batch content).Harmless (.atomic f) := by
  refine harmless_atomic fun i w _ => ⟨⟨_, rfl, hseeds _, hsubscriptions _, ?_⟩, ?_⟩
  · rintro row hrow ⟨hgarden, hcontent, hblocks⟩
    obtain ⟨old, hold, hid, hgarden', hcontent', hblocks'⟩ := hrows w.store row hrow hblocks
    exact Or.inl ⟨old, hold, hid, hgarden'.trans hgarden, hcontent'.trans hcontent, hblocks'⟩
  · refine ⟨List.prefix_append _ _, ?_⟩
    intro id hid
    rcases List.mem_append.mp hid with hold | hnew
    · exact hold
    · obtain ⟨e, he, heq⟩ := List.mem_map.mp hnew
      cases heq
      exact absurd he (hevents w.store id)

/-- A step that leaves the tables as they are. -/
theorem jobContract_harmless_read {f : Db → (Db × List Event) × α}
    (htables : ∀ db, (f db).1.1.seeds = db.seeds ∧ (f db).1.1.subscriptions = db.subscriptions ∧
      (f db).1.1.deployments = db.deployments)
    (hevents : ∀ db id, .created id ∉ (f db).1.2) :
    (jobContract batch content).Harmless (.atomic f) := by
  refine jobContract_harmless (fun db => (htables db).1) (fun db => (htables db).2.1) ?_ hevents
  intro db row hrow hblocks
  rw [(htables db).2.2] at hrow
  exact ⟨row, hrow, rfl, rfl, rfl, hblocks⟩

/-- Canceling a deployment unblocks its content or leaves it. -/
theorem jobContract_harmless_cancel (id : ℕ) :
    (jobContract batch content).Harmless (updateDeployment id { state := .canceled }) := by
  refine jobContract_harmless ?_ ?_ ?_ ?_
  · intro db
    rcases lockedUpdate_cases db id { state := .canceled } with ⟨_, h⟩ | ⟨_, _, _, h⟩ <;>
      exact congrArg (·.1.1.seeds) h
  · intro db
    rcases lockedUpdate_cases db id { state := .canceled } with ⟨_, h⟩ | ⟨_, _, _, h⟩ <;>
      exact congrArg (·.1.1.subscriptions) h
  · intro db row hrow hblocks
    rcases lockedUpdate_cases db id { state := .canceled } with ⟨_, h⟩ | ⟨_, _, _, h⟩
    · rw [h] at hrow
      exact ⟨row, hrow, rfl, rfl, rfl, hblocks⟩
    · rw [h] at hrow
      obtain ⟨old, hold, rfl⟩ := mem_setDeployment.mp hrow
      refine ⟨old, hold, ?_⟩
      split
      · rename_i hid
        refine ⟨rfl, rfl, rfl, ?_⟩
        rw [if_pos hid] at hblocks
        have hdecided : (decide (old.result = some .success) || false) = true := hblocks
        have hsuccess : old.result = some .success := by simpa using hdecided
        simp [Deployment.blocks, hsuccess]
      · rename_i hid
        rw [if_neg hid] at hblocks
        exact ⟨rfl, rfl, rfl, hblocks⟩
  · intro db id' hevent
    rcases lockedUpdate_cases db id { state := .canceled } with ⟨_, h⟩ | ⟨_, _, _, h⟩ <;>
      rw [h] at hevent <;> simp at hevent

theorem jobContract_harmless_cancelStale (subscriptionIds : List ℕ) :
    (jobContract batch content).Harmless (cancelStaleForSubscriptions subscriptionIds) := by
  refine (jobContract_harmless_read (fun _ => ⟨rfl, rfl, rfl⟩) (by simp)).bind fun stale =>
    harmless_forM fun deployment _ => ?_
  refine (jobContract_harmless_cancel deployment.id).bind ?_
  rintro (_ | _)
  · exact harmless_done _
  · exact jobContract_harmless_read (fun _ => ⟨rfl, rfl, rfl⟩) (by simp)

/-- The job has created no deployment. -/
def Idle (i : ℕ) (w : World Db Event) : Prop := ∀ id, (i, .created id) ∉ w.log

/-- The job has created a deployment. -/
def Created (i : ℕ) (w : World Db Event) : Prop := ∃ id, (i, .created id) ∈ w.log

/-- Some job that is to deploy the content has created a deployment. -/
def Batch.Served (batch : Batch) (content : String) (w : World Db Event) : Prop :=
  ∃ j, batch.Member content j ∧ Created j w

theorem idle_stable (i : ℕ) : (jobContract batch content).Stable i (Idle i) :=
  fun _ _ hrely hidle id hid => hidle id (hrely.2 id hid)

theorem created_stable (i j : ℕ) : (jobContract batch content).Stable i (Created j) := by
  rintro w w' hrely ⟨id, hid⟩
  exact ⟨id, hrely.1.subset hid⟩

theorem served_stable (i : ℕ) : (jobContract batch content).Stable i (batch.Served content) := by
  rintro w w' hrely ⟨j, hmember, hcreated⟩
  exact ⟨j, hmember, created_stable i j hrely hcreated⟩

/-- How a job stands once it was answered. -/
def Answered (batch : Batch) (content : String) (i : ℕ) (entries : List SeedDeployment) :
    Except DispatchError Wire.Deployment → World Db Event → Prop
  | .error _, w => Idle i w ∧ ¬ batch.Member content i
  | .ok payload, w =>
    (payload.skipped = true ∧ Idle i w ∧ (batch.Member content i → batch.Served content w)) ∨
      (payload.skipped = false ∧ payload.seedDeployments = entries ∧ Created i w)

variable {i : ℕ} {subscription : Subscription} {seed : Seed}

/-- The entry of a job. -/
def jobEntry (subscription : Subscription) (seed : Seed) : SeedDeployment :=
  { seed := seed.toWire, subscriptionSid := some subscription.id }

/-- A job is to deploy the content of its seed. -/
theorem member_iff (hi : batch.subscriptions[i]? = some subscription)
    (hseed : batch.start.matchSeed subscription none = some seed) :
    batch.Member content i ↔ computeContentHash batch.platform [seed.id] = content := by
  unfold Batch.Member Db.contentFor
  simp [hi, hseed]

/-- Looking for a duplicate, a job learns of the job that blocks its content. -/
theorem findDuplicate_sat (hi : batch.subscriptions[i]? = some subscription)
    (hseed : batch.start.matchSeed subscription none = some seed) :
    (jobContract batch content).Sat i
      (findDuplicateDeployment subscription.gardenId
        (computeContentHash batch.platform [seed.id]) false)
      (Idle i) fun duplicate w => Idle i w ∧
        (duplicate.isSome = true → batch.Member content i → batch.Served content w) := by
  have howned := (batch.owned subscription (List.mem_of_getElem? hi)).1
  refine .atomic ?_ ?_
  · intro w hinv hidle
    refine ⟨⟨_, rfl, rfl, rfl, fun row hrow hblocking => Or.inl ⟨row, hrow, rfl, hblocking⟩⟩, ?_⟩
    refine ⟨by simpa [Idle] using hidle, ?_⟩
    intro hsome hmember
    obtain ⟨existing, hexisting⟩ := Option.isSome_iff_exists.mp hsome
    obtain ⟨hfind, hgarden, hcontent, hblocks⟩ := duplicate_spec hexisting
    rw [(member_iff hi hseed).mp hmember] at hcontent
    obtain ⟨j, hmember', hcreated⟩ := hinv.2.2 existing (Table.find?_eq_some_iff.mp hfind).1
      ⟨hgarden.trans howned, hcontent, hblocks⟩
    exact ⟨j, hmember', existing.id, by simpa using hcreated⟩
  · rintro duplicate w w' hrely ⟨hidle, hserved⟩
    exact ⟨idle_stable i hrely hidle,
      fun hsome hmember => served_stable i hrely (hserved hsome hmember)⟩

/-- A job looks for a duplicate of its content. -/
def jobChecked (batch : Batch) (subscription : Subscription) (seed : Seed) : Event :=
  .checked subscription.gardenId (computeContentHash batch.platform [seed.id])

/-- The row that a job inserts. -/
def jobRow (batch : Batch) (requestId : Sid) (subscription : Subscription) (seed : Seed)
    (now : DateTime) : NewDeployment :=
  newDeployment batch.platform subscription.gardenId [seed.id] [subscription]
    (scheduledJob batch.garden requestId subscription).opts now

/-- The links of a job exist. -/
theorem jobRow_linkable {db : Db} (hseeds : db.seeds = batch.start.seeds)
    (hsubscriptions : db.subscriptions = batch.start.subscriptions)
    (hmem : subscription ∈ batch.subscriptions)
    (hseed : batch.start.matchSeed subscription none = some seed) (requestId : Sid)
    (now : DateTime) : db.linkable (jobRow batch requestId subscription seed now) = true := by
  have hstored := (batch.owned subscription hmem).2
  unfold Db.linkable jobRow newDeployment
  rw [hseeds, hsubscriptions]
  simp [find?_matchSeed hseed, hstored]

/-- A job that found no duplicate creates its deployment. -/
theorem createJob_sat (hi : batch.subscriptions[i]? = some subscription)
    (hseed : batch.start.matchSeed subscription none = some seed) (requestId : Sid)
    (now : DateTime) : (jobContract batch content).Sat i
      (createDeployment (jobRow batch requestId subscription seed now)) (Idle i)
      fun created w => created.isSome = true ∧ Created i w := by
  refine .atomic ?_ ?_
  · intro w hinv _
    dsimp only [World.advance]
    rw [if_pos (jobRow_linkable hinv.1 hinv.2.1 (List.mem_of_getElem? hi) hseed requestId now)]
    refine ⟨⟨_, rfl, rfl, rfl, ?_⟩, rfl, w.store.deployments.next, ?_⟩
    · intro row hrow hblocking
      rcases (Table.mem_insert fun _ => rfl).mp hrow with hold | rfl
      · exact Or.inl ⟨row, hold, rfl, hblocking⟩
      · exact Or.inr ⟨(member_iff hi hseed).mpr hblocking.2.1, List.mem_singleton.mpr rfl⟩
    · exact List.mem_append_right _ (List.mem_singleton.mpr rfl)
  · rintro created w w' hrely ⟨hsome, hcreated⟩
    exact ⟨hsome, created_stable i i hrely hcreated⟩

/-- A job is answered in one of three ways. -/
theorem dispatchJob_sat {requestId : Sid} (hi : batch.subscriptions[i]? = some subscription)
    (hseed : batch.start.matchSeed subscription none = some seed) :
    (jobContract batch content).Sat i
      (dispatchSeedDeploys batch.platform requestId subscription.gardenId
        [jobEntry subscription seed] [subscription]
        (scheduledJob batch.garden requestId subscription).opts)
      (Idle i) (Answered batch content i [jobEntry subscription seed]) := by
  have hsids : [jobEntry subscription seed].map (fun entry => entry.seed.sid) ≠ [] :=
    List.cons_ne_nil _ _
  unfold dispatchSeedDeploys
  dsimp only
  rw [if_neg hsids]
  refine (findDuplicate_sat hi hseed).bind fun duplicate => ?_
  cases duplicate with
  | some existing =>
    refine Contract.Sat.done ?_
    rintro w ⟨hidle, hserved⟩
    exact Or.inl ⟨rfl, hidle, hserved rfl⟩
  | none =>
    have hclock : (jobContract batch content).Harmless utcNow :=
      jobContract_harmless_read (fun _ => ⟨rfl, rfl, rfl⟩) (by simp)
    have haudit (id : ℕ) : (jobContract batch content).Harmless
        (recordCreated id (scheduledJob batch.garden requestId subscription).opts) :=
      jobContract_harmless_read (fun _ => ⟨rfl, rfl, rfl⟩) (by simp)
    refine Contract.Sat.conseq (P := Idle i) ?_ (fun w hw => hw.1) fun _ _ hw => hw
    refine (hclock i _ (idle_stable i)).bind fun now => ?_
    refine (createJob_sat hi hseed requestId now).bind fun created => ?_
    cases created with
    | none =>
      refine Contract.Sat.done ?_
      rintro w ⟨hsome, _⟩
      cases hsome
    | some deployment =>
      refine Contract.Sat.conseq (P := Created i) ?_ (fun w hw => hw.2) fun _ _ hw => hw
      refine (haudit deployment.id i _ (created_stable i i)).bind fun _ => ?_
      refine (jobContract_harmless_cancelStale _ i _ (created_stable i i)).bind fun _ => ?_
      refine Contract.Sat.done ?_
      intro w hcreated
      exact Or.inr ⟨rfl, rfl, hcreated⟩

/-- How a job leaves the world: a deployment that it created was broadcast, and
if it is to deploy the content, some such job has created a deployment. -/
def Batch.Post (batch : Batch) (content : String) (i : ℕ) (w : World Db Event) : Prop :=
  (Created i w → ∀ subscription, batch.subscriptions[i]? = some subscription →
    DispatchedFor w.log i subscription.id) ∧
  (batch.Member content i → batch.Served content w)

theorem dispatchedFor_stable (i j id : ℕ) :
    (jobContract batch content).Stable i fun w => DispatchedFor w.log j id := by
  rintro w w' hrely ⟨garden, payload, hmem, hrest⟩
  exact ⟨garden, payload, hrely.1.subset hmem, hrest⟩

/-- The broadcast of an answered job. -/
theorem announceJob_sat {requestId : Sid} (entries : List SeedDeployment)
    (outcome : Except DispatchError Wire.Deployment)
    (hi : batch.subscriptions[i]? = some subscription)
    (hentries : ∀ payload, outcome = .ok payload →
      ∃ entry ∈ entries, entry.subscriptionSid = some subscription.id) :
    (jobContract batch content).Sat i (announce batch.garden requestId outcome)
      (Answered batch content i entries outcome) fun _ => batch.Post content i := by
  have hidle (w : World Db Event) (hw : Idle i w ∧ (batch.Member content i → batch.Served content w)) :
      batch.Post content i w := by
    refine ⟨?_, hw.2⟩
    rintro ⟨id, hid⟩
    exact absurd hid (hw.1 id)
  have hstable : (jobContract batch content).Stable i fun w =>
      Idle i w ∧ (batch.Member content i → batch.Served content w) :=
    fun _ _ hrely hw => ⟨idle_stable i hrely hw.1, fun hm => served_stable i hrely (hw.2 hm)⟩
  rcases outcome with reason | payload
  · have hquiet : (jobContract batch content).Harmless
        (announce batch.garden requestId (.error reason)) := by
      cases reason with
      | seedsNotFound => exact jobContract_harmless_read (fun _ => ⟨rfl, rfl, rfl⟩) (by simp)
      | raised => exact harmless_done _
    exact (hquiet i _ hstable).conseq
      (fun w (hw : Idle i w ∧ ¬ batch.Member content i) => ⟨hw.1, fun hm => absurd hm hw.2⟩)
      fun _ w hw => hidle w hw
  · have hquiet : (jobContract batch content).Harmless
        (.emit (.dispatched batch.garden.id payload)) :=
      jobContract_harmless_read (fun _ => ⟨rfl, rfl, rfl⟩) (by simp)
    by_cases hskipped : payload.skipped = true
    · refine (hquiet i _ hstable).conseq ?_ fun _ w hw => hidle w hw
      rintro w (⟨_, hw⟩ | ⟨hnew, _⟩)
      · exact hw
      · rw [hskipped] at hnew
        cases hnew
    · refine Contract.Sat.conseq (P := fun w => payload.seedDeployments = entries ∧ Created i w)
        (Q := fun _ w => Created i w ∧ DispatchedFor w.log i subscription.id) ?_ ?_ ?_
      · refine .atomic ?_ ?_
        · rintro w _ ⟨hsame, hcreated⟩
          refine ⟨⟨_, rfl, rfl, rfl, fun row hrow hblocking => Or.inl ⟨row, hrow, rfl, hblocking⟩⟩, ?_⟩
          obtain ⟨id, hid⟩ := hcreated
          refine ⟨⟨id, List.mem_append_left _ hid⟩, batch.garden.id, payload, ?_, ?_, ?_⟩
          · exact List.mem_append_right _ (List.mem_singleton.mpr rfl)
          · simpa using hskipped
          · rw [hsame]
            exact hentries payload rfl
        · intro _ w w' hrely hw
          exact ⟨created_stable i i hrely hw.1, dispatchedFor_stable i i _ hrely hw.2⟩
      · rintro w (⟨hskip, _⟩ | ⟨_, hw⟩)
        · exact absurd hskip hskipped
        · exact hw
      · rintro _ w ⟨hcreated, hdispatched⟩
        refine ⟨?_, fun hm => ⟨i, hm, hcreated⟩⟩
        intro _ subscription' hi'
        rw [hi] at hi'
        cases hi'
        exact hdispatched

/-- Every job ends that way. -/
theorem scheduledJob_sat {requestId : Sid} (hi : batch.subscriptions[i]? = some subscription) :
    (jobContract batch content).Sat i
      ((scheduledJob batch.garden requestId subscription).program batch.platform) (Idle i)
      fun _ => batch.Post content i := by
  rw [scheduledJob_program]
  have hread : (jobContract batch content).Sat i (matchSeed subscription none) (Idle i)
      fun seed w => Idle i w ∧ seed = batch.start.matchSeed subscription none := by
    refine .atomic ?_ ?_
    · intro w hinv hidle
      refine ⟨⟨[], rfl, rfl, rfl, fun row hrow hblocking => Or.inl ⟨row, hrow, rfl, hblocking⟩⟩, ?_⟩
      exact ⟨by simpa [Idle] using hidle, matchSeed_congr hinv.1 subscription⟩
    · rintro seed w w' hrely ⟨hidle, hseed⟩
      exact ⟨idle_stable i hrely hidle, hseed⟩
  refine hread.bind fun seed => .assume fun hseed => ?_
  cases seed with
  | none =>
    have hmember : ¬ batch.Member content i := by
      rintro ⟨subscription', hi', hcontent⟩
      rw [hi] at hi'
      cases hi'
      simp [Db.contentFor, ← hseed] at hcontent
    exact (announceJob_sat [] (.error .seedsNotFound) hi fun _ h => by cases h).conseq
      (fun w hidle => ⟨hidle, hmember⟩) fun _ _ hw => hw
  | some seed =>
    have hentry : ∃ entry ∈ [jobEntry subscription seed],
        entry.subscriptionSid = some subscription.id := ⟨_, List.mem_singleton.mpr rfl, rfl⟩
    exact (dispatchJob_sat hi hseed.symm).bind fun outcome =>
      announceJob_sat _ outcome hi fun _ _ => hentry

/-- The process of a job with a subscription. -/
theorem Batch.process {p : Program PUnit} (hp : batch.pool.procs[i]? = some p) :
    ∃ subscription requestId, batch.subscriptions[i]? = some subscription ∧
      p = (scheduledJob batch.garden requestId subscription).program batch.platform := by
  rw [Batch.pool, List.getElem?_map] at hp
  obtain ⟨job, hjob, rfl⟩ := Option.map_eq_some_iff.mp hp
  obtain ⟨hlt, rfl⟩ := List.getElem?_eq_some_iff.mp hjob
  obtain ⟨hlength, hall⟩ := List.forall₂_iff_get.mp batch.scheduled
  obtain ⟨requestId, hrequest⟩ := hall i hlt (hlength ▸ hlt)
  exact ⟨_, requestId, List.getElem?_eq_getElem (hlength ▸ hlt),
    congrArg (Job.program batch.platform) hrequest⟩

theorem Batch.length_pool : batch.pool.procs.length = batch.subscriptions.length := by
  rw [Batch.pool, List.length_map]
  exact batch.scheduled.length_eq

/-- When nothing blocks a content that some job is to deploy, in every schedule one
of these jobs dispatches. -/
theorem Batch.dispatched_of_finished {steps : List ℕ}
    (hfree : ∀ row ∈ batch.start.deployments.rows, ¬ Blocking batch.garden.id content row)
    (hmember : batch.Member content i)
    (hfinished : (batch.pool.exec (steps.map .act)).Finished) :
    ∃ j subscription, batch.Member content j ∧ batch.subscriptions[j]? = some subscription ∧
      DispatchedFor (batch.pool.exec (steps.map .act)).world.log j subscription.id := by
  have hstart : (jobContract batch content).Holds (batch.Post content) batch.pool := by
    refine ⟨⟨rfl, rfl, fun row hrow hblocking => absurd hblocking (hfree row hrow)⟩, ?_⟩
    intro j p hp
    obtain ⟨subscription, requestId, hj, rfl⟩ := batch.process hp
    exact ⟨Idle j, idle_stable j, fun id hid => (by cases hid), scheduledJob_sat hj⟩
  have hholds := hstart.exec steps
  have hpost (j : ℕ) (hj : batch.Member content j) :
      batch.Post content j (batch.pool.exec (steps.map .act)).world := by
    obtain ⟨subscription, hsubscription, _⟩ := hj
    refine hholds.post_of_finished hfinished ?_
    rw [length_exec_act, Batch.length_pool]
    exact (List.getElem?_eq_some_iff.mp hsubscription).1
  obtain ⟨j, hj, hcreated⟩ := (hpost i hmember).2 hmember
  obtain ⟨subscription, hsubscription, _⟩ := id hj
  exact ⟨j, subscription, hj, hsubscription, (hpost j hj).1 hcreated subscription hsubscription⟩

end Contract

section Alone

/-- What a job that runs alone leaves as it was: the links, the rows that are
finished, and the contents that are blocked. -/
structure Persists (db db' : Db) : Prop where
  seeds : db'.seeds = db.seeds
  subscriptions : db'.subscriptions = db.subscriptions
  terminal : ∀ id row, db.deployments.find? id = some row → row.state.terminal = true →
    ∃ row', db'.deployments.find? id = some row' ∧ row'.state.terminal = true
  blocked : ∀ gardenId content, (∃ row ∈ db.deployments.rows, Blocking gardenId content row) →
    ∃ row ∈ db'.deployments.rows, Blocking gardenId content row

/-- A step that leaves the tables as they are. -/
theorem Persists.of_tables {db db' : Db} (hseeds : db'.seeds = db.seeds)
    (hsubscriptions : db'.subscriptions = db.subscriptions)
    (hdeployments : db'.deployments = db.deployments) : Persists db db' where
  seeds := hseeds
  subscriptions := hsubscriptions
  terminal _ row hrow hterminal := ⟨row, hdeployments ▸ hrow, hterminal⟩
  blocked _ _ h := hdeployments ▸ h

theorem Persists.trans {db db' db'' : Db} (h : Persists db db') (h' : Persists db' db'') :
    Persists db db'' where
  seeds := h'.seeds.trans h.seeds
  subscriptions := h'.subscriptions.trans h.subscriptions
  terminal id row hrow hterminal := by
    obtain ⟨row', hrow', hterminal'⟩ := h.terminal id row hrow hterminal
    exact h'.terminal id row' hrow' hterminal'
  blocked gardenId content hblocked := h'.blocked gardenId content (h.blocked gardenId content hblocked)

/-- A new row keeps the rows that are there. -/
theorem persists_insert (db : Db) (new : NewDeployment) : Persists db (db.insertDeployment new) where
  seeds := rfl
  subscriptions := rfl
  terminal _ row hrow hterminal := ⟨row, find?_insertDeployment hrow, hterminal⟩
  blocked := by
    rintro gardenId content ⟨row, hrow, hblocking⟩
    exact ⟨row, (Table.mem_insert fun _ => rfl).mpr (Or.inl hrow), hblocking⟩

/-- Canceling a finished deployment does not unblock its content. -/
theorem persists_cancel {db : Db} {id : ℕ} {row : Deployment}
    (hrow : db.deployments.find? id = some row) (hterminal : row.state.terminal = true) :
    Persists db ((db.lockedUpdate id { state := .canceled }).1.1) := by
  rcases lockedUpdate_cases db id { state := .canceled } with ⟨_, h⟩ | ⟨_, _, _, h⟩
  · rw [h]
    exact .of_tables rfl rfl rfl
  · rw [h]
    refine ⟨rfl, rfl, ?_, ?_⟩
    · intro id' row' hrow' hterminal'
      by_cases hid : id' = id
      · subst hid
        exact ⟨_, find?_setDeployment_self hrow', rfl⟩
      · exact ⟨row', find?_setDeployment_of_ne hrow' hid, hterminal'⟩
    · rintro gardenId content ⟨old, hold, hgarden, hcontent, hblocks⟩
      refine ⟨_, mem_setDeployment.mpr ⟨old, hold, rfl⟩, ?_⟩
      by_cases hid : old.id = id
      · obtain rfl : row = old := by
          rw [← hid, Table.find?_of_mem hold] at hrow
          exact (Option.some.inj hrow).symm
        have hsuccess : row.result = some .success := by
          simpa [Deployment.blocks, hterminal] using hblocks
        rw [if_pos (by simpa using hid)]
        refine ⟨hgarden, hcontent, ?_⟩
        simp [Deployment.blocks, Deployment.apply, hsuccess]
      · rw [if_neg (by simpa using hid)]
        exact ⟨hgarden, hcontent, hblocks⟩

theorem final_cancelStale (db : Db) (deployment : Deployment) :
    (cancelStale deployment).final db =
      (db.lockedUpdate deployment.id { state := .canceled }).1.1 := by
  unfold cancelStale updateDeployment
  rw [Proc.final_bind, Proc.final_atomic]
  split <;> rfl

/-- Canceling finished deployments one after the other. -/
theorem persists_forM_cancelStale (xs : List Deployment) (db : Db)
    (hxs : ∀ deployment ∈ xs, ∃ row, db.deployments.find? deployment.id = some row ∧
      row.state.terminal = true) : Persists db ((xs.forM cancelStale : Program PUnit).final db) := by
  induction xs generalizing db with
  | nil => exact .of_tables rfl rfl rfl
  | cons deployment rest ih =>
    obtain ⟨⟨row, hrow, hterminal⟩, hrest⟩ := List.forall_mem_cons.mp hxs
    change Persists db ((cancelStale deployment >>= fun _ => rest.forM cancelStale).final db)
    rw [Proc.final_bind, final_cancelStale]
    have hfirst := persists_cancel hrow hterminal
    refine hfirst.trans (ih _ fun later hlater => ?_)
    obtain ⟨row', hrow', hterminal'⟩ := hrest later hlater
    exact hfirst.terminal later.id row' hrow' hterminal'

theorem persists_cancelStale (db : Db) (subscriptionIds : List ℕ) :
    Persists db ((cancelStaleForSubscriptions subscriptionIds).final db) := by
  refine persists_forM_cancelStale _ db fun deployment hdeployment => ?_
  obtain ⟨hmem, hcond⟩ := List.mem_filter.mp hdeployment
  have hstale : deployment.state = .stale :=
    (by simpa using hcond : _ ∧ deployment.state = .stale).2
  exact ⟨deployment, Table.find?_of_mem hmem, by rw [hstale]; rfl⟩

/-- Nothing is broadcast while stale deployments are canceled. -/
theorem cancelStale_events (subscriptionIds : List ℕ) (db : Db) (garden : Sid)
    (payload : Wire.Deployment) :
    .dispatched garden payload ∉ (cancelStaleForSubscriptions subscriptionIds).events db := by
  have hupdate (id : ℕ) (attrs : Attrs) :
      (updateDeployment id attrs).Stays (fun _ _ => True) (· ≠ .dispatched garden payload) := by
    refine Proc.stays_atomic fun db => ⟨trivial, ?_⟩
    rcases lockedUpdate_cases db id attrs with ⟨_, h⟩ | ⟨_, _, _, h⟩
    · rw [h]
      simp
    · rw [h]
      simp
  have hone (deployment : Deployment) :
      (cancelStale deployment).Stays (fun _ _ => True) (· ≠ .dispatched garden payload) := by
    refine (hupdate _ _).bind (fun _ _ => trivial) ?_
    rintro (_ | updated)
    · exact Proc.stays_done (fun _ => trivial) _
    · exact Proc.stays_atomic fun db => ⟨trivial, by simp⟩
  have hselect : (cancelStaleForSubscriptions subscriptionIds).Stays (fun _ _ => True)
      (· ≠ .dispatched garden payload) := by
    refine (Proc.stays_atomic fun db => ⟨trivial, by simp⟩).bind (fun _ _ => trivial) fun stale => ?_
    exact Proc.stays_forM (fun _ => trivial) (fun _ _ => trivial) fun deployment _ => hone deployment
  intro hsent
  exact (hselect db).2 _ hsent rfl

variable {batch : Batch} {subscription : Subscription} {seed : Seed} {db : Db}

/-- A job alone whose content is not blocked creates its deployment. -/
theorem dispatch_run_alone (requestId : Sid) (hseeds : db.seeds = batch.start.seeds)
    (hsubscriptions : db.subscriptions = batch.start.subscriptions)
    (hmem : subscription ∈ batch.subscriptions)
    (hseed : batch.start.matchSeed subscription none = some seed)
    (hfresh : db.duplicate subscription.gardenId
      (computeContentHash batch.platform [seed.id]) = none) :
    let inserted := db.tick.insertDeployment
      (jobRow batch requestId subscription seed (db.clock db.reads))
    let canceled := cancelStaleForSubscriptions [subscription.id]
    (dispatchSeedDeploys batch.platform requestId subscription.gardenId
      [jobEntry subscription seed] [subscription]
      (scheduledJob batch.garden requestId subscription).opts).run db =
      (.ok ⟨some requestId, db.deployments.next, [jobEntry subscription seed], false⟩,
        canceled.final inserted, jobChecked batch subscription seed ::
          .created db.deployments.next ::
          .audit db.deployments.next .created .scheduleTriggered (some batch.garden.id) none ::
          canceled.events inserted) := by
  let row := jobRow batch requestId subscription seed (db.clock db.reads)
  have hsids : [jobEntry subscription seed].map (fun entry => entry.seed.sid) ≠ [] :=
    List.cons_ne_nil _ _
  have hfound : (findDuplicateDeployment subscription.gardenId
      (computeContentHash batch.platform [seed.id]) false).run db =
        (none, db, [jobChecked batch subscription seed]) := by
    rw [← hfresh]
    rfl
  have hlinkable : db.tick.linkable row = true :=
    jobRow_linkable hseeds hsubscriptions hmem hseed requestId _
  have hcreate : (createDeployment row).run db.tick = (some (db.tick.newRow row
      db.deployments.next), db.tick.insertDeployment row, [.created db.deployments.next]) := by
    rw [createDeployment, Proc.run_atomic, if_pos hlinkable]
    rfl
  have hclock : utcNow.run db = (db.clock db.reads, db.tick, []) := rfl
  have haudit : (recordCreated db.deployments.next
      (scheduledJob batch.garden requestId subscription).opts).run (db.tick.insertDeployment row) =
        (⟨⟩, db.tick.insertDeployment row,
          [.audit db.deployments.next .created .scheduleTriggered (some batch.garden.id) none]) := rfl
  unfold dispatchSeedDeploys
  dsimp only
  rw [if_neg hsids]
  calc _ = ((.ok ⟨some requestId, db.deployments.next, [jobEntry subscription seed], false⟩ :
          Except DispatchError Wire.Deployment),
        (cancelStaleForSubscriptions [subscription.id]).final (db.tick.insertDeployment row),
        [jobChecked batch subscription seed] ++ ([] ++ ([.created db.deployments.next] ++
          ([.audit db.deployments.next .created .scheduleTriggered (some batch.garden.id) none] ++
            ((cancelStaleForSubscriptions [subscription.id]).events
              (db.tick.insertDeployment row) ++ []))))) := by
        refine Proc.run_bind_eq hfound (Proc.run_bind_eq hclock (Proc.run_bind_eq hcreate ?_))
        exact Proc.run_bind_eq haudit (Proc.run_bind_eq rfl rfl)
    _ = _ := by simp [row]

/-- A job that runs alone: what it leaves as it was, that its content is blocked
afterwards, and when and for what it broadcasts a new deployment. -/
structure RunsAlone (batch : Batch) (subscription : Subscription) (db : Db)
    (program : Program PUnit) : Prop where
  persists : Persists db (program.final db)
  blocks : ∀ seed, batch.start.matchSeed subscription none = some seed →
    ∃ row ∈ (program.final db).deployments.rows,
      Blocking subscription.gardenId (computeContentHash batch.platform [seed.id]) row
  dispatched : ∀ garden payload, .dispatched garden payload ∈ program.events db →
    payload.skipped = false →
    (∀ entry ∈ payload.seedDeployments, entry.subscriptionSid = some subscription.id) ∧
      ∃ seed, batch.start.matchSeed subscription none = some seed ∧ ∀ row ∈ db.deployments.rows,
        ¬ Blocking subscription.gardenId (computeContentHash batch.platform [seed.id]) row

theorem matchSeed_run (subscription : Subscription) (hseeds : db.seeds = batch.start.seeds) :
    (matchSeed subscription none).run db =
      (batch.start.matchSeed subscription none, db, []) := by
  rw [← matchSeed_congr hseeds]
  rfl

/-- Without a seed the job only reports its failure. -/
theorem job_run_unmatched (hseeds : db.seeds = batch.start.seeds)
    (hseed : batch.start.matchSeed subscription none = none) (requestId : Sid) :
    ((scheduledJob batch.garden requestId subscription).program batch.platform).run db =
      (⟨⟩, db, [.failed batch.garden.id requestId "seeds_not_found"]) := by
  have hmatch := matchSeed_run subscription hseeds
  rw [hseed] at hmatch
  rw [scheduledJob_program]
  exact Proc.run_bind_eq hmatch rfl

/-- A job whose content is blocked only says so. -/
theorem job_run_skipped (hseeds : db.seeds = batch.start.seeds)
    (hseed : batch.start.matchSeed subscription none = some seed) {existing : Deployment}
    (hexisting : db.duplicate subscription.gardenId
      (computeContentHash batch.platform [seed.id]) = some existing) (requestId : Sid) :
    ((scheduledJob batch.garden requestId subscription).program batch.platform).run db =
      (⟨⟩, db, [jobChecked batch subscription seed, .dispatched batch.garden.id
        ⟨some requestId, existing.id, [jobEntry subscription seed], true⟩]) := by
  have hmatch := matchSeed_run subscription hseeds
  rw [hseed] at hmatch
  rw [scheduledJob_program]
  have hdispatch : (dispatchSeedDeploys batch.platform requestId subscription.gardenId
      [jobEntry subscription seed] [subscription]
      (scheduledJob batch.garden requestId subscription).opts).run db =
        (.ok ⟨some requestId, existing.id, [jobEntry subscription seed], true⟩, db,
          [jobChecked batch subscription seed]) :=
    dispatch_run_of_duplicate (List.cons_ne_nil _ _) rfl hexisting
  exact Proc.run_bind_eq hmatch (Proc.run_bind_eq hdispatch rfl)

/-- A job whose content is not blocked broadcasts what it created. -/
theorem job_run_fresh (hseeds : db.seeds = batch.start.seeds)
    (hsubscriptions : db.subscriptions = batch.start.subscriptions)
    (hmem : subscription ∈ batch.subscriptions)
    (hseed : batch.start.matchSeed subscription none = some seed)
    (hfresh : db.duplicate subscription.gardenId
      (computeContentHash batch.platform [seed.id]) = none) (requestId : Sid) :
    let inserted := db.tick.insertDeployment
      (jobRow batch requestId subscription seed (db.clock db.reads))
    let canceled := cancelStaleForSubscriptions [subscription.id]
    ((scheduledJob batch.garden requestId subscription).program batch.platform).run db =
      (⟨⟩, canceled.final inserted, (jobChecked batch subscription seed ::
        .created db.deployments.next ::
        .audit db.deployments.next .created .scheduleTriggered (some batch.garden.id) none ::
        canceled.events inserted) ++ [.dispatched batch.garden.id
          ⟨some requestId, db.deployments.next, [jobEntry subscription seed], false⟩]) := by
  have hmatch := matchSeed_run subscription hseeds
  rw [hseed] at hmatch
  have hdispatch := dispatch_run_alone requestId hseeds hsubscriptions hmem hseed
    hfresh
  have hannounce := Proc.run_bind_eq (k := announce batch.garden requestId) hdispatch rfl
  rw [scheduledJob_program]
  exact (Proc.run_bind_eq hmatch hannounce).trans rfl

theorem scheduledJob_alone (hseeds : db.seeds = batch.start.seeds)
    (hsubscriptions : db.subscriptions = batch.start.subscriptions)
    (hmem : subscription ∈ batch.subscriptions) (requestId : Sid) :
    RunsAlone batch subscription db
      ((scheduledJob batch.garden requestId subscription).program batch.platform) := by
  rcases hseed : batch.start.matchSeed subscription none with _ | seed
  · have hrun := job_run_unmatched hseeds hseed requestId
    refine ⟨?_, ?_, ?_⟩
    · rw [Proc.final, hrun]
      exact .of_tables rfl rfl rfl
    · intro seed hseed'
      rw [hseed] at hseed'
      cases hseed'
    · intro garden payload hmem
      rw [Proc.events, hrun] at hmem
      simp at hmem
  · rcases hduplicate : db.duplicate subscription.gardenId
        (computeContentHash batch.platform [seed.id]) with _ | existing
    · have hrun := job_run_fresh hseeds hsubscriptions hmem hseed hduplicate requestId
      have hfree : ∀ row ∈ db.deployments.rows, ¬ Blocking subscription.gardenId
          (computeContentHash batch.platform [seed.id]) row := by
        rintro row hrow ⟨hgarden, hcontent, hblocks⟩
        obtain ⟨existing, hexisting⟩ := exists_duplicate hrow hgarden hcontent hblocks
        rw [hduplicate] at hexisting
        cases hexisting
      have hinserted := persists_cancelStale (db.tick.insertDeployment
        (jobRow batch requestId subscription seed (db.clock db.reads))) [subscription.id]
      refine ⟨?_, ?_, ?_⟩
      · rw [Proc.final, hrun]
        have htick : Persists db db.tick := .of_tables rfl rfl rfl
        exact (htick.trans (persists_insert _ _)).trans hinserted
      · intro seed' hseed'
        rw [hseed] at hseed'
        cases hseed'
        rw [Proc.final, hrun]
        refine hinserted.blocked _ _ ⟨db.tick.newRow _ db.tick.deployments.next,
          (Table.mem_insert fun _ => rfl).mpr (Or.inr rfl), rfl, rfl, ?_⟩
        simp [Deployment.blocks, Db.newRow, jobRow, newDeployment, State.terminal]
      · intro garden payload hmem _
        rw [Proc.events, hrun] at hmem
        have hquiet := cancelStale_events [subscription.id] (db.tick.insertDeployment
          (jobRow batch requestId subscription seed (db.clock db.reads))) garden payload
        obtain ⟨_, rfl⟩ : garden = batch.garden.id ∧ payload = _ := by simpa [hquiet, jobChecked] using hmem
        refine ⟨?_, seed, hseed, hfree⟩
        intro entry hentry
        rw [List.mem_singleton.mp hentry]
        rfl
    · have hrun := job_run_skipped hseeds hseed hduplicate requestId
      obtain ⟨hfind, hblocking⟩ := duplicate_spec hduplicate
      refine ⟨?_, ?_, ?_⟩
      · rw [Proc.final, hrun]
        exact .of_tables rfl rfl rfl
      · intro seed' hseed'
        rw [hseed] at hseed'
        cases hseed'
        rw [Proc.final, hrun]
        exact ⟨existing, (Table.find?_eq_some_iff.mp hfind).1, hblocking⟩
      · intro garden payload hmem hnew
        rw [Proc.events, hrun] at hmem
        obtain ⟨_, rfl⟩ : garden = batch.garden.id ∧ payload = _ := by
          simpa [jobChecked] using hmem
        cases hnew

end Alone

section Orders

variable {batch : Batch} {linked : ℕ → Prop} {ran : List ℕ} {c : Pool Db Event}

/-- The content of the subscription's seed is blocked, if it has a seed. -/
def Batch.Blocked (batch : Batch) (subscription : Subscription) (db : Db) : Prop :=
  ∀ seed, batch.start.matchSeed subscription none = some seed →
    ∃ row ∈ db.deployments.rows,
      Blocking subscription.gardenId (computeContentHash batch.platform [seed.id]) row

/-- Some jobs of the batch have run one after the other, none of them with a
dispatch for a linked subscription. -/
structure Progress (batch : Batch) (linked : ℕ → Prop) (ran : List ℕ) (c : Pool Db Event) :
    Prop where
  persists : Persists batch.start c.world.store
  blocked : ∀ j ∈ ran, ∀ subscription, batch.subscriptions[j]? = some subscription →
    batch.Blocked subscription c.world.store
  waiting : ∀ j, j ∉ ran → c.procs[j]? = batch.pool.procs[j]?
  avoids : ∀ i id, DispatchedFor c.world.log i id → ¬ linked id

theorem progress_start : Progress batch linked [] batch.pool where
  persists := .of_tables rfl rfl rfl
  blocked _ h := by cases h
  waiting _ _ := rfl
  avoids := by
    rintro i id ⟨garden, payload, hmem, _⟩
    cases hmem

/-- One more job runs. A linked one must find its content blocked. -/
theorem Progress.finish (h : Progress batch linked ran c) {i : ℕ} {subscription : Subscription}
    (hi : batch.subscriptions[i]? = some subscription) (hnew : i ∉ ran)
    (hblocked : linked subscription.id → batch.Blocked subscription c.world.store) :
    Progress batch linked (i :: ran) (c.finish i) := by
  have hlt : i < batch.pool.procs.length := by
    rw [Batch.length_pool]
    exact (List.getElem?_eq_some_iff.mp hi).1
  have hproc : c.procs[i]? = some batch.pool.procs[i] :=
    (h.waiting i hnew).trans (List.getElem?_eq_getElem hlt)
  obtain ⟨subscription', requestId, hi', hprogram⟩ := batch.process (List.getElem?_eq_getElem hlt)
  rw [hi] at hi'
  cases hi'
  rw [hprogram] at hproc
  have halone := scheduledJob_alone h.persists.seeds h.persists.subscriptions
    (List.mem_of_getElem? hi) requestId
  refine ⟨?_, ?_, ?_, ?_⟩
  · rw [Pool.finish_of_getElem? hproc]
    exact h.persists.trans halone.persists
  · intro j hj other hother
    rw [Pool.finish_of_getElem? hproc]
    rcases List.mem_cons.mp hj with rfl | hran
    · rw [hi] at hother
      cases hother
      exact halone.blocks
    · intro seed hseed
      exact halone.persists.blocked _ _ (h.blocked j hran other hother seed hseed)
  · intro j hj
    rw [List.mem_cons, not_or] at hj
    rw [getElem?_finish_of_ne (Ne.symm hj.1)]
    exact h.waiting j hj.2
  · intro j id hdispatched
    rw [Pool.finish_of_getElem? hproc] at hdispatched
    obtain ⟨garden, payload, hmem, hfresh, entry, hentry, hid⟩ := hdispatched
    rcases List.mem_append.mp hmem with hold | hevent
    · exact h.avoids j id ⟨garden, payload, hold, hfresh, entry, hentry, hid⟩
    · obtain ⟨e, he, heq⟩ := List.mem_map.mp hevent
      cases heq
      obtain ⟨hentries, seed, hseed, hfree⟩ := halone.dispatched garden payload he hfresh
      rw [hentries entry hentry, Option.some.injEq] at hid
      subst hid
      intro hlinked
      obtain ⟨row, hrow, hblocking⟩ := hblocked hlinked seed hseed
      exact hfree row hrow hblocking

/-- Several more jobs run, the linked ones among them behind what blocks them. -/
theorem Progress.foldl (h : Progress batch linked ran c) {order : List ℕ} (hnodup : order.Nodup)
    (hnew : ∀ i ∈ order, i ∉ ran) (hlt : ∀ i ∈ order, i < batch.subscriptions.length)
    (hblocked : ∀ i ∈ order, ∀ subscription, batch.subscriptions[i]? = some subscription →
      linked subscription.id → ∀ later c', Progress batch linked later c' → ran ⊆ later →
        batch.Blocked subscription c'.world.store) :
    ∃ later, Progress batch linked later (order.foldl Pool.finish c) ∧
      ∀ j, j ∈ later ↔ j ∈ ran ∨ j ∈ order := by
  induction order generalizing ran c with
  | nil => exact ⟨ran, h, by simp⟩
  | cons i rest ih =>
    obtain ⟨hi, hrest⟩ := List.nodup_cons.mp hnodup
    have hget := List.getElem?_eq_getElem (hlt i List.mem_cons_self)
    have hone := h.finish hget (hnew i List.mem_cons_self) fun hlinked =>
      hblocked i List.mem_cons_self _ hget hlinked ran c h fun _ hj => hj
    have hfresh : ∀ j ∈ rest, j ∉ i :: ran := by
      intro j hj hmem
      rcases List.mem_cons.mp hmem with rfl | hold
      · exact hi hj
      · exact hnew j (List.mem_cons_of_mem i hj) hold
    obtain ⟨later, hlater, hmem⟩ := ih hone hrest hfresh
      (fun j hj => hlt j (List.mem_cons_of_mem i hj))
      fun j hj subscription hsubscription hlinked later c' hprogress hsub =>
        hblocked j (List.mem_cons_of_mem i hj) subscription hsubscription hlinked later c' hprogress
          fun k hk => hsub (List.mem_cons_of_mem i hk)
    refine ⟨later, hlater, fun j => ?_⟩
    rw [hmem, List.mem_cons, List.mem_cons]
    tauto

/-- When each linked subscription's content is blocked, or is also to be deployed
for a subscription that is not linked, some schedule dispatches for none of
the linked ones. -/
theorem Batch.exists_avoiding (batch : Batch) (linked : ℕ → Prop)
    (h : ∀ subscription ∈ batch.subscriptions, linked subscription.id → ∀ seed,
      batch.start.matchSeed subscription none = some seed →
        (∃ row ∈ batch.start.deployments.rows, Blocking subscription.gardenId
          (computeContentHash batch.platform [seed.id]) row) ∨
        ∃ other ∈ batch.subscriptions, ¬ linked other.id ∧
          batch.start.contentFor batch.platform other =
            some (computeContentHash batch.platform [seed.id])) :
    ∃ steps : List ℕ, (batch.pool.exec (steps.map .act)).Finished ∧
      ∀ i id, DispatchedFor (batch.pool.exec (steps.map .act)).world.log i id → ¬ linked id := by
  classical
  let apart : ℕ → Bool := fun i => (batch.subscriptions[i]?).all fun subscription =>
    ¬ linked subscription.id
  let indices := List.range batch.subscriptions.length
  have hlt (p : ℕ → Bool) : ∀ i ∈ indices.filter p, i < batch.subscriptions.length :=
    fun i hi => List.mem_range.mp (List.mem_filter.mp hi).1
  -- First the jobs for subscriptions that are not linked, each of which leaves its
  -- content blocked, then the others.
  obtain ⟨first, hfirst, hmemfirst⟩ := (progress_start :
      Progress batch linked [] batch.pool).foldl
    (List.nodup_range.filter apart) (by simp) (hlt apart) (by
      intro i hi subscription hsubscription hlinked
      have hnot := (List.mem_filter.mp hi).2
      simp [apart, hsubscription, hlinked] at hnot)
  have hwaiting : ∀ i ∈ indices.filter (fun i => !apart i), i ∉ first := by
    intro i hi hran
    have hnot := (List.mem_filter.mp hi).2
    have hyes := (List.mem_filter.mp (((hmemfirst i).mp hran).resolve_left List.not_mem_nil)).2
    simp [hyes] at hnot
  have hblocked : ∀ i ∈ indices.filter (fun i => !apart i), ∀ subscription,
      batch.subscriptions[i]? = some subscription → linked subscription.id → ∀ later c',
        Progress batch linked later c' → first ⊆ later →
          batch.Blocked subscription c'.world.store := by
    intro i _ subscription hsubscription hlinked later c' hprogress hsub seed hseed
    have hmem := List.mem_of_getElem? hsubscription
    rcases h subscription hmem hlinked seed hseed with hstart | ⟨other, hother, hnot, hcontent⟩
    · exact hprogress.persists.blocked _ _ hstart
    · obtain ⟨k, hk, hget⟩ := List.mem_iff_getElem.mp hother
      have hget? : batch.subscriptions[k]? = some other := by
        rw [List.getElem?_eq_getElem hk, hget]
      have hfirst : k ∈ first := by
        refine (hmemfirst k).mpr (Or.inr (List.mem_filter.mpr ⟨List.mem_range.mpr hk, ?_⟩))
        simp [apart, hget?, hnot]
      obtain ⟨seed', hseed', hsame⟩ := Option.map_eq_some_iff.mp hcontent
      have hblocking := hprogress.blocked k (hsub hfirst) other hget? seed' hseed'
      rwa [hsame, (batch.owned other hother).1, ← (batch.owned subscription hmem).1] at hblocking
  obtain ⟨second, hsecond, hmemsecond⟩ := hfirst.foldl
    (List.nodup_range.filter fun i => !apart i) hwaiting (hlt fun i => !apart i) hblocked
  obtain ⟨steps, hsteps⟩ := exists_exec_eq_foldl batch.pool
    (indices.filter apart ++ indices.filter fun i => !apart i)
  refine ⟨steps, ?_, ?_⟩
  · rw [hsteps]
    refine finished_foldl_finish fun i hi => ?_
    rw [Batch.length_pool] at hi
    rw [List.mem_append, List.mem_filter, List.mem_filter]
    rcases hside : apart i with _ | _ <;> simp [indices, hi]
  · rw [hsteps, List.foldl_append]
    exact hsecond.avoids

/-- Every schedule dispatches for a linked subscription exactly when the content of
one of them is not blocked and is to be deployed for linked ones only. -/
theorem Batch.dispatches_linked_iff (batch : Batch) (linked : ℕ → Prop) :
    (∀ steps : List ℕ, (batch.pool.exec (steps.map .act)).Finished →
      ∃ i id, DispatchedFor (batch.pool.exec (steps.map .act)).world.log i id ∧ linked id) ↔
      ∃ subscription ∈ batch.subscriptions, linked subscription.id ∧ ∃ content,
        batch.start.contentFor batch.platform subscription = some content ∧
        (∀ row ∈ batch.start.deployments.rows, ¬ Blocking batch.garden.id content row) ∧
        ∀ other ∈ batch.subscriptions,
          batch.start.contentFor batch.platform other = some content → linked other.id := by
  constructor
  · intro hall
    by_contra hnone
    push Not at hnone
    obtain ⟨steps, hfinished, havoids⟩ := batch.exists_avoiding linked (by
      intro subscription hmem hlinked seed hseed
      by_cases hblocked : ∃ row ∈ batch.start.deployments.rows, Blocking subscription.gardenId
          (computeContentHash batch.platform [seed.id]) row
      · exact Or.inl hblocked
      · push Not at hblocked
        rw [(batch.owned subscription hmem).1] at hblocked
        have hcontent : batch.start.contentFor batch.platform subscription =
            some (computeContentHash batch.platform [seed.id]) := by
          rw [Db.contentFor, hseed, Option.map_some]
        obtain ⟨other, hother, hsame, hnot⟩ := hnone subscription hmem hlinked _ hcontent hblocked
        exact Or.inr ⟨other, hother, hnot, hsame⟩)
    obtain ⟨i, id, hdispatched, hlinked⟩ := hall steps hfinished
    exact havoids i id hdispatched hlinked
  · rintro ⟨subscription, hmem, _, content, hcontent, hfree, honly⟩ steps hfinished
    obtain ⟨i, hlt, hget⟩ := List.mem_iff_getElem.mp hmem
    have hmember : batch.Member content i :=
      ⟨subscription, (List.getElem?_eq_getElem hlt).trans (congrArg some hget), hcontent⟩
    obtain ⟨j, other, ⟨other', hother', hsame⟩, hother, hdispatched⟩ :=
      batch.dispatched_of_finished hfree hmember hfinished
    rw [hother] at hother'
    cases hother'
    exact ⟨j, other.id, hdispatched, honly other (List.mem_of_getElem? hother) hsame⟩

end Orders

end Sower.Server
