import Sower.Server.Operations

/-!
# Answers that say the work is already done

A deployment request without force is skipped when an unresolved or successful
deployment of the garden has the same content. The content is a hash of the seed
keys: it knows neither the action nor what was deployed since. Here the skipped
answers are traced to the row they point at.
-/

namespace Sower.Server

open Sower.Calendar Sower.Policy Sower.Wire Process Keyed

section Answers

variable {platform : Platform} {requestId : Sid} {gardenId : ℕ} {entries : List SeedDeployment}
  {subscriptions : List Subscription} {opts : DeployOpts} {db : Db}

/-- Content of the requested entries. -/
def contentOf (platform : Platform) (entries : List SeedDeployment) : String :=
  computeContentHash platform (entries.map fun entry => entry.seed.sid)

/-- A duplicate is answered with its own identifier, and nothing changes. -/
theorem dispatch_run_of_duplicate {existing : Deployment} (hne : entries ≠ [])
    (hforce : opts.force = false)
    (h : db.duplicate gardenId (contentOf platform entries) = some existing) :
    (dispatchSeedDeploys platform requestId gardenId entries subscriptions opts).run db =
      (.ok ⟨some requestId, existing.id, entries, true⟩, db,
        [.checked gardenId (contentOf platform entries)]) := by
  have hseeds : entries.map (fun entry => entry.seed.sid) ≠ [] := by simpa using hne
  have hfound : (findDuplicateDeployment gardenId (contentOf platform entries) opts.force).run db =
      (some existing, db, [.checked gardenId (contentOf platform entries)]) := by
    rw [findDuplicateDeployment, hforce, ← h]
    rfl
  unfold contentOf at hfound
  unfold dispatchSeedDeploys
  dsimp only
  rw [if_neg hseeds, Proc.run_bind, hfound]
  rfl

theorem dispatch_of_duplicate {existing : Deployment} (hne : entries ≠ [])
    (hforce : opts.force = false)
    (h : db.duplicate gardenId (contentOf platform entries) = some existing) :
    (dispatchSeedDeploys platform requestId gardenId entries subscriptions opts).result db =
      .ok ⟨some requestId, existing.id, entries, true⟩ :=
  congrArg Prod.fst (dispatch_run_of_duplicate hne hforce h)

/-- Without a duplicate nothing is skipped. -/
theorem dispatch_not_skipped {payload : Wire.Deployment}
    (h : opts.force = true ∨ db.duplicate gardenId (contentOf platform entries) = none)
    (hanswer : (dispatchSeedDeploys platform requestId gardenId entries subscriptions opts).result
      db = .ok payload) : payload.skipped = false := by
  unfold dispatchSeedDeploys at hanswer
  dsimp only at hanswer
  split at hanswer
  · cases hanswer
  · have hnone : (findDuplicateDeployment gardenId
        (computeContentHash platform (entries.map fun entry => entry.seed.sid)) opts.force).result
        db = none := by
      unfold findDuplicateDeployment
      rcases h with hforce | hfresh
      · rw [if_pos hforce]
        rfl
      · split
        · rfl
        · exact hfresh
    rw [Proc.result_bind, hnone] at hanswer
    dsimp only at hanswer
    simp only [Proc.result_bind] at hanswer
    split at hanswer
    · cases hanswer
    · simp only [Proc.result_bind] at hanswer
      cases hanswer
      rfl

/-- Which deployment is a duplicate depends on the deployments only. -/
theorem duplicate_congr {db' : Db} (h : db'.deployments = db.deployments) (content : String) :
    db'.duplicate gardenId content = db.duplicate gardenId content := by
  unfold Db.duplicate Db.duplicates
  rw [h]

/-- A duplicate is a stored row that blocks the content. -/
theorem duplicate_spec {existing : Deployment} {content : String}
    (h : db.duplicate gardenId content = some existing) :
    db.deployments.find? existing.id = some existing ∧ existing.gardenId = gardenId ∧
      existing.contentHash = content ∧ existing.blocks = true := by
  obtain ⟨hmem, hcond⟩ := List.mem_filter.mp (List.argmax_mem h)
  simp only [Bool.and_eq_true, decide_eq_true_eq] at hcond
  exact ⟨Table.find?_of_mem hmem, hcond.1.1, hcond.1.2, hcond.2⟩

/-- There is a duplicate as soon as some row blocks the content. -/
theorem exists_duplicate {row : Deployment} {content : String}
    (hrow : row ∈ db.deployments.rows) (hgarden : row.gardenId = gardenId)
    (hcontent : row.contentHash = content) (hblocks : row.blocks = true) :
    ∃ existing, db.duplicate gardenId content = some existing := by
  have hmem : row ∈ db.duplicates gardenId content := by
    refine List.mem_filter.mpr ⟨hrow, ?_⟩
    simp [hgarden, hcontent, hblocks]
  rcases hduplicate : db.duplicate gardenId content with _ | existing
  · unfold Db.duplicate at hduplicate
    rw [List.argmax_eq_none.mp hduplicate] at hmem
    cases hmem
  · exact ⟨existing, rfl⟩

end Answers

section Direct

variable {platform : Platform} {garden : Garden} {seed : Seed} {opts : DirectOpts} {db : Db}
  {carriedOut : ℕ → Option Action}

/-- Authorizing a direct deployment changes no deployment. -/
theorem authorizeDirect_deployments :
    ((authorizeDirect platform garden seed opts).final db).deployments = db.deployments := by
  unfold authorizeDirect
  dsimp only
  split
  · rfl
  · split
    · rfl
    · split
      · rfl
      · split
        · rw [Proc.final_bind]
          split <;> rfl
        · rw [Proc.final_bind]
          split <;> rfl

/-- The direct deployment is not refused. -/
def Authorizes (platform : Platform) (garden : Garden) (seed : Seed) (opts : DirectOpts)
    (db : Db) : Prop :=
  ∃ granted, (authorizeDirect platform garden seed opts).result db = .ok granted

/-- The requested action. -/
def DirectOpts.requested (opts : DirectOpts) : Option Action :=
  Action.ofName? (opts.action.getD "activate")

/-- The deployment carries, or its garden carried out, an action at least as
disruptive as the requested one. Only the garden knows what it carried out. -/
def CarriesAtLeast (carriedOut : ℕ → Option Action) (requested : Option Action)
    (row : Deployment) : Prop :=
  ∃ action done, requested = some action ∧
    (row.directAction.bind Action.ofName? = some done ∨ carriedOut row.id = some done) ∧
    action ≤ done

/-- A skipped answer points at a deployment that does the requested work. -/
def NeverSwallows (platform : Platform) (garden : Garden) (seed : Seed) (opts : DirectOpts)
    (carriedOut : ℕ → Option Action) (db : Db) : Prop :=
  ∀ payload, (deployDirect platform garden seed opts).result db = .ok payload →
    payload.skipped = true →
    ∃ row, db.deployments.find? payload.sid = some row ∧
      CarriesAtLeast carriedOut opts.requested row

/-- An authorized direct deployment answers as the dispatch of its one entry. -/
theorem deployDirect_result {granted : String} {override : Bool}
    (hgranted : (authorizeDirect platform garden seed opts).result db = .ok (granted, override)) :
    ∃ requestId subscription db', db'.deployments = db.deployments ∧
      ∀ payload, (deployDirect platform garden seed opts).result db = .ok payload ↔
        (dispatchSeedDeploys platform requestId garden.id
          [directEntry seed subscription granted override] subscription.toList
          (opts.dispatch granted override)).result db' = .ok payload := by
  let authorized := (authorizeDirect platform garden seed opts).final db
  refine ⟨newRequestId.result authorized,
    (findForGardenSeed garden seed.name seed.seedType).result authorized,
    newRequestId.final authorized, authorizeDirect_deployments, fun payload => ?_⟩
  simp only [deployDirect, Proc.result_bind, hgranted]
  split
  · rename_i sent hsent
    have hsame : (.ok sent : Except DeployError Wire.Deployment) = .ok payload ↔
        (.ok sent : Except DispatchError Wire.Deployment) = .ok payload := by simp
    exact ⟨fun h => hsent.trans (hsame.mp h), fun h => hsame.mpr (hsent.symm.trans h)⟩
  · rename_i hrefused
    exact ⟨fun h => (by cases h), fun h => (by cases hrefused.symm.trans h)⟩
  · rename_i hraised
    exact ⟨fun h => (by cases h), fun h => (by cases hraised.symm.trans h)⟩

theorem contentOf_directEntry (subscription : Option Subscription) (granted : String)
    (override : Bool) : contentOf platform [directEntry seed subscription granted override] =
      computeContentHash platform [seed.id] := rfl

/-- When an authorized direct deployment without force is skipped, and for which row. -/
theorem deployDirect_skipped_iff (hforce : opts.force = false)
    (hauthorizes : Authorizes platform garden seed opts db) (id : Sid) :
    (∃ payload, (deployDirect platform garden seed opts).result db = .ok payload ∧
        payload.skipped = true ∧ payload.sid = id) ↔
      ∃ existing, db.duplicate garden.id (computeContentHash platform [seed.id]) = some existing ∧
        existing.id = id := by
  obtain ⟨⟨granted, override⟩, hgranted⟩ := hauthorizes
  obtain ⟨requestId, subscription, db', hdeployments, hresult⟩ := deployDirect_result hgranted
  rw [← duplicate_congr hdeployments, ← contentOf_directEntry subscription granted override]
  simp only [hresult]
  have hforce' : (opts.dispatch granted override).force = false := hforce
  constructor
  · rintro ⟨payload, hanswer, hskipped, rfl⟩
    rcases hexisting : db'.duplicate garden.id
        (contentOf platform [directEntry seed subscription granted override]) with _ | existing
    · have hfresh := dispatch_not_skipped (Or.inr hexisting) hanswer
      rw [hfresh] at hskipped
      cases hskipped
    · rw [dispatch_of_duplicate (List.cons_ne_nil _ _) hforce' hexisting] at hanswer
      cases hanswer
      exact ⟨existing, rfl, rfl⟩
  · rintro ⟨existing, hexisting, rfl⟩
    exact ⟨_, dispatch_of_duplicate (List.cons_ne_nil _ _) hforce' hexisting, rfl, rfl⟩

/-- Direct deployments are never swallowed exactly when the deployment that blocks
the seed, if there is one, does the requested work. -/
theorem neverSwallows_iff (hforce : opts.force = false) :
    NeverSwallows platform garden seed opts carriedOut db ↔
      (Authorizes platform garden seed opts db → ∀ existing,
        db.duplicate garden.id (computeContentHash platform [seed.id]) = some existing →
          CarriesAtLeast carriedOut opts.requested existing) := by
  constructor
  · intro hnever hauthorizes existing hexisting
    obtain ⟨payload, hanswer, hskipped, hsid⟩ :=
      (deployDirect_skipped_iff hforce hauthorizes existing.id).mpr ⟨existing, hexisting, rfl⟩
    obtain ⟨row, hrow, hcarries⟩ := hnever payload hanswer hskipped
    rw [hsid, (duplicate_spec hexisting).1] at hrow
    cases hrow
    exact hcarries
  · intro hall payload hanswer hskipped
    have hauthorizes : Authorizes platform garden seed opts db := by
      unfold Authorizes
      rcases hgranted : (authorizeDirect platform garden seed opts).result db with reason | granted
      · simp [deployDirect, hgranted] at hanswer
      · exact ⟨granted, rfl⟩
    obtain ⟨existing, hexisting, hid⟩ :=
      (deployDirect_skipped_iff hforce hauthorizes payload.sid).mp ⟨payload, hanswer, hskipped, rfl⟩
    refine ⟨existing, ?_, hall hauthorizes existing hexisting⟩
    rw [← hid]
    exact (duplicate_spec hexisting).1

/-- A machine that may be staged and activated directly. -/
def workstation : Garden := ⟨1, [{ actions := ["stage", "activate"] }], none⟩

/-- The system that is deployed to it. -/
def system : Seed := ⟨1, "host", "nixos", "/nix/store/host", [], 0⟩

/-- The store before the first deployment. -/
def unused : Db where
  gardens := Table.empty.insert (fun id => { workstation with id := id }) fun _ => rfl
  seeds := Table.empty.insert (fun id => { system with id := id }) fun _ => rfl
  clock := fun n => n

/-- The system is staged directly, and the garden reports its success. -/
def staged : Db :=
  unused.after .plain [.deployDirect workstation system { action := some "stage" },
    .recordDeployment 1 .success 1000000]

theorem neverSwallows_iff_staged :
    NeverSwallows .plain workstation system { action := some "stage" } (fun _ => some .stage) staged ↔
      (Authorizes .plain workstation system { action := some "stage" } staged → ∀ existing,
        staged.duplicate 1 (computeContentHash .plain [1]) = some existing →
          CarriesAtLeast (fun _ => some .stage) (some .stage) existing) :=
  neverSwallows_iff rfl

/-- After a successful stage the activation of the same system is skipped. -/
theorem neverSwallows_fails_after_stage :
    ¬ ∀ (platform : Platform) (db : Db) (history : List Operation) (garden : Garden) (seed : Seed)
      (opts : DirectOpts) (carriedOut : ℕ → Option Action), opts.force = false →
      NeverSwallows platform garden seed opts carriedOut (db.after platform history) := by
  intro h
  have hnever : NeverSwallows .plain workstation system { action := some "activate" }
      (fun _ => some .stage) staged :=
    h .plain unused _ workstation system { action := some "activate" } (fun _ => some .stage) rfl
  have hskipped : ((deployDirect .plain workstation system { action := some "activate" }).result
      staged).toOption.map (fun payload => (payload.sid, payload.skipped)) = some (1, true) := by
    decide
  have hstage : (staged.deployments.find? 1).map (fun row => row.directAction.bind Action.ofName?) =
      some (some .stage) := by decide
  rcases hanswer : (deployDirect .plain workstation system { action := some "activate" }).result
      staged with reason | payload
  · rw [hanswer] at hskipped
    cases hskipped
  · rw [hanswer] at hskipped
    obtain ⟨hsid, hskip⟩ := (by simpa [Except.toOption] using hskipped :
      payload.sid = 1 ∧ payload.skipped = true)
    obtain ⟨row, hrow, action, done, hrequested, hdone, hle⟩ := hnever payload hanswer hskip
    rw [hsid] at hrow
    rw [hrow, Option.map_some, Option.some.injEq] at hstage
    rw [hstage] at hdone
    obtain rfl : .stage = done := by simpa using hdone
    obtain rfl : .activate = action := by
      have hname : Action.ofName? "activate" = some .activate := by decide
      simpa [DirectOpts.requested, hname] using hrequested
    exact absurd hle (by decide)

end Direct

section Scheduled

variable {platform : Platform} {requestId : Sid} {gardenId : ℕ} {subscription : Subscription}
  {opts : DeployOpts} {seed : Seed} {db : Db}

/-- Successful deployments of the garden that contain a seed of the same name and
type. -/
def Db.succeeded (db : Db) (gardenId : ℕ) (seed : Seed) : List Deployment :=
  db.deployments.rows.filter fun d => d.gardenId = gardenId && d.result = some .success &&
    d.seeds.any fun id => (db.seeds.find? id).any fun linked =>
      linked.name = seed.name && linked.seedType = seed.seedType

/-- When the deployment was finished; a missing time comes first. -/
def Deployment.finishedAt (deployment : Deployment) : WithBot DateTime := deployment.deployedAt

/-- An unresolved deployment of the garden has the content. -/
def UnresolvedWith (db : Db) (gardenId : ℕ) (content : String) : Prop :=
  ∃ row ∈ db.deployments.rows, row.gardenId = gardenId ∧ row.contentHash = content ∧
    row.state.terminal = false

/-- The most recent of the successful deployments has the content. -/
def LatestSuccessWith (db : Db) (gardenId : ℕ) (seed : Seed) (content : String) : Prop :=
  ∃ row ∈ db.succeeded gardenId seed, row.contentHash = content ∧
    ∀ other ∈ db.succeeded gardenId seed, other.finishedAt ≤ row.finishedAt

/-- A skipped answer to a subscription's deployment says that its content is
being deployed or was deployed last. -/
def SkipsSoundly (platform : Platform) (requestId : Sid) (subscription : Subscription)
    (opts : DeployOpts) (db : Db) : Prop :=
  ∀ seed payload, (seedFor opts subscription).result db = some seed →
    (doDeployment platform requestId subscription.gardenId [subscription] opts).result db =
      .ok payload → payload.skipped = true →
    UnresolvedWith db subscription.gardenId (computeContentHash platform [seed.id]) ∨
      LatestSuccessWith db subscription.gardenId seed (computeContentHash platform [seed.id])

/-- Some success with the content was not overtaken by a later one with another
content. -/
def NotOvertaken (db : Db) (gardenId : ℕ) (seed : Seed) (content : String) : Prop :=
  ∃ row ∈ db.succeeded gardenId seed, row.contentHash = content ∧
    ∀ other ∈ db.succeeded gardenId seed, other.contentHash ≠ content →
      other.finishedAt ≤ row.finishedAt

/-- A content that was not overtaken is the one of the latest success. -/
theorem latestSuccessWith_iff {content : String} :
    LatestSuccessWith db gardenId seed content ↔ NotOvertaken db gardenId seed content := by
  constructor
  · rintro ⟨row, hrow, hcontent, hlatest⟩
    exact ⟨row, hrow, hcontent, fun other hother _ => hlatest other hother⟩
  · rintro ⟨row, hrow, hcontent, hlatest⟩
    have hmem : row ∈ (db.succeeded gardenId seed).filter (·.contentHash = content) :=
      List.mem_filter.mpr ⟨hrow, by simpa using hcontent⟩
    rcases hmax : ((db.succeeded gardenId seed).filter (·.contentHash = content)).argmax
        Deployment.finishedAt with _ | last
    · rw [List.argmax_eq_none.mp hmax] at hmem
      cases hmem
    · obtain ⟨hlast, hsame⟩ := List.mem_filter.mp (List.argmax_mem hmax)
      refine ⟨last, hlast, by simpa using hsame, ?_⟩
      intro other hother
      by_cases hcontent' : other.contentHash = content
      · have hother' : other ∈ (db.succeeded gardenId seed).filter (·.contentHash = content) :=
          List.mem_filter.mpr ⟨hother, by simpa using hcontent'⟩
        exact List.le_of_mem_argmax hother' hmax
      · exact (hlatest other hother hcontent').trans (List.le_of_mem_argmax hmem hmax)

/-- The entry of a subscription with its seed. -/
theorem collectSeeds_single (hseed : (seedFor opts subscription).result db = some seed) :
    (collectSeeds opts [] [subscription]).result db =
        [{ seed := seed.toWire, subscriptionSid := some subscription.id }] ∧
      (collectSeeds opts [] [subscription]).final db = db := by
  have hfinal : (seedFor opts subscription).final db = db := by
    unfold seedFor
    split <;> rfl
  simp only [collectSeeds, Proc.result_bind, Proc.final_bind, hseed, hfinal]
  exact ⟨rfl, rfl⟩

/-- When a subscription's deployment without force is skipped. -/
theorem doDeployment_skipped_iff (hforce : opts.force = false)
    (hseed : (seedFor opts subscription).result db = some seed) :
    (∃ payload, (doDeployment platform requestId subscription.gardenId [subscription] opts).result
        db = .ok payload ∧ payload.skipped = true) ↔
      ∃ existing, db.duplicate subscription.gardenId (computeContentHash platform [seed.id]) =
        some existing := by
  have hrun : (doDeployment platform requestId subscription.gardenId [subscription] opts).result db =
      (dispatchSeedDeploys platform requestId subscription.gardenId
        [{ seed := seed.toWire, subscriptionSid := some subscription.id }] [subscription] opts).result
        db := by
    obtain ⟨hentries, hfinal⟩ := collectSeeds_single hseed
    rw [doDeployment, Proc.result_bind, hentries, hfinal]
  rw [hrun]
  constructor
  · rintro ⟨payload, hanswer, hskipped⟩
    rcases hexisting : db.duplicate subscription.gardenId (computeContentHash platform [seed.id])
      with _ | existing
    · have hnone : db.duplicate subscription.gardenId (contentOf platform
          [{ seed := seed.toWire, subscriptionSid := some subscription.id }]) = none := hexisting
      have hfresh := dispatch_not_skipped (Or.inr hnone) hanswer
      rw [hfresh] at hskipped
      cases hskipped
    · exact ⟨existing, rfl⟩
  · rintro ⟨existing, hexisting⟩
    exact ⟨_, dispatch_of_duplicate (List.cons_ne_nil _ _) hforce hexisting, rfl⟩

/-- Skipping is sound exactly when a content that once succeeded is being deployed
or was not overtaken, so that nothing is rolled back to. -/
theorem skipsSoundly_iff (hforce : opts.force = false) :
    SkipsSoundly platform requestId subscription opts db ↔
      ∀ seed, (seedFor opts subscription).result db = some seed →
        ∀ row ∈ db.deployments.rows, row.gardenId = subscription.gardenId →
          row.contentHash = computeContentHash platform [seed.id] → row.result = some .success →
          UnresolvedWith db subscription.gardenId (computeContentHash platform [seed.id]) ∨
            NotOvertaken db subscription.gardenId seed (computeContentHash platform [seed.id]) := by
  simp only [← latestSuccessWith_iff]
  constructor
  · intro hsound seed hseed row hrow hgarden hcontent hsuccess
    have hblocks : row.blocks = true := by simp [Deployment.blocks, hsuccess]
    obtain ⟨payload, hanswer, hskipped⟩ := (doDeployment_skipped_iff hforce hseed).mpr
      (exists_duplicate hrow hgarden hcontent hblocks)
    exact hsound seed payload hseed hanswer hskipped
  · intro hall seed payload hseed hanswer hskipped
    obtain ⟨existing, hexisting⟩ := (doDeployment_skipped_iff hforce hseed).mp
      ⟨payload, hanswer, hskipped⟩
    obtain ⟨hfind, hgarden, hcontent, hblocks⟩ := duplicate_spec hexisting
    have hrow := (Table.find?_eq_some_iff.mp hfind).1
    by_cases hsuccess : existing.result = some .success
    · exact hall seed hseed existing hrow hgarden hcontent hsuccess
    · left
      refine ⟨existing, hrow, hgarden, hcontent, ?_⟩
      simpa [Deployment.blocks, hsuccess] using hblocks

/-- The machine's subscription to its systems. -/
def hostSubscription : Subscription :=
  ⟨1, 1, "host", "host", "nixos", [], none, none, [], 0⟩

/-- The store of a machine that follows its subscription. -/
def subscribed : Db where
  gardens := Table.empty.insert (fun id => { workstation with id := id }) fun _ => rfl
  subscriptions := Table.empty.insert (fun id => { hostSubscription with id := id }) fun _ => rfl
  clock := fun n => n

/-- The system of the given path is registered. -/
def register (path : String) : Operation := .createSeed "host" "nixos" path [] false

/-- The latest system is deployed, and the garden reports its success. -/
def deployed (id : Sid) (deployedAt : DateTime) : List Operation :=
  [.processDeployment ⟨id, workstation, [hostSubscription], {}⟩,
    .recordDeployment id .success deployedAt]

/-- One system, another one, and the first one registered again. -/
def rolledBack : Db :=
  subscribed.after .plain ([register "/nix/store/a"] ++ deployed 1 10000000 ++
    [register "/nix/store/b"] ++ deployed 2 20000000 ++ [register "/nix/store/a"])

theorem skipsSoundly_iff_rolledBack :
    SkipsSoundly .plain 3 hostSubscription {} rolledBack ↔
      ∀ seed, (seedFor {} hostSubscription).result rolledBack = some seed →
        ∀ row ∈ rolledBack.deployments.rows, row.gardenId = 1 →
          row.contentHash = computeContentHash .plain [seed.id] → row.result = some .success →
          UnresolvedWith rolledBack 1 (computeContentHash .plain [seed.id]) ∨
            NotOvertaken rolledBack 1 seed (computeContentHash .plain [seed.id]) :=
  skipsSoundly_iff rfl

/-- The way back to the first system is skipped. -/
theorem skipsSoundly_fails_for_rollback :
    ¬ ∀ (platform : Platform) (db : Db) (history : List Operation) (requestId : Sid)
      (subscription : Subscription) (opts : DeployOpts), opts.force = false →
      SkipsSoundly platform requestId subscription opts (db.after platform history) := by
  intro h
  have hsound : SkipsSoundly .plain 3 hostSubscription {} rolledBack :=
    h .plain subscribed _ 3 hostSubscription {} rfl
  have hmatched : (seedFor {} hostSubscription).result rolledBack =
      some ⟨1, "host", "nixos", "/nix/store/a", [], 6⟩ := by decide
  have hskipped : ((doDeployment .plain 3 1 [hostSubscription] {}).result rolledBack).toOption.map
      Wire.Deployment.skipped = some true := by decide
  have hresolved : ¬ UnresolvedWith rolledBack 1 "1" := by
    unfold UnresolvedWith
    decide
  have hovertaken : ¬ LatestSuccessWith rolledBack 1
      ⟨1, "host", "nixos", "/nix/store/a", [], 6⟩ "1" := by
    unfold LatestSuccessWith
    decide
  have hcontent : computeContentHash .plain [1] = "1" := by decide
  rcases hanswer : (doDeployment .plain 3 1 [hostSubscription] {}).result rolledBack with
    reason | payload
  · rw [hanswer] at hskipped
    cases hskipped
  · rw [hanswer] at hskipped
    have hskip : payload.skipped = true := by simpa [Except.toOption] using hskipped
    have hanswers := hsound _ payload hmatched hanswer hskip
    rw [hcontent] at hanswers
    exact hanswers.elim hresolved hovertaken

end Scheduled

end Sower.Server
