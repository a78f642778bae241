import Sower.Server.Operations

/-!
# What a replay and a retry broadcast

A new deployment is broadcast with the entries it was requested with; a replay
and a retry build the entries again from the stored links. Here the two are
compared: a direct action is lost by the retry, and which subscription an entry
gets depends on all linked subscriptions of the seed's name and type.
-/

namespace Sower.Server

open Sower.Calendar Sower.Policy Sower.Wire Process Keyed Interleaving

section Broadcasts

/-- Payloads with which the deployment of a row may be broadcast again. The
database returns the links of the row in any order. -/
inductive Rebroadcast (db : Db) (row : Deployment) : Wire.Deployment → Prop
  | replay (platform : Platform) (requestId : Sid) :
    Rebroadcast db row (deploymentEventPayload (db.load platform row) requestId)
  | retry (platform : Platform) (ordinal : ℕ) (now : DateTime) (requestId : Sid) :
    Rebroadcast db row
      (deploymentEventPayload (db.tick.retryOf (db.load platform row) ordinal now) requestId)

variable {platform : Platform} {db : Db} {payload : Wire.Deployment}

/-- The store may have changed since the deployment was loaded. -/
theorem replay_rebroadcast {garden : Garden} {row : Deployment} {topic : Sid} {later : Db}
    (h : .replayed topic payload ∈ (replay garden (db.load platform row)).events later) :
    Rebroadcast db row payload := by
  change Event.replayed topic payload ∈
    [Event.replayed garden.id (deploymentEventPayload (db.load platform row) later.requests)] at h
  obtain ⟨_, rfl⟩ := (by simpa using h : topic = garden.id ∧ payload = _)
  exact .replay platform later.requests

theorem retryDeployment_rebroadcast {id userId : ℕ} {garden : Sid}
    (h : .retried id garden payload ∈ (retryDeployment platform id userId).events db) :
    ∃ row, db.deployments.find? id = some row ∧ Rebroadcast db row payload := by
  unfold retryDeployment at h
  rw [Proc.events_atomic] at h
  split at h
  · cases h
  · split at h
    · cases h
    · rename_i row hrow
      split at h
      · cases h
      · split at h
        · cases h
        · split at h
          · cases h
          · unfold Db.insertRetry at h
            split at h
            · obtain ⟨_, _, rfl⟩ := (by simpa using h : _ ∧ _ ∧ payload = _)
              exact ⟨row, hrow, .retry platform _ _ _⟩
            · cases h

end Broadcasts

section Entries

variable {db : Db} {row deployment : Deployment} {entry : SeedDeployment}

/-- Entry of the seed with the given key, built from the subscriptions in the
order in which they were loaded. -/
def rebuiltEntry (db : Db) (deployment : Deployment) (subscriptions : List Subscription) (id : ℕ) :
    Option SeedDeployment :=
  (db.seeds.find? id).map (Loaded.entry ⟨deployment, [], subscriptions⟩)

theorem rebuiltEntry_key {subscriptions : List Subscription} {id : ℕ}
    (h : rebuiltEntry db deployment subscriptions id = some entry) : entry.seed.sid = id := by
  obtain ⟨seed, hseed, rfl⟩ := Option.map_eq_some_iff.mp h
  exact (Table.find?_eq_some_iff.mp hseed).2

/-- The entries of loaded links are the original ones exactly when each seed
leads back to its entry. -/
theorem buildSeedDeployments_perm_iff (platform : Platform) (deployment : Deployment)
    {entries : List SeedDeployment}
    (hseeds : row.seeds = entries.map fun entry => entry.seed.sid) :
    (buildSeedDeployments { db.load platform row with deployment := deployment }).Perm entries ↔
      ∀ entry ∈ entries, rebuiltEntry db deployment (db.load platform row).subscriptions
        entry.seed.sid = some entry := by
  have hbuilt : buildSeedDeployments { db.load platform row with deployment := deployment } =
      (platform.arrange row.seeds).filterMap
        (rebuiltEntry db deployment (db.load platform row).subscriptions) := by
    unfold buildSeedDeployments Db.load
    rw [List.map_filterMap]
    rfl
  rw [hbuilt]
  refine filterMap_perm_iff rebuiltEntry_key ?_
  rw [← hseeds]
  exact platform.arrange_perm row.seeds

/-- Linked subscriptions that still exist. -/
def Db.linked (db : Db) (row : Deployment) : List Subscription :=
  row.subscriptions.filterMap db.subscriptions.find?

/-- The subscription is for the seed's name and type. -/
def Subscription.covers (subscription : Subscription) (seed : Wire.Seed) : Bool :=
  subscription.seedName = seed.name && subscription.seedType = seed.seedType

/-- The subscription of the entry is the one linked subscription that covers its
seed; it has none when there is none. -/
def Unambiguous (db : Db) (row : Deployment) (entry : SeedDeployment) : Prop :=
  ∀ id, entry.subscriptionSid = some id ↔
    ∃ subscription ∈ db.linked row, subscription.covers entry.seed = true ∧ subscription.id = id

/-- Move a key to the front of the keys. -/
def front (id : ℕ) (ids : List ℕ) : List ℕ := if id ∈ ids then id :: ids.erase id else ids

theorem front_perm (id : ℕ) (ids : List ℕ) : (front id ids).Perm ids := by
  unfold front
  split
  · rename_i hid
    exact (List.perm_cons_erase hid).symm
  · exact .refl _

/-- In every order of the links the entry's subscription is the first that
covers the seed exactly when it is the only one. -/
theorem linkedSubscription_iff {seed : Seed} (hseed : seed.toWire = entry.seed) :
    (∀ platform : Platform, (linkedSubscription (db.load platform row).subscriptions seed).map
      Subscription.id = entry.subscriptionSid) ↔ Unambiguous db row entry := by
  have hfind (subscriptions : List Subscription) : linkedSubscription subscriptions seed =
      subscriptions.find? (Subscription.covers · entry.seed) := by
    rw [← hseed]
    rfl
  have hloaded (platform : Platform) :
      (db.load platform row).subscriptions.Perm (db.linked row) :=
    (platform.arrange_perm row.subscriptions).filterMap _
  simp only [hfind]
  constructor
  · intro hall id
    constructor
    · intro hsid
      rw [← hall .plain] at hsid
      obtain ⟨subscription, hsubscription, hid⟩ := Option.map_eq_some_iff.mp hsid
      have hmem := (hloaded .plain).mem_iff.mp (List.mem_of_find?_eq_some hsubscription)
      have hcovers : subscription.covers entry.seed = true := by
        simpa using List.find?_some hsubscription
      exact ⟨subscription, hmem, hcovers, hid⟩
    · rintro ⟨subscription, hmem, hcovers, rfl⟩
      obtain ⟨id, hid, hsubscription⟩ := List.mem_filterMap.mp hmem
      obtain rfl := (Table.find?_eq_some_iff.mp hsubscription).2
      have hfirst := hall { Platform.plain with
        arrange := front subscription.id
        arrange_perm := front_perm subscription.id }
      rw [← hfirst]
      unfold Db.load
      dsimp only
      rw [front, if_pos hid, List.filterMap_cons_some hsubscription]
      simp [hcovers]
  · intro hone platform
    rcases hfound : (db.load platform row).subscriptions.find?
        (Subscription.covers · entry.seed) with _ | subscription
    · rcases hsid : entry.subscriptionSid with _ | id
      · rfl
      · obtain ⟨subscription, hmem, hcovers, _⟩ := (hone id).mp hsid
        have hnone := List.find?_eq_none.mp hfound subscription
          ((hloaded platform).mem_iff.mpr hmem)
        exact absurd hcovers hnone
    · have hmem := (hloaded platform).mem_iff.mp (List.mem_of_find?_eq_some hfound)
      have hcovers : subscription.covers entry.seed = true := by
        simpa using List.find?_some hfound
      exact ((hone subscription.id).mpr ⟨subscription, hmem, hcovers, rfl⟩).symm

/-- Everything of the entry is found again behind the row. -/
structure Rebuildable (db : Db) (row : Deployment) (entry : SeedDeployment) : Prop where
  /-- It was not deployed directly. -/
  undirected : entry.action = none ∧ entry.override = false
  rowUndirected : row.directAction = none ∧ row.directOverride = false
  /-- Its seed got no other name and no further tags. -/
  sameSeed : (db.seeds.find? entry.seed.sid).map Seed.toWire = some entry.seed
  unambiguous : Unambiguous db row entry

/-- When a key leads back to its entry. -/
theorem rebuiltEntry_eq_some_iff {subscriptions : List Subscription} :
    rebuiltEntry db deployment subscriptions entry.seed.sid = some entry ↔
      ∃ seed, db.seeds.find? entry.seed.sid = some seed ∧ seed.toWire = entry.seed ∧
        (linkedSubscription subscriptions seed).map Subscription.id = entry.subscriptionSid ∧
        deployment.directAction = entry.action ∧ deployment.directOverride = entry.override := by
  unfold rebuiltEntry
  rw [Option.map_eq_some_iff]
  refine exists_congr fun seed => and_congr_right fun _ => ?_
  obtain ⟨wire, sid, action, override⟩ := entry
  simp [Loaded.entry]

/-- All replays and retries keep the entries exactly when each one is found
again. -/
theorem rebroadcast_iff_rebuildable {entries : List SeedDeployment}
    (hseeds : row.seeds = entries.map fun entry => entry.seed.sid) :
    (∀ payload, Rebroadcast db row payload → payload.seedDeployments.Perm entries) ↔
      ∀ entry ∈ entries, Rebuildable db row entry := by
  constructor
  · intro hall entry hentry
    have hreplay (platform : Platform) := rebuiltEntry_eq_some_iff.mp <|
      (buildSeedDeployments_perm_iff platform row hseeds).mp (hall _ (.replay platform 1)) entry hentry
    have hretry := rebuiltEntry_eq_some_iff.mp <|
      (buildSeedDeployments_perm_iff .plain _ hseeds).mp (hall _ (.retry .plain 1 0 1)) entry hentry
    obtain ⟨seed, hseed, hwire, _, haction, hoverride⟩ := hreplay .plain
    obtain ⟨_, _, _, _, hnone, hfalse⟩ := hretry
    have hnone : none = entry.action := hnone
    have hfalse : false = entry.override := hfalse
    refine ⟨⟨hnone.symm, hfalse.symm⟩, ⟨haction.trans hnone.symm, hoverride.trans hfalse.symm⟩, ?_, ?_⟩
    · rw [hseed, Option.map_some, hwire]
    · refine (linkedSubscription_iff hwire).mp fun platform => ?_
      obtain ⟨seed', hseed', _, hsubscription, _⟩ := hreplay platform
      rw [hseed] at hseed'
      cases hseed'
      exact hsubscription
  · intro hall payload hagain
    have hback (platform : Platform) (deployment : Deployment)
        (hdirect : deployment.directAction = none ∧ deployment.directOverride = false) :
        ∀ entry ∈ entries, rebuiltEntry db deployment (db.load platform row).subscriptions
          entry.seed.sid = some entry := by
      intro entry hentry
      obtain ⟨hundirected, _, hsame, hone⟩ := hall entry hentry
      obtain ⟨seed, hseed, hwire⟩ := Option.map_eq_some_iff.mp hsame
      refine rebuiltEntry_eq_some_iff.mpr ⟨seed, hseed, hwire,
        (linkedSubscription_iff hwire).mpr hone platform, ?_, ?_⟩
      · rw [hdirect.1, hundirected.1]
      · rw [hdirect.2, hundirected.2]
    cases hagain with
    | replay platform requestId =>
      refine (buildSeedDeployments_perm_iff platform row hseeds).mpr fun entry hentry => ?_
      exact hback platform row (hall entry hentry).rowUndirected entry hentry
    | retry platform ordinal now requestId =>
      exact (buildSeedDeployments_perm_iff platform _ hseeds).mpr (hback platform _ ⟨rfl, rfl⟩)

end Entries

section Runs

variable {platform : Platform} {db : Db} {c : Pool Db Event}

/-- In every interleaving, the deployment behind a broadcast payload is replayed
and retried with the payload's entries exactly when each entry is found again. -/
theorem rebroadcast_iff {i : ℕ} {garden : Sid} {payload : Wire.Deployment}
    (hreach : Reachable (Served platform) (Pool.start db) c)
    (hsent : (i, .dispatched garden payload) ∈ c.world.log) (hnew : payload.skipped = false) :
    ∃ row, c.world.store.deployments.find? payload.sid = some row ∧
      ((∀ again, Rebroadcast c.world.store row again →
          again.seedDeployments.Perm payload.seedDeployments) ↔
        ∀ entry ∈ payload.seedDeployments, Rebuildable c.world.store row entry) := by
  have hannounced : (Event.dispatched garden payload).announced = some payload := by
    simp [Event.announced, hnew]
  obtain ⟨row, hrow, hseeds⟩ := (serverContract_of_reachable hreach).2 i _ payload hsent hannounced
  exact ⟨row, hrow, rebroadcast_iff_rebuildable hseeds⟩

/-- A machine whose garden may be staged directly. -/
def stageable : Garden := ⟨1, [{ actions := ["stage"] }], none⟩

/-- A system for the machine. -/
def hostSeed : Seed := ⟨1, "host", "nixos", "/nix/store/host", [], 0⟩

/-- The store of the machine before its first deployment. -/
def beforeStage : Db where
  gardens := Table.empty.insert (fun id => { stageable with id := id }) fun _ => rfl
  seeds := Table.empty.insert (fun id => { hostSeed with id := id }) fun _ => rfl
  clock := fun n => n

/-- The system is staged directly and broadcast. -/
def afterStage : Pool Db Event :=
  scheduled .plain beforeStage [.deployDirect stageable hostSeed { action := some "stage" }]
    (List.replicate 9 0)

/-- What the machine was sent. -/
def stagePayload : Wire.Deployment where
  requestId := some 1
  sid := 1
  seedDeployments := [{ seed := hostSeed.toWire, action := some "stage" }]

theorem rebroadcast_iff_stage :
    ∃ row, afterStage.world.store.deployments.find? 1 = some row ∧
      ((∀ again, Rebroadcast afterStage.world.store row again →
          again.seedDeployments.Perm stagePayload.seedDeployments) ↔
        ∀ entry ∈ stagePayload.seedDeployments, Rebuildable afterStage.world.store row entry) :=
  rebroadcast_iff (i := 0) (scheduled_reachable _ _ _)
    (by decide : (0, .dispatched 1 stagePayload) ∈ afterStage.world.log) rfl

/-- The retry of a direct stage leaves the action to a policy. -/
theorem rebroadcast_fails_for_stage :
    ¬ ∀ (platform : Platform) (db : Db) (c : Pool Db Event) (i : ℕ) (garden : Sid)
      (payload : Wire.Deployment), Reachable (Served platform) (Pool.start db) c →
      (i, .dispatched garden payload) ∈ c.world.log → payload.skipped = false →
      ∀ row, c.world.store.deployments.find? payload.sid = some row →
        ∀ again, Rebroadcast c.world.store row again →
          again.seedDeployments.Perm payload.seedDeployments := by
  intro h
  have hstage := h .plain beforeStage afterStage 0 1 stagePayload (scheduled_reachable _ _ _)
    (by decide) rfl
  have hretry : (afterStage.world.store.deployments.find? 1).map (fun row =>
      decide ((buildSeedDeployments (afterStage.world.store.tick.retryOf
        (afterStage.world.store.load .plain row) 1 0)).Perm stagePayload.seedDeployments)) =
      some false := by decide
  obtain ⟨row, hrow, hnot⟩ := Option.map_eq_some_iff.mp hretry
  exact of_decide_eq_false hnot (hstage row hrow _ (.retry .plain 1 0 1))

end Runs

end Sower.Server
