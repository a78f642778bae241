import Mathlib.Data.List.Infix
import Sower.Server.Deployments

/-!
# Seed reports

A garden reports the generations of its profiles. The server keeps one row for
each generation of the garden and registers the store paths it does not know,
under a name and a type that it derives from the path and the profile. The
report is one transaction: where a path cannot be registered it raises, and
nothing of the report stays.
-/

namespace Sower.Server

open Sower.Calendar Sower.Wire Keyed

section Schema

/-- One generation of a profile. -/
structure Generation where
  path : String
  generationNumber : Option ℤ
  /-- Time of its creation; none when the text cannot be read. -/
  created : Option DateTime
  isCurrent : Bool
  deriving DecidableEq, Repr

structure SeedProfile where
  profilePath : String
  tags : List (String × String) := []
  generations : List Generation
  deriving DecidableEq, Repr

structure SeedsReport where
  profiles : List SeedProfile
  deriving DecidableEq, Repr

/-- The garden that reports. -/
structure Reporter where
  id : ℕ
  sid : String
  name : String
  deriving DecidableEq, Repr

structure NixProfile where
  id : ℕ
  profilePath : String
  deriving DecidableEq, Repr

structure GardenSeedGeneration where
  id : ℕ
  gardenId : ℕ
  profileId : ℕ
  seedId : ℕ
  generationNumber : Option ℤ
  isCurrent : Bool
  createdAtGeneration : DateTime
  deriving DecidableEq, Repr

/-- The database with the tables that only reports touch. -/
structure ReportDb where
  db : Db
  nixProfiles : Table NixProfile NixProfile.id := .empty
  generations : Table GardenSeedGeneration GardenSeedGeneration.id := .empty

/-- The columns of a seed to be registered. -/
structure NewSeed where
  name : String
  seedType : String
  artifact : String
  tags : List (String × String)
  deriving DecidableEq, Repr

end Schema

section StorePaths

/-- `Path.basename`: the last part that is not empty. -/
def basename (path : String) : List Char :=
  ((path.toList.splitOn '/').filter (· ≠ [])).getLastD []

/-- Name and tags from a store path. -/
def extractInfoFromStorePath (path : String) : String × List (String × String) :=
  match (basename path).span (· ≠ '-') with
  | (name, []) => (String.ofList name, [])
  | (_hash, _ :: name) =>
    match (name.splitOn '-').map String.ofList with
    | ["nixos", "system", host, nixosVersion] => (host, [("nixos_version", nixosVersion)])
    | _ => (String.ofList name, [])

def seedTypeFromProfilePath (profilePath : String) : String :=
  if "home-manager".toList <:+: profilePath.toList then "home-manager"
  else if "/nix/var/nix/profiles/system".toList <:+: profilePath.toList then "nixos"
  else if "nix-darwin".toList <:+: profilePath.toList then "nix-darwin"
  else "nixos"

/-- The seed that `register` creates for a path: the tags name the garden it came from. -/
def reportedSeed (garden : Reporter) (profile : SeedProfile) (path : String) : NewSeed :=
  let (name, pathTags) := extractInfoFromStorePath path
  let seedType := seedTypeFromProfilePath profile.profilePath
  { name :=
      if seedType = "home-manager" then
        match profile.tags.lookup "user" with
        | none => name
        | some userName => userName ++ "@" ++ garden.name
      else name
    seedType := seedType
    artifact := path
    tags := pathTags ++ [("garden_source", garden.sid)] ++ profile.tags }

theorem garden_source_mem_reportedSeed (garden : Reporter) (profile : SeedProfile) (path : String) :
    ("garden_source", garden.sid) ∈ (reportedSeed garden profile path).tags := by
  simp [reportedSeed]

end StorePaths

section Resolving

/-- One resolved generation. -/
structure GenerationRow where
  seedId : ℕ
  generationNumber : Option ℤ
  isCurrent : Bool
  createdAtGeneration : DateTime
  deriving DecidableEq, Repr

/-- What resolving carries along: the database, the seeds by artifact and the rows,
the latest first. -/
structure Resolving where
  db : Db
  seedsByArtifact : List (String × ℕ)
  rows : List GenerationRow

/-- `find_or_register`. None where registering raises; what the changeset and the columns
accept is a parameter. -/
def Db.findOrRegister (accepts : NewSeed → Bool) (garden : Reporter) (profile : SeedProfile)
    (path : String) (db : Db) : Option (Db × ℕ) :=
  match db.seeds.rows.filter (·.artifact = path) with
  | [] =>
    let seed := reportedSeed garden profile path
    if accepts seed then
      some (db.registerSeed seed.name seed.seedType seed.artifact seed.tags false, db.seeds.next)
    else none
  | [seed] => some (db, seed.id)
  | _ => none

def Resolving.addRow (resolving : Resolving) (gen : Generation) (seedId : ℕ) : Resolving :=
  match gen.created with
  | none => resolving
  | some created =>
    let row : GenerationRow :=
      ⟨seedId, gen.generationNumber, gen.isCurrent, created / 1000000 * 1000000⟩
    { resolving with rows := row :: resolving.rows }

/-- Resolve one generation. -/
def Resolving.generation (accepts : NewSeed → Bool) (garden : Reporter) (profile : SeedProfile)
    (resolving : Resolving) (gen : Generation) : Option Resolving :=
  match resolving.seedsByArtifact.lookup gen.path with
  | some seedId => some (resolving.addRow gen seedId)
  | none =>
    (resolving.db.findOrRegister accepts garden profile gen.path).map fun (db, seedId) =>
      ({ resolving with
          db := db
          seedsByArtifact := (gen.path, seedId) :: resolving.seedsByArtifact }).addRow gen seedId

/-- The last current row decides which seed is current. -/
def normalizeCurrentGenerationRows (rows : List GenerationRow) : List GenerationRow :=
  match (rows.filter (·.isCurrent)).getLast? with
  | none => rows
  | some current => rows.map fun row => { row with isCurrent := row.seedId = current.seedId }

/-- `Enum.uniq_by` on the seed. -/
def uniqBySeed : List GenerationRow → List GenerationRow
  | [] => []
  | row :: rows => row :: (uniqBySeed rows).filter (·.seedId ≠ row.seedId)

/-- `resolve_profile_generation_rows`. -/
def Db.resolveProfileGenerationRows (accepts : NewSeed → Bool) (garden : Reporter)
    (profile : SeedProfile) (db : Db) : Option (Db × List GenerationRow) :=
  let artifacts := profile.generations.map (·.path)
  let seedsByArtifact :=
    ((db.seeds.rows.filter (·.artifact ∈ artifacts)).map fun seed =>
      (seed.artifact, seed.id)).reverse
  (profile.generations.foldlM (Resolving.generation accepts garden profile)
      ⟨db, seedsByArtifact, []⟩).map fun resolving =>
    (resolving.db,
      (uniqBySeed (normalizeCurrentGenerationRows resolving.rows.reverse).reverse).reverse)

end Resolving

section Syncing

/-- `NixProfile.find_or_create!`. -/
def ReportDb.findOrCreateProfile (r : ReportDb) (profilePath : String) : ReportDb × ℕ :=
  match r.nixProfiles.rows.find? (·.profilePath = profilePath) with
  | some profile => (r, profile.id)
  | none =>
    ({ r with nixProfiles := r.nixProfiles.insert (fun id => ⟨id, profilePath⟩) fun _ => rfl },
      r.nixProfiles.next)

def ReportDb.upsertGardenGeneration (gardenId profileId : ℕ) (r : ReportDb)
    (row : GenerationRow) : ReportDb :=
  let known : GardenSeedGeneration → Bool := fun g =>
    g.gardenId = gardenId && g.seedId = row.seedId
  if r.generations.rows.any known then
    { r with
      generations := r.generations.update known
        (fun g => { g with
          profileId := profileId
          generationNumber := row.generationNumber
          isCurrent := row.isCurrent
          createdAtGeneration := row.createdAtGeneration })
        fun _ => rfl }
  else
    { r with
      generations := r.generations.insert (fun id =>
        ⟨id, gardenId, profileId, row.seedId, row.generationNumber, row.isCurrent,
          row.createdAtGeneration⟩)
        fun _ => rfl }

/-- `sync_profile_generation_rows`. -/
def ReportDb.syncProfileGenerationRows (gardenId profileId : ℕ) (rows : List GenerationRow)
    (r : ReportDb) : ReportDb :=
  let here : GardenSeedGeneration → Bool := fun g =>
    g.gardenId = gardenId && g.profileId = profileId
  let cleared :=
    if rows.any (·.isCurrent) then
      { r with
        generations := r.generations.update here (fun g => { g with isCurrent := false })
          fun _ => rfl }
    else r
  let upserted := rows.foldl (ReportDb.upsertGardenGeneration gardenId profileId) cleared
  { upserted with
    generations := upserted.generations.delete fun g =>
      here g && g.seedId ∉ rows.map (·.seedId) }

/-- One profile of a report. -/
def ReportDb.updateProfile (accepts : NewSeed → Bool) (garden : Reporter) (r : ReportDb)
    (profile : SeedProfile) : Option ReportDb :=
  let (r₁, profileId) := r.findOrCreateProfile profile.profilePath
  (r₁.db.resolveProfileGenerationRows accepts garden profile).map fun (db, rows) =>
    ({ r₁ with db := db }).syncProfileGenerationRows garden.id profileId rows

/-- `update_garden_seed_generations`. -/
def ReportDb.updateGardenSeedGenerations (accepts : NewSeed → Bool) (garden : Reporter)
    (report : SeedsReport) (r : ReportDb) : ReportDb :=
  if report.profiles = [] then
    { r with generations := r.generations.delete fun g => g.gardenId = garden.id }
  else
    -- a failed transaction is rolled back
    (report.profiles.foldlM (ReportDb.updateProfile accepts garden) r).getD r

end Syncing

section Registered

/-- The columns that a seed was registered with. -/
def Seed.registered (seed : Seed) : NewSeed where
  name := seed.name
  seedType := seed.seedType
  artifact := seed.artifact
  tags := seed.tags

/-- The report of the garden registers the seed: one of its paths is unknown to the
server, and the seed has the columns derived from it. -/
def Db.AutoRegisters (db : Db) (garden : Reporter) (report : SeedsReport) (seed : Seed) : Prop :=
  ∃ profile ∈ report.profiles, ∃ gen ∈ profile.generations,
    (∀ known ∈ db.seeds.rows, known.artifact ≠ gen.path) ∧
      seed.registered = reportedSeed garden profile gen.path

/-- Every seed stays as it is, and new ones are registered by the report. -/
structure Db.Registers (garden : Reporter) (report : SeedsReport) (db db' : Db) : Prop where
  kept : ∀ seed ∈ db.seeds.rows, seed ∈ db'.seeds.rows
  new : ∀ seed ∈ db'.seeds.rows, seed ∈ db.seeds.rows ∨ db.AutoRegisters garden report seed

variable {accepts : NewSeed → Bool} {garden : Reporter} {report : SeedsReport}
  {profile : SeedProfile} {db db' db'' : Db}

theorem Db.Registers.refl (db : Db) : db.Registers garden report db where
  kept _ hseed := hseed
  new _ hseed := Or.inl hseed

/-- What is unknown later was unknown before. -/
theorem Db.Registers.trans (h : db.Registers garden report db')
    (h' : db'.Registers garden report db'') : db.Registers garden report db'' where
  kept seed hseed := h'.kept seed (h.kept seed hseed)
  new seed hseed := by
    rcases h'.new seed hseed with hold | hnew
    · exact h.new seed hold
    · obtain ⟨profile, hprofile, gen, hgen, hunknown, hcolumns⟩ := hnew
      have hbefore : ∀ known ∈ db.seeds.rows, known.artifact ≠ gen.path := by
        intro known hknown
        exact hunknown known (h.kept known hknown)
      exact Or.inr ⟨profile, hprofile, gen, hgen, hbefore, hcolumns⟩

/-- Registering an unknown artifact inserts one seed and leaves the others alone. -/
theorem mem_registerSeed_of_unknown {name seedType artifact : String}
    {tags : List (String × String)} {rename : Bool}
    (hunknown : ∀ known ∈ db.seeds.rows, known.artifact ≠ artifact) {seed : Seed} :
    seed ∈ (db.registerSeed name seedType artifact tags rename).seeds.rows ↔
      seed ∈ db.seeds.rows ∨
        seed = ⟨db.seeds.next, name, seedType, artifact, tags, db.clock db.reads⟩ := by
  have hnone : (db.seeds.rows.any fun seed =>
      decide (seed.seedType = seedType) && decide (seed.artifact = artifact)) = false := by
    rw [List.any_eq_false]
    intro known hknown
    simp [hunknown known hknown]
  unfold Db.registerSeed
  dsimp only
  rw [if_neg (by rw [hnone]; exact Bool.false_ne_true)]
  exact Table.mem_insert _

theorem findOrRegister_spec {gen : Generation} {seedId : ℕ}
    (hprofile : profile ∈ report.profiles) (hgen : gen ∈ profile.generations)
    (h : db.findOrRegister accepts garden profile gen.path = some (db', seedId)) :
    db.Registers garden report db' := by
  unfold Db.findOrRegister at h
  split at h
  · rename_i hfilter
    dsimp only at h
    split at h
    · cases h
      have hunknown : ∀ known ∈ db.seeds.rows, known.artifact ≠ gen.path := by
        intro known hknown heq
        have hmem : known ∈ db.seeds.rows.filter (·.artifact = gen.path) :=
          List.mem_filter.mpr ⟨hknown, decide_eq_true heq⟩
        rw [hfilter] at hmem
        cases hmem
      constructor
      · intro seed hseed
        exact (mem_registerSeed_of_unknown hunknown).mpr (Or.inl hseed)
      · intro seed hseed
        rcases (mem_registerSeed_of_unknown hunknown).mp hseed with hold | hnew
        · exact Or.inl hold
        · have hcolumns : seed.registered = reportedSeed garden profile gen.path := by
            rw [hnew]
            rfl
          exact Or.inr ⟨profile, hprofile, gen, hgen, hunknown, hcolumns⟩
    · cases h
  · cases h
    exact .refl _
  · cases h

@[simp] theorem addRow_db (resolving : Resolving) (gen : Generation) (seedId : ℕ) :
    (resolving.addRow gen seedId).db = resolving.db := by
  unfold Resolving.addRow
  split <;> rfl

theorem generation_spec {resolving resolving' : Resolving} {gen : Generation}
    (hprofile : profile ∈ report.profiles) (hgen : gen ∈ profile.generations)
    (h : resolving.generation accepts garden profile gen = some resolving') :
    resolving.db.Registers garden report resolving'.db := by
  unfold Resolving.generation at h
  split at h
  · cases h
    rw [addRow_db]
    exact .refl _
  · obtain ⟨found, hfound, heq⟩ := Option.map_eq_some_iff.mp h
    rw [← heq, addRow_db]
    exact findOrRegister_spec hprofile hgen hfound

/-- Resolving the generations one by one. -/
theorem foldlM_generation_spec {gens : List Generation} {resolving resolving' : Resolving}
    (hprofile : profile ∈ report.profiles) (hgens : ∀ gen ∈ gens, gen ∈ profile.generations)
    (h : gens.foldlM (Resolving.generation accepts garden profile) resolving = some resolving') :
    resolving.db.Registers garden report resolving'.db := by
  induction gens generalizing resolving with
  | nil =>
    cases h
    exact .refl _
  | cons gen gens ih =>
    rw [List.foldlM_cons] at h
    obtain ⟨next, hnext, hrest⟩ := Option.bind_eq_some_iff.mp h
    have hstep := generation_spec hprofile (hgens gen List.mem_cons_self) hnext
    have htail := ih (fun gen hgen => hgens gen (List.mem_cons_of_mem _ hgen)) hrest
    exact hstep.trans htail

theorem resolveProfileGenerationRows_spec {rows : List GenerationRow}
    (hprofile : profile ∈ report.profiles)
    (h : db.resolveProfileGenerationRows accepts garden profile = some (db', rows)) :
    db.Registers garden report db' := by
  unfold Db.resolveProfileGenerationRows at h
  obtain ⟨resolving, hresolving, heq⟩ := Option.map_eq_some_iff.mp h
  cases heq
  exact foldlM_generation_spec hprofile (fun _ hgen => hgen) hresolving

@[simp] theorem findOrCreateProfile_db (r : ReportDb) (profilePath : String) :
    (r.findOrCreateProfile profilePath).1.db = r.db := by
  unfold ReportDb.findOrCreateProfile
  split <;> rfl

@[simp] theorem upsertGardenGeneration_db (gardenId profileId : ℕ) (r : ReportDb)
    (row : GenerationRow) : (r.upsertGardenGeneration gardenId profileId row).db = r.db := by
  unfold ReportDb.upsertGardenGeneration
  dsimp only
  split <;> rfl

theorem foldl_upsertGardenGeneration_db (gardenId profileId : ℕ) (rows : List GenerationRow)
    (r : ReportDb) :
    (rows.foldl (ReportDb.upsertGardenGeneration gardenId profileId) r).db = r.db := by
  induction rows generalizing r with
  | nil => rfl
  | cons row rows ih => rw [List.foldl_cons, ih, upsertGardenGeneration_db]

/-- Writing the generations of a garden does not touch the seeds. -/
@[simp] theorem syncProfileGenerationRows_db (gardenId profileId : ℕ) (rows : List GenerationRow)
    (r : ReportDb) : (r.syncProfileGenerationRows gardenId profileId rows).db = r.db := by
  unfold ReportDb.syncProfileGenerationRows
  dsimp only
  rw [foldl_upsertGardenGeneration_db]
  split <;> rfl

theorem updateProfile_spec {r r' : ReportDb} (hprofile : profile ∈ report.profiles)
    (h : r.updateProfile accepts garden profile = some r') :
    r.db.Registers garden report r'.db := by
  unfold ReportDb.updateProfile at h
  have hfound := findOrCreateProfile_db r profile.profilePath
  generalize r.findOrCreateProfile profile.profilePath = found at h hfound
  obtain ⟨resolved, hresolved, heq⟩ := Option.map_eq_some_iff.mp h
  have hdb : resolved.1 = r'.db := by
    rw [← heq, syncProfileGenerationRows_db]
  rw [← hfound, ← hdb]
  exact resolveProfileGenerationRows_spec hprofile hresolved

theorem foldlM_updateProfile_spec {profiles : List SeedProfile} {r r' : ReportDb}
    (hprofiles : ∀ profile ∈ profiles, profile ∈ report.profiles)
    (h : profiles.foldlM (ReportDb.updateProfile accepts garden) r = some r') :
    r.db.Registers garden report r'.db := by
  induction profiles generalizing r with
  | nil =>
    cases h
    exact .refl _
  | cons profile profiles ih =>
    rw [List.foldlM_cons] at h
    obtain ⟨next, hnext, hrest⟩ := Option.bind_eq_some_iff.mp h
    have hstep := updateProfile_spec (hprofiles profile List.mem_cons_self) hnext
    have htail := ih (fun profile hmem => hprofiles profile (List.mem_cons_of_mem _ hmem)) hrest
    exact hstep.trans htail

/-- A report leaves every seed alone and registers the paths it found unknown. -/
theorem updateGardenSeedGenerations_registers (r : ReportDb) :
    r.db.Registers garden report (r.updateGardenSeedGenerations accepts garden report).db := by
  unfold ReportDb.updateGardenSeedGenerations
  split
  · exact .refl _
  · cases hfold : report.profiles.foldlM (ReportDb.updateProfile accepts garden) r with
    | none => exact .refl _
    | some r' => exact foldlM_updateProfile_spec (fun _ hprofile => hprofile) hfold

end Registered

section Matching

variable {db db' : Db} {subscription : Subscription} {seed : Seed}

/-- The subscription may be given the seed. -/
def Subscription.admits (subscription : Subscription) (seed : Seed) : Prop :=
  seed.name = subscription.seedName ∧ seed.seedType = subscription.seedType ∧
    ∀ rule ∈ subscription.rules, rule ∈ seed.tags

theorem mem_matching : seed ∈ (db.matching subscription.seedName subscription.seedType
    subscription.rules) ↔ seed ∈ db.seeds.rows ∧ subscription.admits seed := by
  unfold Db.matching Subscription.admits
  simp [and_assoc]

/-- Without a key of its own a request considers every admitted seed. -/
theorem matchSeed_eq : db.matchSeed subscription none =
    newest (db.matching subscription.seedName subscription.seedType subscription.rules) := by
  unfold Db.matchSeed
  simp

/-- The matched seed is the admitted one that was updated last. -/
theorem matchSeed_eq_some_iff :
    db.matchSeed subscription none = some seed ↔
      (seed ∈ db.seeds.rows ∧ subscription.admits seed) ∧
        ∀ other ∈ db.seeds.rows, subscription.admits other →
          toLex (other.updatedAt, other.id) ≤ toLex (seed.updatedAt, seed.id) := by
  rw [matchSeed_eq, newest, List.argmax_eq_some_iff, mem_matching]
  constructor
  · intro h
    obtain ⟨hmem, hlatest, -⟩ := h
    refine ⟨hmem, ?_⟩
    intro other hother hadmits
    exact hlatest other (mem_matching.mpr ⟨hother, hadmits⟩)
  · intro h
    obtain ⟨hmem, hlatest⟩ := h
    refine ⟨hmem, ?_, ?_⟩
    · intro other hother
      exact hlatest other (mem_matching.mp hother).1 (mem_matching.mp hother).2
    · intro other hother hle
      have hge := hlatest other (mem_matching.mp hother).1 (mem_matching.mp hother).2
      have hid : other.id = seed.id := (Prod.mk.inj (toLex.injective (le_antisymm hge hle))).2
      have hsame : other = seed := db.seeds.eq_of_key (mem_matching.mp hother).1 hmem.1 hid
      rw [hsame]

theorem matchSeed_eq_none_iff :
    db.matchSeed subscription none = none ↔
      ∀ seed ∈ db.seeds.rows, ¬ subscription.admits seed := by
  rw [matchSeed_eq, newest, List.argmax_eq_none, List.eq_nil_iff_forall_not_mem]
  constructor
  · intro h seed hseed hadmits
    exact h seed (mem_matching.mpr ⟨hseed, hadmits⟩)
  · intro h seed hseed
    exact h seed (mem_matching.mp hseed).1 (mem_matching.mp hseed).2

/-- Among more seeds, the match is a new one or the match among the old ones. -/
theorem matchSeed_of_kept (hkept : ∀ seed ∈ db.seeds.rows, seed ∈ db'.seeds.rows) :
    db'.matchSeed subscription none = db.matchSeed subscription none ∨
      ∃ seed, db'.matchSeed subscription none = some seed ∧ seed ∉ db.seeds.rows := by
  cases hmatch : db'.matchSeed subscription none with
  | none =>
    have hnone := matchSeed_eq_none_iff.mp hmatch
    left
    symm
    exact matchSeed_eq_none_iff.mpr fun seed hseed => hnone seed (hkept seed hseed)
  | some seed =>
    by_cases hold : seed ∈ db.seeds.rows
    · obtain ⟨⟨-, hadmits⟩, hlatest⟩ := matchSeed_eq_some_iff.mp hmatch
      left
      symm
      refine matchSeed_eq_some_iff.mpr ⟨⟨hold, hadmits⟩, ?_⟩
      intro other hother
      exact hlatest other (hkept other hother)
    · exact Or.inr ⟨seed, rfl, hold⟩

/-- A report changes the match of a subscription only to a seed that it registered
itself: its path was unknown, its name, type and tags are the derived ones, and they
are what the subscription asks for. -/
theorem matchSeed_updateGardenSeedGenerations (accepts : NewSeed → Bool) (garden : Reporter)
    (report : SeedsReport) (r : ReportDb) (subscription : Subscription) :
    (r.updateGardenSeedGenerations accepts garden report).db.matchSeed subscription none =
        r.db.matchSeed subscription none ∨
      ∃ seed, (r.updateGardenSeedGenerations accepts garden report).db.matchSeed subscription
          none = some seed ∧
        r.db.AutoRegisters garden report seed ∧ ("garden_source", garden.sid) ∈ seed.tags ∧
        subscription.admits seed := by
  have hregisters : r.db.Registers garden report
      (r.updateGardenSeedGenerations accepts garden report).db :=
    updateGardenSeedGenerations_registers r
  have hcompare := @matchSeed_of_kept _ _ subscription hregisters.kept
  rcases hcompare with hsame | hnew
  · exact Or.inl hsame
  · obtain ⟨seed, hmatch, hunknown⟩ := hnew
    obtain ⟨⟨hseed, hadmits⟩, -⟩ := matchSeed_eq_some_iff.mp hmatch
    rcases hregisters.new seed hseed with hold | hauto
    · exact absurd hold hunknown
    · obtain ⟨profile, -, gen, -, -, hcolumns⟩ := id hauto
      have hsource : ("garden_source", garden.sid) ∈ seed.registered.tags := by
        rw [hcolumns]
        exact garden_source_mem_reportedSeed garden profile gen.path
      exact Or.inr ⟨seed, hmatch, hauto, hsource, hadmits⟩

end Matching

section Example

/-- Two gardens' seed of a host, at its first registration. -/
def knownSystem : Seed :=
  ⟨1, "myhost", "nixos", "/nix/store/aaa-nixos-system-myhost-25.05", [], 0⟩

/-- A server that knows one system of the host. -/
def knownDb : ReportDb where
  db := {
    clock := fun _ => 7
    seeds := Table.empty.insert (fun id => { knownSystem with id := id }) (fun _ => rfl) }

/-- Another garden's subscription to the host. -/
def otherSubscription : Subscription where
  id := 1
  gardenId := 2
  name := "myhost"
  seedName := "myhost"
  seedType := "nixos"
  rules := []
  schedule := none
  timezone := none
  policy := []
  insertedAt := 0

/-- A report of one path that the server does not know. -/
def unknownSystem : SeedsReport where
  profiles := [{
    profilePath := "/nix/var/nix/profiles/system"
    generations := [⟨"/nix/store/bbb-nixos-system-myhost-25.11", some 3, some 5, true⟩] }]

/-- After the report of one garden the other garden is given the reported path. -/
theorem unknownSystem_changes_match :
    knownDb.db.matchSeed otherSubscription none = some knownSystem ∧
      (knownDb.updateGardenSeedGenerations (fun _ => true) ⟨1, "garden_a", "a"⟩
          unknownSystem).db.matchSeed otherSubscription none =
        some ⟨2, "myhost", "nixos", "/nix/store/bbb-nixos-system-myhost-25.11",
          [("nixos_version", "25.11"), ("garden_source", "garden_a")], 7⟩ := by
  decide

end Example

end Sower.Server
