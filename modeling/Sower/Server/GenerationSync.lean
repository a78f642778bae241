import Sower.Server.Reports

/-!
# The generations that a report leaves

A row of the table belongs to a garden and a seed, and is attributed to one profile. The
profiles of a report are written one after the other: each takes the rows of its seeds, and
loses those it no longer has. What the last one does to a seed is what stays.
-/

namespace Sower.Server

open Sower.Calendar Sower.Wire Keyed

section Rows

/-- The index over garden and seed. -/
def ReportDb.OnePerSeed (r : ReportDb) : Prop :=
  ∀ a ∈ r.generations.rows, ∀ b ∈ r.generations.rows,
    a.gardenId = b.gardenId → a.seedId = b.seedId → a = b

/-- The row of a garden and a seed. -/
def ReportDb.rowOf (r : ReportDb) (gardenId seedId : ℕ) : Option GardenSeedGeneration :=
  r.generations.rows.find? fun g => g.gardenId = gardenId && g.seedId = seedId

variable {r r' : ReportDb} {gardenId seedId : ℕ} {g : GardenSeedGeneration}

theorem rowOf_some (h : r.rowOf gardenId seedId = some g) :
    g ∈ r.generations.rows ∧ g.gardenId = gardenId ∧ g.seedId = seedId := by
  have hkey := List.find?_some h
  rw [Bool.and_eq_true, decide_eq_true_eq, decide_eq_true_eq] at hkey
  exact ⟨List.mem_of_find?_eq_some h, hkey.1, hkey.2⟩

theorem rowOf_eq_none : r.rowOf gardenId seedId = none ↔
    ∀ g ∈ r.generations.rows, g.gardenId = gardenId → g.seedId ≠ seedId := by
  unfold ReportDb.rowOf
  simp

theorem rowOf_eq_some (hone : r.OnePerSeed) : r.rowOf gardenId seedId = some g ↔
    g ∈ r.generations.rows ∧ g.gardenId = gardenId ∧ g.seedId = seedId := by
  constructor
  · exact rowOf_some
  · intro h
    obtain ⟨hmem, hgarden, hseed⟩ := h
    cases hrow : r.rowOf gardenId seedId with
    | none => exact absurd hseed (rowOf_eq_none.mp hrow g hmem hgarden)
    | some other =>
      obtain ⟨hother, hgarden', hseed'⟩ := rowOf_some hrow
      rw [hone other hother g hmem (hgarden'.trans hgarden.symm) (hseed'.trans hseed.symm)]

/-- Rows by garden and seed are all there is to the table. -/
theorem mem_iff_rowOf (hone : r.OnePerSeed) :
    g ∈ r.generations.rows ↔ r.rowOf g.gardenId g.seedId = some g := by
  rw [rowOf_eq_some hone]
  exact ⟨fun h => ⟨h, rfl, rfl⟩, And.left⟩

end Rows

section Writes

variable {r : ReportDb} {gardenId profileId seedId : ℕ} {row : GenerationRow}

/-- The update that leaves garden and seed of every row. -/
theorem rowOf_update {p : GardenSeedGeneration → Bool} {f : GardenSeedGeneration → GardenSeedGeneration}
    (hf : ∀ g, (f g).id = g.id) (hgarden : ∀ g, (f g).gardenId = g.gardenId)
    (hseed : ∀ g, (f g).seedId = g.seedId) :
    ReportDb.rowOf { r with generations := r.generations.update p f hf } gardenId seedId =
      (r.rowOf gardenId seedId).map fun g => if p g then f g else g := by
  have hsame : (fun g : GardenSeedGeneration => decide (g.gardenId = gardenId) &&
      decide (g.seedId = seedId)) ∘ (fun g => if p g then f g else g) =
        fun g => decide (g.gardenId = gardenId) && decide (g.seedId = seedId) := by
    funext g
    simp only [Function.comp_apply]
    split
    · rw [hgarden, hseed]
    · rfl
  unfold ReportDb.rowOf Table.update
  rw [List.find?_map, hsame]

theorem onePerSeed_update {p : GardenSeedGeneration → Bool}
    {f : GardenSeedGeneration → GardenSeedGeneration} (hone : r.OnePerSeed)
    (hf : ∀ g, (f g).id = g.id) (hgarden : ∀ g, (f g).gardenId = g.gardenId)
    (hseed : ∀ g, (f g).seedId = g.seedId) :
    ReportDb.OnePerSeed { r with generations := r.generations.update p f hf } := by
  have hkeys (g : GardenSeedGeneration) : (if p g then f g else g).gardenId = g.gardenId ∧
      (if p g then f g else g).seedId = g.seedId := by
    split
    · exact ⟨hgarden g, hseed g⟩
    · exact ⟨rfl, rfl⟩
  intro a ha b hb hgardens hseeds
  obtain ⟨a₀, ha₀, rfl⟩ := (Table.mem_update hf).mp ha
  obtain ⟨b₀, hb₀, rfl⟩ := (Table.mem_update hf).mp hb
  rw [(hkeys a₀).1, (hkeys b₀).1] at hgardens
  rw [(hkeys a₀).2, (hkeys b₀).2] at hseeds
  rw [hone a₀ ha₀ b₀ hb₀ hgardens hseeds]

theorem onePerSeed_delete {p : GardenSeedGeneration → Bool} (hone : r.OnePerSeed) :
    ReportDb.OnePerSeed { r with generations := r.generations.delete p } := by
  intro a ha b hb
  exact hone a (Table.mem_delete.mp ha).1 b (Table.mem_delete.mp hb).1

theorem rowOf_delete {p : GardenSeedGeneration → Bool} (hone : r.OnePerSeed) :
    ReportDb.rowOf { r with generations := r.generations.delete p } gardenId seedId =
      (r.rowOf gardenId seedId).filter fun g => !p g := by
  have hone' := onePerSeed_delete (p := p) hone
  refine Option.ext fun g => ?_
  rw [rowOf_eq_some hone', Option.filter_eq_some_iff, rowOf_eq_some hone, Table.mem_delete,
    Bool.not_eq_true']
  constructor
  · intro ⟨⟨hmem, hp⟩, hgarden, hseed⟩
    exact ⟨⟨hmem, hgarden, hseed⟩, hp⟩
  · intro ⟨⟨hmem, hgarden, hseed⟩, hp⟩
    exact ⟨⟨hmem, hp⟩, hgarden, hseed⟩

/-- What a report says about a row. -/
structure Content where
  profileId : ℕ
  generationNumber : Option ℤ
  isCurrent : Bool
  createdAtGeneration : DateTime
  deriving DecidableEq, Repr

def GardenSeedGeneration.content (g : GardenSeedGeneration) : Content :=
  ⟨g.profileId, g.generationNumber, g.isCurrent, g.createdAtGeneration⟩

/-- What a profile writes for a seed. -/
def GenerationRow.content (profileId : ℕ) (row : GenerationRow) : Content :=
  ⟨profileId, row.generationNumber, row.isCurrent, row.createdAtGeneration⟩

theorem eq_of_content {a b : GardenSeedGeneration} (hid : a.id = b.id)
    (hgarden : a.gardenId = b.gardenId) (hseed : a.seedId = b.seedId)
    (hcontent : a.content = b.content) : a = b := by
  cases a
  cases b
  simp only [GardenSeedGeneration.content, Content.mk.injEq] at hcontent
  obtain ⟨hprofile, hnumber, hcurrent, hcreated⟩ := hcontent
  cases hid
  cases hgarden
  cases hseed
  cases hprofile
  cases hnumber
  cases hcurrent
  cases hcreated
  rfl

/-- The row has the content, under the key of the row before, if there was one. -/
def Wrote (content : Content) (before after : Option GardenSeedGeneration) : Prop :=
  ∃ new, after = some new ∧ new.content = content ∧ ∀ old, before = some old → new.id = old.id

/-- Whether a row is that of a garden and a seed. -/
theorem known_iff {g : GardenSeedGeneration} {gardenId seedId : ℕ} :
    (decide (g.gardenId = gardenId) && decide (g.seedId = seedId)) = true ↔
      g.gardenId = gardenId ∧ g.seedId = seedId := by
  rw [Bool.and_eq_true, decide_eq_true_eq, decide_eq_true_eq]

theorem any_known_iff : (r.generations.rows.any fun g =>
    decide (g.gardenId = gardenId) && decide (g.seedId = seedId)) = true ↔
      ∃ g, r.rowOf gardenId seedId = some g := by
  rw [← Option.isSome_iff_exists, ReportDb.rowOf, List.find?_isSome, List.any_eq_true]

theorem onePerSeed_upsert (hone : r.OnePerSeed) :
    (r.upsertGardenGeneration gardenId profileId row).OnePerSeed := by
  unfold ReportDb.upsertGardenGeneration
  dsimp only
  split
  · exact onePerSeed_update hone _ (fun _ => rfl) (fun _ => rfl)
  · rename_i hnew
    rw [any_known_iff, not_exists] at hnew
    have hnone : r.rowOf gardenId row.seedId = none :=
      Option.eq_none_iff_forall_ne_some.mpr hnew
    have hfresh := rowOf_eq_none.mp hnone
    intro a ha b hb hgardens hseeds
    cases (Table.mem_insert _).mp ha with
    | inl hold =>
      cases (Table.mem_insert _).mp hb with
      | inl hold' => exact hone a hold b hold' hgardens hseeds
      | inr hlast =>
        rw [hlast] at hgardens hseeds
        exact absurd hseeds (hfresh a hold hgardens)
    | inr hfirst =>
      cases (Table.mem_insert _).mp hb with
      | inl hold' =>
        rw [hfirst] at hgardens hseeds
        exact absurd hseeds.symm (hfresh b hold' hgardens.symm)
      | inr hlast => rw [hfirst, hlast]

theorem upsert_other {gardenId' : ℕ} (hother : ¬ (gardenId' = gardenId ∧ seedId = row.seedId)) :
    (r.upsertGardenGeneration gardenId profileId row).rowOf gardenId' seedId =
      r.rowOf gardenId' seedId := by
  unfold ReportDb.upsertGardenGeneration
  dsimp only
  split
  · rw [rowOf_update]
    · cases hrow : r.rowOf gardenId' seedId with
      | none => rfl
      | some g =>
        obtain ⟨-, hgarden, hseed⟩ := rowOf_some hrow
        rw [Option.map_some, if_neg]
        rw [known_iff, hgarden, hseed]
        exact hother
    · exact fun _ => rfl
    · exact fun _ => rfl
  · have hkey : (decide (gardenId = gardenId') && decide (row.seedId = seedId)) = false := by
      rw [Bool.eq_false_iff, Ne, Bool.and_eq_true, decide_eq_true_eq, decide_eq_true_eq]
      intro h
      exact hother ⟨h.1.symm, h.2.symm⟩
    unfold ReportDb.rowOf Table.insert
    rw [List.find?_append, List.find?_singleton]
    simp only [hkey, Bool.false_eq_true, if_false, Option.or_none]

/-- An upsert writes the content, and keeps the key of a row that is there. -/
theorem upsert_same : Wrote (row.content profileId) (r.rowOf gardenId row.seedId)
    ((r.upsertGardenGeneration gardenId profileId row).rowOf gardenId row.seedId) := by
  unfold ReportDb.upsertGardenGeneration
  dsimp only
  split
  · rename_i hknown
    obtain ⟨g, hrow⟩ := any_known_iff.mp hknown
    obtain ⟨-, hgarden, hseed⟩ := rowOf_some hrow
    rw [rowOf_update]
    · rw [hrow, Option.map_some, if_pos (known_iff.mpr ⟨hgarden, hseed⟩)]
      refine ⟨_, rfl, rfl, fun old hold => ?_⟩
      cases hold
      rfl
    · exact fun _ => rfl
    · exact fun _ => rfl
  · rename_i hnew
    rw [any_known_iff, not_exists] at hnew
    have hnone : r.rowOf gardenId row.seedId = none :=
      Option.eq_none_iff_forall_ne_some.mpr hnew
    have hfind : r.generations.rows.find? (fun g =>
        decide (g.gardenId = gardenId) && decide (g.seedId = row.seedId)) = none := hnone
    rw [hnone]
    refine ⟨⟨r.generations.next, gardenId, profileId, row.seedId, row.generationNumber,
      row.isCurrent, row.createdAtGeneration⟩, ?_, rfl,
      fun old hold => by cases hold⟩
    unfold ReportDb.rowOf Table.insert
    rw [List.find?_append, hfind, List.find?_singleton, Option.none_or]
    simp only [decide_true, Bool.and_self, if_true]

end Writes

section Profile

variable {r r' : ReportDb} {gardenId profileId seedId : ℕ} {rows : List GenerationRow}

/-- What upserting rows does: a row is written for each of their seeds. -/
theorem foldl_upsert_spec (hone : r.OnePerSeed) (hnodup : (rows.map (·.seedId)).Nodup) :
    (rows.foldl (ReportDb.upsertGardenGeneration gardenId profileId) r).OnePerSeed ∧
    (∀ row ∈ rows, Wrote (row.content profileId) (r.rowOf gardenId row.seedId)
      ((rows.foldl (ReportDb.upsertGardenGeneration gardenId profileId) r).rowOf gardenId
        row.seedId)) ∧
    ∀ gardenId' seedId, (gardenId' = gardenId → ∀ row ∈ rows, row.seedId ≠ seedId) →
      (rows.foldl (ReportDb.upsertGardenGeneration gardenId profileId) r).rowOf gardenId' seedId =
        r.rowOf gardenId' seedId := by
  induction rows generalizing r with
  | nil => exact ⟨hone, (fun _ hrow => nomatch hrow), fun _ _ _ => rfl⟩
  | cons row rows ih =>
    rw [List.map_cons, List.nodup_cons] at hnodup
    obtain ⟨hfirst, hrest⟩ := hnodup
    have hupsert : (r.upsertGardenGeneration gardenId profileId row).OnePerSeed :=
      onePerSeed_upsert hone
    obtain ⟨hone', hwrote, hother⟩ := ih hupsert hrest
    have hlater : ∀ later ∈ rows, later.seedId ≠ row.seedId := by
      intro later hmem heq
      exact hfirst (heq ▸ List.mem_map_of_mem hmem)
    rw [List.foldl_cons]
    refine ⟨hone', ?_, ?_⟩
    · intro written hwritten
      cases List.mem_cons.mp hwritten with
      | inl heq =>
        rw [heq, hother gardenId row.seedId fun _ => hlater]
        exact upsert_same
      | inr hmem =>
        have hne := hlater written hmem
        have hsame : (r.upsertGardenGeneration gardenId profileId row).rowOf gardenId
            written.seedId = r.rowOf gardenId written.seedId := upsert_other fun h => hne h.2
        rw [← hsame]
        exact hwrote written hmem
    · intro gardenId' seedId hnot
      have hrow : ¬ (gardenId' = gardenId ∧ seedId = row.seedId) := by
        intro h
        exact hnot h.1 row List.mem_cons_self h.2.symm
      rw [hother gardenId' seedId fun h later hmem => hnot h later (List.mem_cons_of_mem _ hmem),
        upsert_other hrow]

/-- Rows whose flag may have been taken back: those of the profile. -/
structure Cleared (gardenId profileId : ℕ) (r cleared : ReportDb) (f : GardenSeedGeneration → GardenSeedGeneration) :
    Prop where
  one : cleared.OnePerSeed
  rows : ∀ gardenId' seedId, cleared.rowOf gardenId' seedId = (r.rowOf gardenId' seedId).map f
  id : ∀ g, (f g).id = g.id
  profile : ∀ g, (f g).profileId = g.profileId
  other : ∀ g, g.gardenId ≠ gardenId ∨ g.profileId ≠ profileId → f g = g

/-- The first step of a profile's synchronisation. -/
theorem exists_cleared (hone : r.OnePerSeed) (condition : Bool) :
    ∃ f, Cleared gardenId profileId r
      (if condition then
        { r with
          generations := r.generations.update
            (fun g => g.gardenId = gardenId && g.profileId = profileId)
            (fun g => { g with isCurrent := false }) fun _ => rfl }
      else r) f := by
  cases condition with
  | false =>
    exact ⟨id, hone, fun _ _ => Option.map_id'.symm ▸ rfl, fun _ => rfl, fun _ => rfl, fun _ _ => rfl⟩
  | true =>
    refine ⟨fun g => if g.gardenId = gardenId && g.profileId = profileId then
      { g with isCurrent := false } else g, ?_, ?_, ?_, ?_, ?_⟩
    · exact onePerSeed_update hone _ (fun _ => rfl) fun _ => rfl
    · intro gardenId' seedId
      rw [if_pos rfl, rowOf_update]
      · exact fun _ => rfl
      · exact fun _ => rfl
    · intro g
      split
      · rfl
      · rfl
    · intro g
      split
      · rfl
      · rfl
    · intro g hother
      refine if_neg fun h => ?_
      obtain ⟨hgarden, hprofile⟩ := (Bool.and_eq_true _ _).mp h
      cases hother with
      | inl hne => exact hne (of_decide_eq_true hgarden)
      | inr hne => exact hne (of_decide_eq_true hprofile)

/-- What a profile does to the row of a seed: it writes the row of a seed that it has, and
loses that of one that it has not. -/
structure Synced (profileId : ℕ) (rows : List GenerationRow) (seedId : ℕ)
    (before after : Option GardenSeedGeneration) : Prop where
  written : ∀ row ∈ rows, row.seedId = seedId → Wrote (row.content profileId) before after
  stale : (∀ row ∈ rows, row.seedId ≠ seedId) → after = before.filter (·.profileId ≠ profileId)

theorem syncProfileGenerationRows_spec (hone : r.OnePerSeed)
    (hnodup : (rows.map (·.seedId)).Nodup) :
    (r.syncProfileGenerationRows gardenId profileId rows).OnePerSeed ∧
    (∀ seedId, Synced profileId rows seedId (r.rowOf gardenId seedId)
      ((r.syncProfileGenerationRows gardenId profileId rows).rowOf gardenId seedId)) ∧
    ∀ gardenId' seedId, gardenId' ≠ gardenId →
      (r.syncProfileGenerationRows gardenId profileId rows).rowOf gardenId' seedId =
        r.rowOf gardenId' seedId := by
  unfold ReportDb.syncProfileGenerationRows
  dsimp only
  have hexists : ∃ f, Cleared gardenId profileId r _ f :=
    exists_cleared hone (rows.any (·.isCurrent))
  obtain ⟨f, hcleared⟩ := hexists
  generalize (if rows.any (·.isCurrent) then _ else r) = cleared at hcleared ⊢
  have hupserted := @foldl_upsert_spec _ gardenId profileId _ hcleared.one hnodup
  obtain ⟨hone', hwrote, hother⟩ := hupserted
  refine ⟨onePerSeed_delete hone', ?_, ?_⟩
  · intro seedId
    rw [rowOf_delete hone']
    constructor
    · intro row hrow hseed
      subst hseed
      obtain ⟨new, hnew, hcontent, hid⟩ := hwrote row hrow
      obtain ⟨-, -, hseed⟩ := rowOf_some hnew
      have hkept : row.seedId ∈ rows.map (·.seedId) := List.mem_map_of_mem hrow
      refine ⟨new, ?_, hcontent, ?_⟩
      · rw [hnew, Option.filter_some, if_pos]
        simp [hseed, hkept]
      · intro old hold
        have hclear := hcleared.rows gardenId row.seedId
        rw [hold] at hclear
        rw [hid _ hclear, hcleared.id]
    · intro hnot
      rw [hother gardenId seedId fun _ => hnot, hcleared.rows]
      cases hrow : r.rowOf gardenId seedId with
      | none => rfl
      | some g =>
        obtain ⟨-, hgarden, hseed⟩ := rowOf_some hrow
        have hstale : seedId ∉ rows.map (·.seedId) := by
          intro hmem
          obtain ⟨row, hrow, heq⟩ := List.mem_map.mp hmem
          exact hnot row hrow heq
        rw [Option.map_some, Option.filter_some, Option.filter_some]
        by_cases hprofile : g.profileId = profileId
        · have hclear := hcleared.rows gardenId seedId
          rw [hrow] at hclear
          obtain ⟨-, hgarden', hseed'⟩ := rowOf_some hclear
          have hprofile' : (f g).profileId = profileId := (hcleared.profile g).trans hprofile
          rw [if_neg, if_neg]
          · simp [hprofile]
          · simp [hgarden', hprofile', hseed', hstale]
        · rw [hcleared.other g (Or.inr hprofile), if_pos, if_pos]
          · simp [hprofile]
          · simp [hprofile]
  · intro gardenId' seedId hne
    rw [rowOf_delete hone', hother gardenId' seedId fun h => absurd h hne, hcleared.rows]
    cases hrow : r.rowOf gardenId' seedId with
    | none => rfl
    | some g =>
      obtain ⟨-, hgarden, -⟩ := rowOf_some hrow
      have hforeign : g.gardenId ≠ gardenId := hgarden ▸ hne
      rw [Option.map_some, hcleared.other g (Or.inl hforeign), Option.filter_some, if_pos]
      simp [hforeign]

end Profile

section Resolution

variable {accepts : NewSeed → Bool} {garden : Reporter} {profile : SeedProfile} {db db' : Db}
  {path : String}

/-- The seed of an artifact, the last one if the table had more. -/
def Db.seedOf (db : Db) (path : String) : Option ℕ :=
  (db.seeds.rows.reverse.find? (·.artifact = path)).map (·.id)

/-- Seeds of artifacts stay. -/
def SeedsGrow (db db' : Db) : Prop :=
  ∀ path seedId, db.seedOf path = some seedId → db'.seedOf path = some seedId

theorem SeedsGrow.refl (db : Db) : SeedsGrow db db := fun _ _ h => h

theorem SeedsGrow.trans {db'' : Db} (h : SeedsGrow db db') (h' : SeedsGrow db' db'') :
    SeedsGrow db db'' := fun path seedId hseed => h' path seedId (h path seedId hseed)

/-- What a generation says of its seed; nothing without a seed or a time of creation. -/
def reportedRow (seedOf : String → Option ℕ) (gen : Generation) : Option GenerationRow :=
  match seedOf gen.path, gen.created with
  | some seedId, some created =>
    some ⟨seedId, gen.generationNumber, gen.isCurrent, created / 1000000 * 1000000⟩
  | _, _ => none

/-- What the generations of a profile say, in their order. -/
def Db.reportedRows (db : Db) (gens : List Generation) : List GenerationRow :=
  gens.filterMap (reportedRow db.seedOf)

/-- Generations whose seeds are known say the same later. -/
theorem reportedRows_of_grow {gens : List Generation} (hgrow : SeedsGrow db db')
    (hknown : ∀ gen ∈ gens, ∃ seedId, db.seedOf gen.path = some seedId) :
    db'.reportedRows gens = db.reportedRows gens := by
  refine List.filterMap_congr fun gen hgen => ?_
  obtain ⟨seedId, hseed⟩ := hknown gen hgen
  unfold reportedRow
  rw [hseed, hgrow gen.path seedId hseed]

theorem seedOf_eq_none : db.seedOf path = none ↔ ∀ seed ∈ db.seeds.rows, seed.artifact ≠ path := by
  unfold Db.seedOf
  simp

/-- The seeds by artifact that resolving begins with. -/
theorem lookup_seedsByArtifact {artifacts : List String} (h : path ∈ artifacts) :
    (((db.seeds.rows.filter (·.artifact ∈ artifacts)).map fun seed =>
      (seed.artifact, seed.id)).reverse).lookup path = db.seedOf path := by
  have hlookup (seeds : List Seed) : (seeds.map fun seed => (seed.artifact, seed.id)).lookup path =
      (seeds.find? (·.artifact = path)).map (·.id) := by
    induction seeds with
    | nil => rfl
    | cons seed seeds ih =>
      rw [List.map_cons, List.lookup_cons, List.find?_cons]
      by_cases heq : seed.artifact = path
      · simp [heq]
      · have hne : (path == seed.artifact) = false := beq_eq_false_iff_ne.mpr (Ne.symm heq)
        simp only [hne, heq, decide_false, ih]
  have hboth : (fun seed : Seed => decide (decide (seed.artifact ∈ artifacts) = true ∧
      decide (seed.artifact = path) = true)) = fun seed => decide (seed.artifact = path) := by
    funext seed
    by_cases heq : seed.artifact = path
    · simp [heq, h]
    · simp [heq]
  rw [← List.map_reverse, hlookup, ← List.filter_reverse, List.find?_filter, hboth, Db.seedOf]

/-- A registered path has the new seed; the seeds of the other paths stay. -/
theorem seedOf_registerSeed {name seedType : String} {tags : List (String × String)}
    (hnone : db.seedOf path = none) (other : String) :
    (db.registerSeed name seedType path tags false).seedOf other =
      if other = path then some db.seeds.next else db.seedOf other := by
  have hunknown := seedOf_eq_none.mp hnone
  have hfresh : (db.seeds.rows.any fun seed =>
      decide (seed.seedType = seedType) && decide (seed.artifact = path)) = false := by
    rw [List.any_eq_false]
    intro known hknown
    simp [hunknown known hknown]
  unfold Db.registerSeed
  dsimp only
  rw [if_neg (by rw [hfresh]; exact Bool.false_ne_true)]
  unfold Db.seedOf Table.insert
  dsimp only
  rw [List.reverse_append, List.reverse_singleton, List.singleton_append, List.find?_cons]
  by_cases heq : other = path
  · simp [heq]
  · have hne : path ≠ other := Ne.symm heq
    simp [heq, hne]

/-- What holds while the generations are resolved. -/
structure Resolving.Ok (db : Db) (artifacts : List String) (done : List Generation)
    (resolving : Resolving) : Prop where
  grow : SeedsGrow db resolving.db
  known : ∀ path ∈ artifacts, resolving.seedsByArtifact.lookup path = resolving.db.seedOf path
  found : ∀ gen ∈ done, ∃ seedId, resolving.db.seedOf gen.path = some seedId
  rows : resolving.rows.reverse = resolving.db.reportedRows done

variable {artifacts : List String} {done : List Generation} {resolving resolving' : Resolving}
  {gen : Generation} {seedId : ℕ}

theorem Resolving.Ok.addRow (h : resolving.Ok db artifacts done)
    (hseed : resolving.db.seedOf gen.path = some seedId) :
    (resolving.addRow gen seedId).Ok db artifacts (done ++ [gen]) := by
  have hfound : ∀ gen' ∈ done ++ [gen], ∃ seedId, resolving.db.seedOf gen'.path = some seedId :=
    List.forall_mem_append.mpr ⟨h.found, List.forall_mem_singleton.mpr ⟨seedId, hseed⟩⟩
  have hrows : resolving.db.reportedRows (done ++ [gen]) =
      resolving.rows.reverse ++ resolving.db.reportedRows [gen] := by
    rw [h.rows]
    exact List.filterMap_append
  unfold Resolving.addRow
  cases hcreated : gen.created with
  | none =>
    have hnone : resolving.db.reportedRows [gen] = [] := by
      simp [Db.reportedRows, reportedRow, hcreated]
    rw [hnone, List.append_nil] at hrows
    exact ⟨h.grow, h.known, hfound, hrows.symm⟩
  | some created =>
    have hsome : resolving.db.reportedRows [gen] =
        [⟨seedId, gen.generationNumber, gen.isCurrent, created / 1000000 * 1000000⟩] := by
      simp [Db.reportedRows, reportedRow, hcreated, hseed]
    rw [hsome, ← List.reverse_cons] at hrows
    exact ⟨h.grow, h.known, hfound, hrows.symm⟩

theorem Resolving.Ok.generation (h : resolving.Ok db artifacts done) (hgen : gen.path ∈ artifacts)
    (hstep : resolving.generation accepts garden profile gen = some resolving') :
    resolving'.Ok db artifacts (done ++ [gen]) := by
  unfold Resolving.generation at hstep
  rw [h.known gen.path hgen] at hstep
  cases hseed : resolving.db.seedOf gen.path with
  | some seedId =>
    rw [hseed] at hstep
    cases hstep
    exact h.addRow hseed
  | none =>
    rw [hseed] at hstep
    have hunknown : resolving.db.seeds.rows.filter (·.artifact = gen.path) = [] := by
      rw [List.filter_eq_nil_iff]
      intro seed hmem
      simp [seedOf_eq_none.mp hseed seed hmem]
    obtain ⟨⟨found, seedId⟩, hfound, heq⟩ := Option.map_eq_some_iff.mp hstep
    unfold Db.findOrRegister at hfound
    simp only [hunknown, Option.ite_none_right_eq_some, Option.some.injEq, Prod.mk.injEq] at hfound
    obtain ⟨-, hdb, hid⟩ := hfound
    have hof (other : String) : found.seedOf other =
        if other = gen.path then some seedId else resolving.db.seedOf other := by
      rw [← hdb, ← hid]
      exact seedOf_registerSeed hseed other
    have hgrow : SeedsGrow resolving.db found := by
      intro other otherId hother
      rw [hof, if_neg, hother]
      intro hsame
      rw [hsame, hseed] at hother
      cases hother
    have hnext : Resolving.Ok db artifacts done
        ⟨found, (gen.path, seedId) :: resolving.seedsByArtifact, resolving.rows⟩ := by
      refine ⟨h.grow.trans hgrow, ?_, ?_, ?_⟩
      · intro other hother
        rw [hof, List.lookup_cons]
        by_cases hsame : other = gen.path
        · simp [hsame]
        · have hne : (other == gen.path) = false := beq_eq_false_iff_ne.mpr hsame
          rw [hne, if_neg hsame]
          exact h.known other hother
      · intro gen' hgen'
        obtain ⟨otherId, hother⟩ := h.found gen' hgen'
        exact ⟨otherId, hgrow _ _ hother⟩
      · exact h.rows.trans (reportedRows_of_grow hgrow h.found).symm
    rw [← heq]
    refine hnext.addRow ?_
    rw [hof, if_pos rfl]

theorem foldlM_generation_ok {gens : List Generation} (h : resolving.Ok db artifacts done)
    (hgens : ∀ gen ∈ gens, gen.path ∈ artifacts)
    (hfold : gens.foldlM (Resolving.generation accepts garden profile) resolving = some resolving') :
    resolving'.Ok db artifacts (done ++ gens) := by
  induction gens generalizing resolving done with
  | nil =>
    cases hfold
    rw [List.append_nil]
    exact h
  | cons gen gens ih =>
    rw [List.forall_mem_cons] at hgens
    rw [List.foldlM_cons] at hfold
    obtain ⟨next, hnext, hrest⟩ := Option.bind_eq_some_iff.mp hfold
    have htail := ih (h.generation hgens.1 hnext) hgens.2 hrest
    rw [List.append_assoc, List.singleton_append] at htail
    exact htail

/-- The rows of a profile: one for each seed, the last one that was reported, with a flag
that only the last current one has. -/
def profileRows (rows : List GenerationRow) : List GenerationRow :=
  (uniqBySeed (normalizeCurrentGenerationRows rows).reverse).reverse

/-- All generations of a profile get a seed, and the rows are theirs. -/
theorem resolve_rows {rows : List GenerationRow}
    (h : db.resolveProfileGenerationRows accepts garden profile = some (db', rows)) :
    SeedsGrow db db' ∧ (∀ gen ∈ profile.generations, ∃ seedId, db'.seedOf gen.path = some seedId) ∧
      rows = profileRows (db'.reportedRows profile.generations) := by
  unfold Db.resolveProfileGenerationRows at h
  obtain ⟨resolving, hresolving, heq⟩ := Option.map_eq_some_iff.mp h
  have hstart : Resolving.Ok db (profile.generations.map (·.path)) []
      ⟨db, ((db.seeds.rows.filter (·.artifact ∈ profile.generations.map (·.path))).map fun seed =>
        (seed.artifact, seed.id)).reverse, []⟩ :=
    ⟨.refl db, (fun _ hpath => lookup_seedsByArtifact hpath), (fun _ hgen => nomatch hgen), rfl⟩
  have hend := foldlM_generation_ok hstart (fun gen hgen => List.mem_map_of_mem hgen) hresolving
  rw [List.nil_append] at hend
  cases heq
  refine ⟨hend.grow, hend.found, ?_⟩
  rw [hend.rows, profileRows]

end Resolution

section Last

variable {rows : List GenerationRow} {row : GenerationRow} {seedId : ℕ}

/-- The last row of a seed. -/
def lastOf (seedId : ℕ) (rows : List GenerationRow) : Option GenerationRow :=
  rows.reverse.find? (·.seedId = seedId)

/-- The seed of the last current row. -/
def lastCurrent (rows : List GenerationRow) : Option ℕ :=
  (rows.reverse.find? (·.isCurrent)).map (·.seedId)

theorem mem_uniqBySeed :
    row ∈ uniqBySeed rows ↔ rows.find? (·.seedId = row.seedId) = some row := by
  induction rows with
  | nil => simp [uniqBySeed]
  | cons first rows ih =>
    rw [uniqBySeed, List.mem_cons, List.mem_filter, ih, List.find?_cons]
    by_cases hsame : first.seedId = row.seedId
    · simp only [hsame, decide_true, ne_eq, not_true_eq_false, decide_false, Bool.false_eq_true,
        and_false, or_false, Option.some.injEq]
      exact eq_comm
    · have hne : row.seedId ≠ first.seedId := Ne.symm hsame
      have hrow : row ≠ first := fun h => hne (congrArg GenerationRow.seedId h)
      simp [hsame, hne, hrow]

theorem nodup_uniqBySeed : ((uniqBySeed rows).map (·.seedId)).Nodup := by
  induction rows with
  | nil => exact List.nodup_nil
  | cons first rows ih =>
    rw [uniqBySeed, List.map_cons, List.nodup_cons]
    constructor
    · intro hmem
      obtain ⟨row, hrow, heq⟩ := List.mem_map.mp hmem
      have hne := (List.mem_filter.mp hrow).2
      simp [heq] at hne
    · exact (List.filter_sublist.map _).nodup ih

/-- What the last current row does to every row: the flag says whether it is its seed's. -/
theorem lastOf_normalize : lastOf seedId (normalizeCurrentGenerationRows rows) =
    (lastOf seedId rows).map fun row =>
      { row with isCurrent := decide (lastCurrent rows = some seedId) } := by
  unfold normalizeCurrentGenerationRows lastOf lastCurrent
  rw [List.getLast?_filter]
  cases hcurrent : rows.reverse.find? (·.isCurrent) with
  | none =>
    cases hlast : rows.reverse.find? (·.seedId = seedId) with
    | none => rfl
    | some row =>
      have hflag := List.find?_eq_none.mp hcurrent row (List.mem_of_find?_eq_some hlast)
      rw [Bool.not_eq_true] at hflag
      have hnone : decide ((none : Option ℕ) = some seedId) = false := rfl
      rw [Option.map_some, Option.map_none, hnone, ← hflag]
  | some current =>
    have hkeep : (fun row : GenerationRow => decide (row.seedId = seedId)) ∘
        (fun row : GenerationRow => { row with isCurrent := decide (row.seedId = current.seedId) }) =
          fun row => decide (row.seedId = seedId) := rfl
    dsimp only
    rw [← List.map_reverse, List.find?_map, hkeep]
    cases hlast : rows.reverse.find? (·.seedId = seedId) with
    | none => rfl
    | some row =>
      have hseed : row.seedId = seedId := by simpa using List.find?_some hlast
      rw [Option.map_some, Option.map_some, Option.map_some, hseed]
      have hflag : decide (seedId = current.seedId) = decide (some current.seedId = some seedId) :=
        decide_eq_decide.mpr (eq_comm.trans Option.some_inj.symm)
      rw [hflag]

theorem nodup_profileRows : ((profileRows rows).map (·.seedId)).Nodup := by
  unfold profileRows
  rw [List.map_reverse, List.nodup_reverse]
  exact nodup_uniqBySeed

/-- A profile writes, for a seed, the last generation that was reported for it. -/
theorem mem_profileRows : row ∈ profileRows rows ↔
    ∃ last, lastOf row.seedId rows = some last ∧
      row = { last with isCurrent := decide (lastCurrent rows = some row.seedId) } := by
  unfold profileRows
  rw [List.mem_reverse, mem_uniqBySeed]
  change lastOf row.seedId (normalizeCurrentGenerationRows rows) = some row ↔ _
  rw [lastOf_normalize, Option.map_eq_some_iff]
  constructor
  · intro ⟨last, hlast, heq⟩
    exact ⟨last, hlast, heq.symm⟩
  · intro ⟨last, hlast, heq⟩
    exact ⟨last, hlast, heq.symm⟩

end Last

section Report

variable {accepts : NewSeed → Bool} {garden : Reporter} {profile : SeedProfile}
  {profiles later : List SeedProfile} {r r' r'' : ReportDb} {seedId : ℕ} {content : Content}
  {before after : Option GardenSeedGeneration}

/-- The key of a profile. -/
def ReportDb.profileOf (r : ReportDb) (profilePath : String) : Option ℕ :=
  (r.nixProfiles.rows.find? (·.profilePath = profilePath)).map (·.id)

/-- What a profile says about a seed: its last generation, current if it is the seed of the
last current one. -/
def ReportDb.reportedContent (r : ReportDb) (profile : SeedProfile) (seedId : ℕ) : Option Content :=
  match r.profileOf profile.profilePath, lastOf seedId (r.db.reportedRows profile.generations) with
  | some profileId, some last =>
    some ⟨profileId, last.generationNumber,
      decide (lastCurrent (r.db.reportedRows profile.generations) = some seedId),
      last.createdAtGeneration⟩
  | _, _ => none

/-- What a profile of a report does to the row of a seed. -/
structure Reported (r : ReportDb) (profile : SeedProfile) (seedId : ℕ)
    (before after : Option GardenSeedGeneration) : Prop where
  written : ∀ content, r.reportedContent profile seedId = some content → Wrote content before after
  stale : r.reportedContent profile seedId = none →
    after = before.filter fun g => r.profileOf profile.profilePath ≠ some g.profileId

/-- What the profiles of a report do, one after the other. -/
def ReportedAll (r : ReportDb) (seedId : ℕ) : List SeedProfile → Option GardenSeedGeneration →
    Option GardenSeedGeneration → Prop
  | [], before, after => after = before
  | profile :: profiles, before, after =>
    ∃ mid, Reported r profile seedId before mid ∧ ReportedAll r seedId profiles mid after

/-- The report knows the profile and the seeds of its generations. -/
structure ReportDb.Knows (r : ReportDb) (profile : SeedProfile) : Prop where
  key : ∃ profileId, r.profileOf profile.profilePath = some profileId
  seeds : ∀ gen ∈ profile.generations, ∃ seedId, r.db.seedOf gen.path = some seedId

/-- Keys of profiles and seeds stay. -/
structure KeysGrow (r r' : ReportDb) : Prop where
  profiles : ∀ path profileId, r.profileOf path = some profileId → r'.profileOf path = some profileId
  seeds : SeedsGrow r.db r'.db

theorem KeysGrow.refl (r : ReportDb) : KeysGrow r r := ⟨fun _ _ h => h, .refl _⟩

theorem KeysGrow.trans (h : KeysGrow r r') (h' : KeysGrow r' r'') : KeysGrow r r'' :=
  ⟨fun path profileId hprofile => h'.profiles path profileId (h.profiles path profileId hprofile),
    h.seeds.trans h'.seeds⟩

theorem ReportDb.Knows.grow (h : r.Knows profile) (hgrow : KeysGrow r r') : r'.Knows profile := by
  obtain ⟨profileId, hprofile⟩ := h.key
  refine ⟨⟨profileId, hgrow.profiles _ _ hprofile⟩, fun gen hgen => ?_⟩
  obtain ⟨seedId, hseed⟩ := h.seeds gen hgen
  exact ⟨seedId, hgrow.seeds _ _ hseed⟩

/-- What a known profile says is said later, too. -/
theorem reportedContent_grow (h : r.Knows profile) (hgrow : KeysGrow r r') :
    r'.reportedContent profile seedId = r.reportedContent profile seedId := by
  obtain ⟨profileId, hprofile⟩ := h.key
  unfold ReportDb.reportedContent
  rw [reportedRows_of_grow hgrow.seeds h.seeds, hprofile, hgrow.profiles _ _ hprofile]

theorem Reported.grow (hreported : Reported r profile seedId before after) (h : r.Knows profile)
    (hgrow : KeysGrow r r') : Reported r' profile seedId before after := by
  obtain ⟨profileId, hprofile⟩ := h.key
  constructor
  · intro content hcontent
    rw [reportedContent_grow h hgrow] at hcontent
    exact hreported.written content hcontent
  · intro hnone
    rw [reportedContent_grow h hgrow] at hnone
    rw [hreported.stale hnone, hprofile, hgrow.profiles _ _ hprofile]

/-- The key of a profile is found or made. -/
theorem findOrCreateProfile_spec (r : ReportDb) (path : String) :
    (r.findOrCreateProfile path).1.profileOf path = some (r.findOrCreateProfile path).2 ∧
      KeysGrow r (r.findOrCreateProfile path).1 ∧
      (r.findOrCreateProfile path).1.generations = r.generations := by
  unfold ReportDb.findOrCreateProfile
  split
  · rename_i found hfound
    refine ⟨?_, .refl r, rfl⟩
    unfold ReportDb.profileOf
    rw [hfound, Option.map_some]
  · rename_i hnone
    have hof (other : String) : ReportDb.profileOf
        { r with
          nixProfiles := r.nixProfiles.insert (fun id => ⟨id, path⟩) fun _ => rfl } other =
        (r.profileOf other).or (if path = other then some r.nixProfiles.next else none) := by
      unfold ReportDb.profileOf Table.insert
      rw [List.find?_append, List.find?_singleton]
      by_cases hsame : path = other
      · rw [hsame] at hnone
        simp [hnone, hsame]
      · simp [hsame]
    have hunknown : r.profileOf path = none := by
      unfold ReportDb.profileOf
      rw [hnone, Option.map_none]
    refine ⟨?_, ⟨?_, .refl _⟩, rfl⟩
    · rw [hof, hunknown, if_pos rfl, Option.none_or]
    · intro other profileId hprofile
      rw [hof, hprofile, Option.some_or]

/-- What a profile says about a seed is what it writes. -/
theorem reportedContent_eq_some {profileId : ℕ}
    (hkey : r.profileOf profile.profilePath = some profileId) :
    r.reportedContent profile seedId = some content ↔
      ∃ row ∈ profileRows (r.db.reportedRows profile.generations),
        row.seedId = seedId ∧ content = row.content profileId := by
  unfold ReportDb.reportedContent
  rw [hkey]
  cases hlast : lastOf seedId (r.db.reportedRows profile.generations) with
  | none =>
    constructor
    · intro h
      cases h
    · intro ⟨row, hrow, hseed, _⟩
      obtain ⟨last, hlast', -⟩ := mem_profileRows.mp hrow
      rw [hseed, hlast] at hlast'
      cases hlast'
  | some last =>
    have hseed : last.seedId = seedId := by simpa using List.find?_some hlast
    constructor
    · intro h
      cases h
      refine ⟨{ last with
        isCurrent := decide (lastCurrent (r.db.reportedRows profile.generations) = some seedId) },
        mem_profileRows.mpr ⟨last, ?_, ?_⟩, hseed, rfl⟩
      · dsimp only
        rw [hseed, hlast]
      · dsimp only
        rw [hseed]
    · intro ⟨row, hrow, hseed', hcontent⟩
      obtain ⟨last', hlast', heq⟩ := mem_profileRows.mp hrow
      rw [hseed', hlast] at hlast'
      cases hlast'
      rw [hcontent, heq, hseed']
      rfl

@[simp] theorem foldl_upsert_nixProfiles (gardenId profileId : ℕ) (rows : List GenerationRow)
    (r : ReportDb) :
    (rows.foldl (ReportDb.upsertGardenGeneration gardenId profileId) r).nixProfiles =
      r.nixProfiles := by
  induction rows generalizing r with
  | nil => rfl
  | cons row rows ih =>
    rw [List.foldl_cons, ih]
    unfold ReportDb.upsertGardenGeneration
    dsimp only
    split
    · rfl
    · rfl

/-- Writing the generations of a garden does not touch the profiles. -/
@[simp] theorem syncProfileGenerationRows_nixProfiles (gardenId profileId : ℕ)
    (rows : List GenerationRow) (r : ReportDb) :
    (r.syncProfileGenerationRows gardenId profileId rows).nixProfiles = r.nixProfiles := by
  unfold ReportDb.syncProfileGenerationRows
  dsimp only
  rw [foldl_upsert_nixProfiles]
  split
  · rfl
  · rfl

/-- One profile of a report. -/
theorem updateProfile_reported (hone : r.OnePerSeed)
    (h : r.updateProfile accepts garden profile = some r') :
    r'.OnePerSeed ∧ KeysGrow r r' ∧ r'.Knows profile ∧
    (∀ seedId, Reported r' profile seedId (r.rowOf garden.id seedId) (r'.rowOf garden.id seedId)) ∧
    ∀ gardenId seedId, gardenId ≠ garden.id →
      r'.rowOf gardenId seedId = r.rowOf gardenId seedId := by
  unfold ReportDb.updateProfile at h
  obtain ⟨hprofile, hkeys, hgenerations⟩ := findOrCreateProfile_spec r profile.profilePath
  generalize r.findOrCreateProfile profile.profilePath = found at h hprofile hkeys hgenerations
  obtain ⟨r₁, profileId⟩ := found
  obtain ⟨⟨db, rows⟩, hresolved, hsync⟩ := Option.map_eq_some_iff.mp h
  obtain ⟨hgrow, hknown, hrows⟩ := resolve_rows hresolved
  dsimp only at hprofile hkeys hgenerations hsync hgrow hknown hrows
  have hone₁ : ReportDb.OnePerSeed { r₁ with db := db } := by
    unfold ReportDb.OnePerSeed
    rw [hgenerations]
    exact hone
  have hbefore (gardenId seedId : ℕ) :
      ReportDb.rowOf { r₁ with db := db } gardenId seedId = r.rowOf gardenId seedId := by
    unfold ReportDb.rowOf
    rw [hgenerations]
  have hnodup : (rows.map (·.seedId)).Nodup := by
    rw [hrows]
    exact nodup_profileRows
  have hdone : ReportDb.OnePerSeed
      (ReportDb.syncProfileGenerationRows garden.id profileId rows { r₁ with db := db }) ∧ _ :=
    syncProfileGenerationRows_spec hone₁ hnodup
  obtain ⟨hone', hsynced, hother⟩ := hdone
  rw [hsync] at hone' hsynced hother
  have hdb : r'.db = db := by rw [← hsync, syncProfileGenerationRows_db]
  have hnix : r'.nixProfiles = r₁.nixProfiles := by
    rw [← hsync, syncProfileGenerationRows_nixProfiles]
  have hkey : r'.profileOf profile.profilePath = some profileId := by
    unfold ReportDb.profileOf
    rw [hnix]
    exact hprofile
  refine ⟨hone', ⟨?_, ?_⟩, ⟨⟨profileId, hkey⟩, ?_⟩, ?_, ?_⟩
  · intro path other hother
    have hkept := hkeys.profiles path other hother
    unfold ReportDb.profileOf at hkept ⊢
    rw [hnix]
    exact hkept
  · rw [hdb]
    exact hkeys.seeds.trans hgrow
  · rw [hdb]
    exact hknown
  · intro seedId
    have hseed := hsynced seedId
    rw [hbefore] at hseed
    constructor
    · intro content hcontent
      obtain ⟨row, hrow, hseedId, heq⟩ := (reportedContent_eq_some hkey).mp hcontent
      rw [hdb, ← hrows] at hrow
      rw [heq]
      exact hseed.written row hrow hseedId
    · intro hnone
      have hnot : ∀ row ∈ rows, row.seedId ≠ seedId := by
        intro row hrow hsame
        rw [hrows, ← hdb] at hrow
        have hsome := (reportedContent_eq_some hkey).mpr ⟨row, hrow, hsame, rfl⟩
        rw [hnone] at hsome
        cases hsome
      have hsame : (fun g : GardenSeedGeneration => decide (g.profileId ≠ profileId)) =
          fun g => decide (some profileId ≠ some g.profileId) := by
        funext g
        refine decide_eq_decide.mpr (not_congr ?_)
        exact eq_comm.trans Option.some_inj.symm
      rw [hseed.stale hnot, hkey, hsame]
  · intro gardenId seedId hne
    rw [hother gardenId seedId hne, hbefore]

/-- The profiles of a report, one after the other. -/
theorem foldlM_updateProfile_reported (hone : r.OnePerSeed)
    (h : profiles.foldlM (ReportDb.updateProfile accepts garden) r = some r') :
    r'.OnePerSeed ∧ KeysGrow r r' ∧ (∀ profile ∈ profiles, r'.Knows profile) ∧
    (∀ seedId, ReportedAll r' seedId profiles (r.rowOf garden.id seedId)
      (r'.rowOf garden.id seedId)) ∧
    ∀ gardenId seedId, gardenId ≠ garden.id →
      r'.rowOf gardenId seedId = r.rowOf gardenId seedId := by
  induction profiles generalizing r with
  | nil =>
    cases h
    exact ⟨hone, .refl _, (fun _ hmem => nomatch hmem), fun _ => rfl, fun _ _ _ => rfl⟩
  | cons profile profiles ih =>
    rw [List.foldlM_cons] at h
    obtain ⟨next, hnext, hrest⟩ := Option.bind_eq_some_iff.mp h
    obtain ⟨hone₁, hgrow, hknows, hreported, hother⟩ := updateProfile_reported hone hnext
    obtain ⟨hone', hgrow', hknows', hreported', hother'⟩ := ih hone₁ hrest
    refine ⟨hone', hgrow.trans hgrow', List.forall_mem_cons.mpr ⟨hknows.grow hgrow', hknows'⟩,
      fun seedId => ?_, fun gardenId seedId hne => ?_⟩
    · exact ⟨next.rowOf garden.id seedId, (hreported seedId).grow hknows hgrow', hreported' seedId⟩
    · rw [hother' gardenId seedId hne, hother gardenId seedId hne]

theorem reportedAll_append {front : List SeedProfile} :
    ReportedAll r seedId (front ++ later) before after ↔
      ∃ mid, ReportedAll r seedId front before mid ∧ ReportedAll r seedId later mid after := by
  induction front generalizing before with
  | nil =>
    constructor
    · intro h
      exact ⟨before, rfl, h⟩
    · intro ⟨mid, hmid, h⟩
      cases hmid
      exact h
  | cons profile front ih =>
    constructor
    · intro ⟨first, hfirst, hrest⟩
      obtain ⟨mid, hmid, h⟩ := ih.mp hrest
      exact ⟨mid, ⟨first, hfirst, hmid⟩, h⟩
    · intro ⟨mid, ⟨first, hfirst, hmid⟩, h⟩
      exact ⟨first, hfirst, ih.mpr ⟨mid, hmid, h⟩⟩

theorem key_of_reportedContent (h : r.reportedContent profile seedId = some content) :
    r.profileOf profile.profilePath = some content.profileId := by
  unfold ReportDb.reportedContent at h
  split at h
  · rename_i hkey _
    cases h
    exact hkey
  · cases h

/-- Profiles without the seed only take away rows of their own. -/
theorem ReportedAll.stale (h : ReportedAll r seedId profiles before after)
    (hnone : ∀ profile ∈ profiles, r.reportedContent profile seedId = none)
    {g : GardenSeedGeneration} :
    after = some g ↔ before = some g ∧
      ∀ profile ∈ profiles, r.profileOf profile.profilePath ≠ some g.profileId := by
  induction profiles generalizing before with
  | nil =>
    cases h
    simp
  | cons profile profiles ih =>
    obtain ⟨mid, hmid, hrest⟩ := h
    rw [List.forall_mem_cons] at hnone
    rw [ih hrest hnone.2, hmid.stale hnone.1, Option.filter_eq_some_iff, decide_eq_true_eq,
      List.forall_mem_cons, and_assoc]

/-- No profile has the seed. -/
theorem unreported_of_not (h : ¬ ∃ profile ∈ profiles, r.reportedContent profile seedId ≠ none) :
    ∀ profile ∈ profiles, r.reportedContent profile seedId = none := by
  intro profile hmem
  by_contra hne
  exact h ⟨profile, hmem, hne⟩

/-- If one of the profiles has the seed and none of the later ones, it is the first. -/
theorem first_reported
    (hsome : ∃ found ∈ profile :: profiles, r.reportedContent found seedId ≠ none)
    (hnone : ∀ found ∈ profiles, r.reportedContent found seedId = none) :
    ∃ content, r.reportedContent profile seedId = some content := by
  apply Option.ne_none_iff_exists'.mp
  obtain ⟨found, hmem, hne⟩ := hsome
  cases List.mem_cons.mp hmem with
  | inl heq => exact heq ▸ hne
  | inr hmem => exact absurd (hnone found hmem) hne

/-- If one of the profiles has the seed, a row that stays is as one of them has it. -/
theorem ReportedAll.written (h : ReportedAll r seedId profiles before after)
    (hsome : ∃ profile ∈ profiles, r.reportedContent profile seedId ≠ none)
    {g : GardenSeedGeneration} (hafter : after = some g) :
    ∃ profile ∈ profiles, r.reportedContent profile seedId = some g.content := by
  induction profiles generalizing before with
  | nil =>
    obtain ⟨profile, hmem, -⟩ := hsome
    cases hmem
  | cons profile profiles ih =>
    obtain ⟨mid, hmid, hrest⟩ := h
    by_cases hlater : ∃ profile ∈ profiles, r.reportedContent profile seedId ≠ none
    · obtain ⟨last, hmem, hlast⟩ := ih hrest hlater
      exact ⟨last, List.mem_cons_of_mem _ hmem, hlast⟩
    · have hnone := unreported_of_not hlater
      obtain ⟨content, hcontent⟩ := first_reported hsome hnone
      obtain ⟨new, hnew, hnewContent, -⟩ := hmid.written content hcontent
      have hkept := ((hrest.stale hnone).mp hafter).1
      rw [hnew] at hkept
      cases hkept
      exact ⟨profile, List.mem_cons_self, by rw [hcontent, hnewContent]⟩

/-- The rows of a profile after the report: the seeds that it has and no later profile. -/
theorem ReportedAll.rows {front : List SeedProfile}
    (h : ReportedAll r seedId (front ++ profile :: later) before after)
    (hlast : ∀ other ∈ later, r.profileOf other.profilePath ≠ r.profileOf profile.profilePath)
    (hkey : r.profileOf profile.profilePath = some content.profileId) :
    (∃ g, after = some g ∧ g.content = content) ↔
      r.reportedContent profile seedId = some content ∧
        ∀ other ∈ later, r.reportedContent other seedId = none := by
  obtain ⟨start, -, mid, hmid, hrest⟩ := reportedAll_append.mp h
  constructor
  · intro ⟨g, hafter, hcontent⟩
    have hprofile : g.profileId = content.profileId := congrArg Content.profileId hcontent
    by_cases hlater : ∃ other ∈ later, r.reportedContent other seedId ≠ none
    · -- a later profile has the seed, and the row is attributed to another profile
      obtain ⟨other, hmem, hother⟩ := hrest.written hlater hafter
      have hothers := key_of_reportedContent hother
      have hsame : g.content.profileId = content.profileId := hprofile
      rw [hsame, ← hkey] at hothers
      exact absurd hothers (hlast other hmem)
    · have hnone := unreported_of_not hlater
      refine ⟨?_, hnone⟩
      have hmidRow := ((hrest.stale hnone).mp hafter).1
      cases hreported : r.reportedContent profile seedId with
      | some written =>
        obtain ⟨new, hnew, hnewContent, -⟩ := hmid.written written hreported
        rw [hnew] at hmidRow
        cases hmidRow
        rw [← hnewContent, hcontent]
      | none =>
        rw [hmid.stale hreported, Option.filter_eq_some_iff, decide_eq_true_eq, hprofile] at hmidRow
        exact absurd hkey hmidRow.2
  · intro ⟨hreported, hnone⟩
    obtain ⟨new, hnew, hnewContent, -⟩ := hmid.written content hreported
    refine ⟨new, (hrest.stale hnone).mpr ⟨hnew, ?_⟩, hnewContent⟩
    intro other hmem hsame
    have hprofile : new.profileId = content.profileId := congrArg Content.profileId hnewContent
    rw [hprofile, ← hkey] at hsame
    exact hlast other hmem hsame

/-- The rows of a profile that is not reported: those whose seeds are not reported. -/
theorem ReportedAll.unreported (h : ReportedAll r seedId profiles before after)
    {g : GardenSeedGeneration}
    (hunreported : ∀ profile ∈ profiles, r.profileOf profile.profilePath ≠ some g.profileId) :
    after = some g ↔
      before = some g ∧ ∀ profile ∈ profiles, r.reportedContent profile seedId = none := by
  constructor
  · intro hafter
    by_cases hsome : ∃ profile ∈ profiles, r.reportedContent profile seedId ≠ none
    · obtain ⟨profile, hmem, hreported⟩ := h.written hsome hafter
      exact absurd (key_of_reportedContent hreported) (hunreported profile hmem)
    · have hnone := unreported_of_not hsome
      exact ⟨((h.stale hnone).mp hafter).1, hnone⟩
  · intro ⟨hbefore, hnone⟩
    exact (h.stale hnone).mpr ⟨hbefore, hunreported⟩

/-- If one of the profiles has the seed, what was there before makes no difference. -/
theorem ReportedAll.content_eq {before' after' : Option GardenSeedGeneration}
    (h : ReportedAll r seedId profiles before after)
    (h' : ReportedAll r seedId profiles before' after')
    (hsome : ∃ profile ∈ profiles, r.reportedContent profile seedId ≠ none) :
    after'.map (·.content) = after.map (·.content) := by
  induction profiles generalizing before before' with
  | nil =>
    obtain ⟨profile, hmem, -⟩ := hsome
    cases hmem
  | cons profile profiles ih =>
    obtain ⟨mid, hmid, hrest⟩ := h
    obtain ⟨mid', hmid', hrest'⟩ := h'
    by_cases hlater : ∃ profile ∈ profiles, r.reportedContent profile seedId ≠ none
    · exact ih hrest hrest' hlater
    · have hnone := unreported_of_not hlater
      obtain ⟨content, hcontent⟩ := first_reported hsome hnone
      obtain ⟨new, hnew, hnewContent, -⟩ := hmid.written content hcontent
      obtain ⟨new', hnew', hnewContent', -⟩ := hmid'.written content hcontent
      have hprofile : new'.profileId = new.profileId :=
        congrArg Content.profileId (hnewContent'.trans hnewContent.symm)
      have hstays (g : GardenSeedGeneration) := hrest.stale hnone (g := g)
      have hstays' (g : GardenSeedGeneration) := hrest'.stale hnone (g := g)
      by_cases hkept : ∀ profile ∈ profiles, r.profileOf profile.profilePath ≠ some new.profileId
      · rw [(hstays new).mpr ⟨hnew, hkept⟩, (hstays' new').mpr ⟨hnew', hprofile ▸ hkept⟩,
          Option.map_some, Option.map_some, hnewContent, hnewContent']
      · have hgone : after = none := by
          refine Option.eq_none_iff_forall_ne_some.mpr fun g hafter => ?_
          obtain ⟨hmidRow, hkeys⟩ := (hstays g).mp hafter
          rw [hnew] at hmidRow
          cases hmidRow
          exact hkept hkeys
        have hgone' : after' = none := by
          refine Option.eq_none_iff_forall_ne_some.mpr fun g hafter => ?_
          obtain ⟨hmidRow, hkeys⟩ := (hstays' g).mp hafter
          rw [hnew'] at hmidRow
          cases hmidRow
          exact hkept (hprofile ▸ hkeys)
        rw [hgone, hgone']

/-- The same report again changes nothing. -/
theorem ReportedAll.again {again : Option GardenSeedGeneration}
    (h : ReportedAll r seedId profiles before after)
    (h' : ReportedAll r seedId profiles after again) :
    again.map (·.content) = after.map (·.content) := by
  by_cases hsome : ∃ profile ∈ profiles, r.reportedContent profile seedId ≠ none
  · exact h.content_eq h' hsome
  · have hnone := unreported_of_not hsome
    have hsame : again = after := by
      refine Option.ext fun g => ?_
      rw [h'.stale hnone]
      exact ⟨And.left, fun hafter => ⟨hafter, ((h.stale hnone).mp hafter).2⟩⟩
    rw [hsame]

/-- If no profile is reported twice, a row keeps its key in the profiles of the report as
long as one of them has it. -/
theorem ReportedAll.keeps {all : List SeedProfile} {old : GardenSeedGeneration}
    (hdistinct : ∀ a ∈ all, ∀ b ∈ all,
      r.profileOf a.profilePath = r.profileOf b.profilePath → a = b)
    (hsub : ∀ profile ∈ profiles, profile ∈ all)
    (h : ReportedAll r seedId profiles before after) (hbefore : before = some old)
    (hold : ∃ profile ∈ all, r.reportedContent profile seedId = some old.content) :
    ∃ new, after = some new ∧ new.id = old.id := by
  induction profiles generalizing before old with
  | nil =>
    cases h
    exact ⟨old, hbefore, rfl⟩
  | cons profile profiles ih =>
    obtain ⟨mid, hmid, hrest⟩ := h
    rw [List.forall_mem_cons] at hsub
    cases hreported : r.reportedContent profile seedId with
    | some content =>
      obtain ⟨new, hnew, hcontent, hid⟩ := hmid.written content hreported
      have hnext : ∃ profile ∈ all, r.reportedContent profile seedId = some new.content :=
        ⟨profile, hsub.1, by rw [hreported, hcontent]⟩
      obtain ⟨last, hlast, hlastId⟩ := ih hsub.2 hrest hnew hnext
      exact ⟨last, hlast, hlastId.trans (hid old hbefore)⟩
    | none =>
      -- the row belongs to another profile of the report
      have hkeep : mid = some old := by
        obtain ⟨owner, howner, hcontent⟩ := hold
        rw [hmid.stale hreported, Option.filter_eq_some_iff, decide_eq_true_eq]
        refine ⟨hbefore, fun hsame => ?_⟩
        have hkey : r.profileOf owner.profilePath = some old.profileId :=
          key_of_reportedContent hcontent
        have heq := hdistinct owner howner profile hsub.1 (hkey.trans hsame.symm)
        rw [heq, hreported] at hcontent
        cases hcontent
      exact ih hsub.2 hrest hkeep hold

/-- Without a profile that is reported twice, the same report again keeps the row. -/
theorem ReportedAll.again_keeps {again : Option GardenSeedGeneration} {old : GardenSeedGeneration}
    (hdistinct : ∀ a ∈ profiles, ∀ b ∈ profiles,
      r.profileOf a.profilePath = r.profileOf b.profilePath → a = b)
    (h : ReportedAll r seedId profiles before after)
    (h' : ReportedAll r seedId profiles after again) (hafter : after = some old) :
    ∃ new, again = some new ∧ new.id = old.id := by
  by_cases hsome : ∃ profile ∈ profiles, r.reportedContent profile seedId ≠ none
  · have hwritten := h.written hsome hafter
    exact ReportedAll.keeps hdistinct (fun _ hmem => hmem) h' hafter hwritten
  · have hnone := unreported_of_not hsome
    have hkeys := ((h.stale hnone).mp hafter).2
    exact ⟨old, (h'.stale hnone).mpr ⟨hafter, hkeys⟩, rfl⟩

end Report

section Again

variable {accepts : NewSeed → Bool} {garden : Reporter} {report : SeedsReport}
  {profile : SeedProfile} {profiles : List SeedProfile} {r r' : ReportDb} {db : Db} {seedId : ℕ}
  {before after : Option GardenSeedGeneration}

/-- Generations with known seeds register nothing. -/
theorem foldlM_generation_known {gens : List Generation} {resolving : Resolving}
    (hknown : ∀ gen ∈ gens, ∃ seedId, resolving.seedsByArtifact.lookup gen.path = some seedId) :
    ∃ resolving', gens.foldlM (Resolving.generation accepts garden profile) resolving =
      some resolving' ∧ resolving'.db = resolving.db := by
  induction gens generalizing resolving with
  | nil => exact ⟨resolving, rfl, rfl⟩
  | cons gen gens ih =>
    rw [List.forall_mem_cons] at hknown
    obtain ⟨seedId, hseed⟩ := hknown.1
    have hstep : resolving.generation accepts garden profile gen =
        some (resolving.addRow gen seedId) := by
      unfold Resolving.generation
      rw [hseed]
    have hlookup : (resolving.addRow gen seedId).seedsByArtifact = resolving.seedsByArtifact := by
      unfold Resolving.addRow
      split
      · rfl
      · rfl
    have hnext : ∃ resolving', gens.foldlM (Resolving.generation accepts garden profile)
        (resolving.addRow gen seedId) = some resolving' ∧
          resolving'.db = (resolving.addRow gen seedId).db := by
      refine ih ?_
      rw [hlookup]
      exact hknown.2
    obtain ⟨resolving', hrest, hdb⟩ := hnext
    refine ⟨resolving', ?_, hdb.trans (addRow_db resolving gen seedId)⟩
    rw [List.foldlM_cons, hstep]
    exact hrest

theorem resolve_known (hknown : ∀ gen ∈ profile.generations, ∃ seedId, db.seedOf gen.path = some seedId) :
    ∃ rows, db.resolveProfileGenerationRows accepts garden profile = some (db, rows) := by
  unfold Db.resolveProfileGenerationRows
  dsimp only
  obtain ⟨start, hstart⟩ : ∃ start, start =
      ((db.seeds.rows.filter (·.artifact ∈ profile.generations.map (·.path))).map fun seed =>
        (seed.artifact, seed.id)).reverse := ⟨_, rfl⟩
  have hlookup : ∀ gen ∈ profile.generations, ∃ seedId, start.lookup gen.path = some seedId := by
    intro gen hgen
    obtain ⟨seedId, hseed⟩ := hknown gen hgen
    rw [hstart]
    exact ⟨seedId, (lookup_seedsByArtifact (List.mem_map_of_mem hgen)).trans hseed⟩
  have hfold : ∃ resolving, profile.generations.foldlM
      (Resolving.generation accepts garden profile) ⟨db, start, []⟩ = some resolving ∧
        resolving.db = db := foldlM_generation_known hlookup
  obtain ⟨resolving, hresolving, hdb⟩ := hfold
  rw [← hstart, hresolving, Option.map_some, hdb]
  exact ⟨_, rfl⟩

/-- A profile that is known registers nothing. -/
theorem updateProfile_known (h : r.Knows profile) :
    ∃ r', r.updateProfile accepts garden profile = some r' ∧ r'.db = r.db ∧
      r'.nixProfiles = r.nixProfiles := by
  obtain ⟨profileId, hkey⟩ := h.key
  obtain ⟨found, hfound, -⟩ := Option.map_eq_some_iff.mp hkey
  have hprofile : r.findOrCreateProfile profile.profilePath = (r, found.id) := by
    unfold ReportDb.findOrCreateProfile
    rw [hfound]
  have hresolve : ∃ rows, r.db.resolveProfileGenerationRows accepts garden profile =
      some (r.db, rows) := resolve_known h.seeds
  obtain ⟨rows, hrows⟩ := hresolve
  unfold ReportDb.updateProfile
  rw [hprofile]
  simp only [hrows, Option.map_some]
  exact ⟨_, rfl, syncProfileGenerationRows_db .., syncProfileGenerationRows_nixProfiles ..⟩

theorem knows_of_same (h : r.Knows profile) (hdb : r'.db = r.db)
    (hnix : r'.nixProfiles = r.nixProfiles) : r'.Knows profile := by
  refine ⟨?_, ?_⟩
  · unfold ReportDb.profileOf
    rw [hnix]
    exact h.key
  · rw [hdb]
    exact h.seeds

theorem foldlM_updateProfile_known (h : ∀ profile ∈ profiles, r.Knows profile) :
    ∃ r', profiles.foldlM (ReportDb.updateProfile accepts garden) r = some r' ∧ r'.db = r.db ∧
      r'.nixProfiles = r.nixProfiles := by
  induction profiles generalizing r with
  | nil => exact ⟨r, rfl, rfl, rfl⟩
  | cons profile profiles ih =>
    rw [List.forall_mem_cons] at h
    have hstep : ∃ r', r.updateProfile accepts garden profile = some r' ∧ r'.db = r.db ∧
      r'.nixProfiles = r.nixProfiles := updateProfile_known h.1
    obtain ⟨next, hnext, hdb, hnix⟩ := hstep
    obtain ⟨r', hr', hdb', hnix'⟩ :=
      ih fun profile hmem => knows_of_same (h.2 profile hmem) hdb hnix
    refine ⟨r', ?_, hdb'.trans hdb, hnix'.trans hnix⟩
    rw [List.foldlM_cons, hnext]
    exact hr'

theorem ReportedAll.grow (hall : ReportedAll r seedId profiles before after)
    (h : ∀ profile ∈ profiles, r.Knows profile) (hgrow : KeysGrow r r') :
    ReportedAll r' seedId profiles before after := by
  induction profiles generalizing before with
  | nil => exact hall
  | cons profile profiles ih =>
    obtain ⟨mid, hmid, hrest⟩ := hall
    rw [List.forall_mem_cons] at h
    exact ⟨mid, hmid.grow h.1 hgrow, ih hrest h.2⟩

/-- Two profiles with the same key have the same path. -/
theorem path_of_profileOf {path path' : String} {profileId : ℕ}
    (h : r.profileOf path = some profileId) (h' : r.profileOf path' = some profileId) :
    path = path' := by
  obtain ⟨found, hfound, hid⟩ := Option.map_eq_some_iff.mp h
  obtain ⟨found', hfound', hid'⟩ := Option.map_eq_some_iff.mp h'
  have hsame : found = found' := Table.eq_of_key (List.mem_of_find?_eq_some hfound)
    (List.mem_of_find?_eq_some hfound') (hid.trans hid'.symm)
  have hpath : found.profilePath = path := by simpa using List.find?_some hfound
  have hpath' : found'.profilePath = path' := by simpa using List.find?_some hfound'
  rw [← hpath, ← hpath', hsame]

end Again

section Main

variable {accepts : NewSeed → Bool} {garden : Reporter} {report : SeedsReport} {r : ReportDb}

/-- The rows of each reported profile are the seeds of its artifacts. -/
def ReportDb.ExactRows (r : ReportDb) (garden : Reporter) (report : SeedsReport) : Prop :=
  ∀ profile ∈ report.profiles, ∀ seedId,
    (∃ g ∈ r.generations.rows, g.gardenId = garden.id ∧
      r.profileOf profile.profilePath = some g.profileId ∧ g.seedId = seedId) ↔
    ∃ gen ∈ profile.generations, r.db.seedOf gen.path = some seedId

/-- Two profiles with the same artifact. -/
def sharedReport : SeedsReport where
  profiles := [
    { profilePath := "/a", generations := [⟨"/nix/store/x", some 1, some 0, true⟩] },
    { profilePath := "/b", generations := [⟨"/nix/store/x", some 2, some 0, false⟩] }]

/-- A server that knows nothing. -/
def emptyReportDb : ReportDb where
  db := { clock := fun _ => 0 }

theorem sharedReport_done :
    (sharedReport.profiles.foldlM (ReportDb.updateProfile (fun _ => true) ⟨1, "g", "g"⟩)
      emptyReportDb).isSome := by decide

/-- The row of a seed in two profiles is attributed to the second one. -/
theorem sharedReport_not_exact :
    (sharedReport.profiles.foldlM (ReportDb.updateProfile (fun _ => true) ⟨1, "g", "g"⟩)
      emptyReportDb).isSome ∧
    ¬ (emptyReportDb.updateGardenSeedGenerations (fun _ => true) ⟨1, "g", "g"⟩
      sharedReport).ExactRows ⟨1, "g", "g"⟩ sharedReport := by
  refine ⟨sharedReport_done, fun hexact => ?_⟩
  obtain ⟨g, hg, -, hprofile, -⟩ := (hexact _ List.mem_cons_self 1).mpr
    ⟨_, List.mem_cons_self, by decide⟩
  have hrows : ∀ g ∈ (emptyReportDb.updateGardenSeedGenerations (fun _ => true) ⟨1, "g", "g"⟩
      sharedReport).generations.rows,
      (emptyReportDb.updateGardenSeedGenerations (fun _ => true) ⟨1, "g", "g"⟩
        sharedReport).profileOf "/a" ≠ some g.profileId := by decide
  exact hrows g hg hprofile

/-- What a report that is carried out leaves. -/
structure ReportDb.Synchronised (garden : Reporter) (report : SeedsReport) (r r' : ReportDb) :
    Prop where
  /-- All reported paths have seeds. -/
  seeds : ∀ profile ∈ report.profiles, ∀ gen ∈ profile.generations,
    ∃ seedId, r'.db.seedOf gen.path = some seedId
  /-- The last profile of a path has the rows of its seeds that no later profile has, each
  with the last generation reported for it. -/
  rows : ∀ front profile later, report.profiles = front ++ profile :: later →
    profile.profilePath ∉ later.map (·.profilePath) →
    ∀ seedId content, r'.profileOf profile.profilePath = some content.profileId →
      ((∃ g ∈ r'.generations.rows, g.gardenId = garden.id ∧ g.seedId = seedId ∧
          g.content = content) ↔
        r'.reportedContent profile seedId = some content ∧
          ∀ other ∈ later, r'.reportedContent other seedId = none)
  /-- A current row is that of the last generation reported current. -/
  current : ∀ front profile later, report.profiles = front ++ profile :: later →
    profile.profilePath ∉ later.map (·.profilePath) →
    ∀ g ∈ r'.generations.rows, g.gardenId = garden.id →
      r'.profileOf profile.profilePath = some g.profileId → g.isCurrent = true →
        lastCurrent (r'.db.reportedRows profile.generations) = some g.seedId
  /-- There is at most one of them. -/
  one : ∀ profile ∈ report.profiles,
    ∀ g ∈ r'.generations.rows, ∀ g' ∈ r'.generations.rows,
      g.gardenId = garden.id → g'.gardenId = garden.id →
      r'.profileOf profile.profilePath = some g.profileId →
      r'.profileOf profile.profilePath = some g'.profileId →
      g.isCurrent = true → g'.isCurrent = true → g = g'
  /-- Rows of other profiles stay, unless their seeds are reported. -/
  others : report.profiles ≠ [] → ∀ g, g.gardenId = garden.id →
    (∀ profile ∈ report.profiles, r'.profileOf profile.profilePath ≠ some g.profileId) →
      (g ∈ r'.generations.rows ↔ g ∈ r.generations.rows ∧
        ∀ profile ∈ report.profiles, r'.reportedContent profile g.seedId = none)
  /-- Rows of other gardens stay. -/
  gardens : ∀ g, g.gardenId ≠ garden.id → (g ∈ r'.generations.rows ↔ g ∈ r.generations.rows)

/-- What the same report leaves when it comes again. -/
structure ReportDb.Unchanged (report : SeedsReport) (r r' : ReportDb) : Prop where
  db : r'.db = r.db
  nixProfiles : r'.nixProfiles = r.nixProfiles
  content : ∀ gardenId seedId,
    (r'.rowOf gardenId seedId).map (·.content) = (r.rowOf gardenId seedId).map (·.content)
  /-- Without a profile that is reported twice the rows keep their keys, too. -/
  rows : (report.profiles.map (·.profilePath)).Nodup →
    ∀ g, g ∈ r'.generations.rows ↔ g ∈ r.generations.rows

variable {r' : ReportDb}

theorem update_of_foldlM (hne : report.profiles ≠ [])
    (h : report.profiles.foldlM (ReportDb.updateProfile accepts garden) r = some r') :
    r.updateGardenSeedGenerations accepts garden report = r' := by
  unfold ReportDb.updateGardenSeedGenerations
  rw [if_neg hne, h, Option.getD_some]

/-- A member of a list whose key is not found behind it, with the same key as a given one. -/
theorem exists_last_of_path {profiles : List SeedProfile} {profile : SeedProfile}
    (h : profile ∈ profiles) : ∃ front last later, profiles = front ++ last :: later ∧
      last.profilePath = profile.profilePath ∧ last.profilePath ∉ later.map (·.profilePath) := by
  induction profiles generalizing profile with
  | nil => cases h
  | cons first profiles ih =>
    by_cases hlater : ∃ other ∈ profiles, other.profilePath = profile.profilePath
    · obtain ⟨other, hother, hpath⟩ := hlater
      obtain ⟨front, last, later, hsplit, hsame, hlast⟩ := ih hother
      exact ⟨first :: front, last, later, by rw [hsplit, List.cons_append], hsame.trans hpath, hlast⟩
    · have hfirst : first = profile := by
        cases List.mem_cons.mp h with
        | inl heq => exact heq.symm
        | inr hmem => exact absurd ⟨profile, hmem, rfl⟩ hlater
      refine ⟨[], first, profiles, rfl, by rw [hfirst], fun hmem => ?_⟩
      obtain ⟨other, hother, hpath⟩ := List.mem_map.mp hmem
      exact hlater ⟨other, hother, hpath.trans (by rw [hfirst])⟩

theorem lastCurrent_of_reportedContent {profile : SeedProfile} {seedId : ℕ} {content : Content}
    (h : r.reportedContent profile seedId = some content) (hcurrent : content.isCurrent = true) :
    lastCurrent (r.db.reportedRows profile.generations) = some seedId := by
  unfold ReportDb.reportedContent at h
  split at h
  · cases h
    exact of_decide_eq_true hcurrent
  · cases h

theorem synchronised_of_foldlM (hone : r.OnePerSeed)
    (h : report.profiles.foldlM (ReportDb.updateProfile accepts garden) r = some r') :
    r.Synchronised garden report r' := by
  obtain ⟨hone', -, hknows, hall, hother⟩ := foldlM_updateProfile_reported hone h
  have hrows : ∀ front profile later, report.profiles = front ++ profile :: later →
      profile.profilePath ∉ later.map (·.profilePath) →
      ∀ seedId content, r'.profileOf profile.profilePath = some content.profileId →
        ((∃ g ∈ r'.generations.rows, g.gardenId = garden.id ∧ g.seedId = seedId ∧
            g.content = content) ↔
          r'.reportedContent profile seedId = some content ∧
            ∀ other ∈ later, r'.reportedContent other seedId = none) := by
    intro front profile later hsplit hpath seedId content hkey
    have hchain := hall seedId
    rw [hsplit] at hchain
    have hlast : ∀ other ∈ later,
        r'.profileOf other.profilePath ≠ r'.profileOf profile.profilePath := by
      intro other hmem hsame
      rw [hkey] at hsame
      have hequal := path_of_profileOf hkey hsame
      exact hpath (hequal ▸ List.mem_map_of_mem hmem)
    rw [← hchain.rows hlast hkey]
    constructor
    · intro ⟨g, hmem, hgarden, hseed, hcontent⟩
      exact ⟨g, (rowOf_eq_some hone').mpr ⟨hmem, hgarden, hseed⟩, hcontent⟩
    · intro ⟨g, hrow, hcontent⟩
      obtain ⟨hmem, hgarden, hseed⟩ := rowOf_some hrow
      exact ⟨g, hmem, hgarden, hseed, hcontent⟩
  have hcurrent : ∀ front profile later, report.profiles = front ++ profile :: later →
      profile.profilePath ∉ later.map (·.profilePath) →
      ∀ g ∈ r'.generations.rows, g.gardenId = garden.id →
        r'.profileOf profile.profilePath = some g.profileId → g.isCurrent = true →
          lastCurrent (r'.db.reportedRows profile.generations) = some g.seedId := by
    intro front profile later hsplit hpath g hmem hgarden hkey hflag
    have hreported := (hrows front profile later hsplit hpath g.seedId g.content hkey).mp
      ⟨g, hmem, hgarden, rfl, rfl⟩
    exact lastCurrent_of_reportedContent hreported.1 hflag
  constructor
  · exact fun profile hprofile => (hknows profile hprofile).seeds
  · exact hrows
  · exact hcurrent
  · intro profile hprofile g hg g' hg' hgarden hgarden' hkey hkey' hflag hflag'
    obtain ⟨front, last, later, hsplit, hsame, hlast⟩ := exists_last_of_path hprofile
    rw [← hsame] at hkey hkey'
    have hseed := hcurrent front last later hsplit hlast g hg hgarden hkey hflag
    have hseed' := hcurrent front last later hsplit hlast g' hg' hgarden' hkey' hflag'
    have hequal : g.seedId = g'.seedId := Option.some.inj (hseed.symm.trans hseed')
    exact hone' g hg g' hg' (hgarden.trans hgarden'.symm) hequal
  · intro _ g hgarden hunreported
    rw [mem_iff_rowOf hone', mem_iff_rowOf hone, hgarden]
    exact (hall g.seedId).unreported hunreported
  · intro g hgarden
    rw [mem_iff_rowOf hone', mem_iff_rowOf hone, hother g.gardenId g.seedId hgarden]

theorem profilesGrow_of_same {r'' : ReportDb} (hdb : r''.db = r'.db)
    (hnix : r''.nixProfiles = r'.nixProfiles) : KeysGrow r' r'' := by
  constructor
  · intro path profileId hprofile
    unfold ReportDb.profileOf at hprofile ⊢
    rw [hnix]
    exact hprofile
  · rw [hdb]
    exact .refl _

theorem unchanged_of_foldlM (hone : r.OnePerSeed) (hne : report.profiles ≠ [])
    (h : report.profiles.foldlM (ReportDb.updateProfile accepts garden) r = some r') :
    r'.Unchanged report (r'.updateGardenSeedGenerations accepts garden report) := by
  obtain ⟨hone', -, hknows, hall, -⟩ := foldlM_updateProfile_reported hone h
  have hagain : ∃ r'', report.profiles.foldlM (ReportDb.updateProfile accepts garden) r' =
      some r'' ∧ r''.db = r'.db ∧ r''.nixProfiles = r'.nixProfiles :=
    foldlM_updateProfile_known hknows
  obtain ⟨r'', hr'', hdb, hnix⟩ := hagain
  obtain ⟨hone'', -, -, hall', hother⟩ := foldlM_updateProfile_reported hone' hr''
  have hgrow : KeysGrow r' r'' := profilesGrow_of_same hdb hnix
  have hfirst (seedId : ℕ) := (hall seedId).grow hknows hgrow
  have hcontent (gardenId seedId : ℕ) :
      (r''.rowOf gardenId seedId).map (·.content) = (r'.rowOf gardenId seedId).map (·.content) := by
    by_cases hgarden : gardenId = garden.id
    · rw [hgarden]
      exact (hfirst seedId).again (hall' seedId)
    · rw [hother gardenId seedId hgarden]
  rw [update_of_foldlM hne hr'']
  refine ⟨hdb, hnix, hcontent, fun hnodup g => ?_⟩
  have hdistinct : ∀ a ∈ report.profiles, ∀ b ∈ report.profiles,
      r''.profileOf a.profilePath = r''.profileOf b.profilePath → a = b := by
    intro a ha b hb hsame
    obtain ⟨profileId, hkey⟩ := ((hknows a ha).grow hgrow).key
    have hpath := path_of_profileOf hkey (hsame ▸ hkey)
    exact List.inj_on_of_nodup_map hnodup ha hb hpath
  have hrow (gardenId seedId : ℕ) : r''.rowOf gardenId seedId = r'.rowOf gardenId seedId := by
    by_cases hgarden : gardenId = garden.id
    · rw [hgarden]
      have hsame := hcontent garden.id seedId
      cases hold : r'.rowOf garden.id seedId with
      | none =>
        rw [hold, Option.map_none, Option.map_eq_none_iff] at hsame
        exact hsame
      | some old =>
        obtain ⟨new, hnew, hid⟩ := ReportedAll.again_keeps hdistinct (hfirst seedId) (hall' seedId) hold
        rw [hold, hnew, Option.map_some, Option.map_some, Option.some.injEq] at hsame
        obtain ⟨-, hgarden, hseed⟩ := rowOf_some hold
        obtain ⟨-, hgarden', hseed'⟩ := rowOf_some hnew
        rw [hnew, eq_of_content hid (hgarden'.trans hgarden.symm) (hseed'.trans hseed.symm) hsame]
    · exact hother gardenId seedId hgarden
  rw [mem_iff_rowOf hone'', mem_iff_rowOf hone', hrow]

/-- An empty report takes all rows of the garden away. -/
theorem update_of_nil (hnil : report.profiles = []) :
    r.updateGardenSeedGenerations accepts garden report =
      { r with generations := r.generations.delete fun g => g.gardenId = garden.id } := by
  unfold ReportDb.updateGardenSeedGenerations
  rw [if_pos hnil]

/-- What a report that is carried out leaves, and that the same report again changes nothing. -/
theorem generationSync_exact (hone : r.OnePerSeed)
    (hdone : (report.profiles.foldlM (ReportDb.updateProfile accepts garden) r).isSome) :
    ∀ r', r.updateGardenSeedGenerations accepts garden report = r' →
      r.Synchronised garden report r' ∧
        r'.Unchanged report (r'.updateGardenSeedGenerations accepts garden report) := by
  intro r' hr'
  by_cases hnil : report.profiles = []
  · rw [update_of_nil hnil] at hr' ⊢
    have hone' : r'.OnePerSeed := by
      rw [← hr']
      exact onePerSeed_delete hone
    have hmem (g : GardenSeedGeneration) :
        g ∈ r'.generations.rows ↔ g ∈ r.generations.rows ∧ g.gardenId ≠ garden.id := by
      rw [← hr', Table.mem_delete, decide_eq_false_iff_not]
    have hsame : ReportDb.rowOf
        { r' with generations := r'.generations.delete fun g => g.gardenId = garden.id } = r'.rowOf := by
      funext gardenId seedId
      rw [rowOf_delete hone']
      cases hrow : r'.rowOf gardenId seedId with
      | none => rfl
      | some g =>
        have hforeign := ((hmem g).mp (rowOf_some hrow).1).2
        rw [Option.filter_some, if_pos]
        simp [hforeign]
    constructor
    · constructor
      · intro profile hprofile
        rw [hnil] at hprofile
        cases hprofile
      · intro front profile later hsplit
        rw [hnil] at hsplit
        exact absurd hsplit (by simp)
      · intro front profile later hsplit
        rw [hnil] at hsplit
        exact absurd hsplit (by simp)
      · intro profile hprofile
        rw [hnil] at hprofile
        cases hprofile
      · exact fun hne => absurd hnil hne
      · intro g hgarden
        rw [hmem]
        exact and_iff_left hgarden
    · refine ⟨rfl, rfl, fun gardenId seedId => by rw [hsame], fun _ g => ?_⟩
      rw [Table.mem_delete, hmem, decide_eq_false_iff_not]
      exact and_iff_left_of_imp And.right
  · obtain ⟨done, hfold⟩ := Option.isSome_iff_exists.mp hdone
    have hupdate : r.updateGardenSeedGenerations accepts garden report = done :=
      update_of_foldlM hnil hfold
    rw [← hr', hupdate]
    exact ⟨synchronised_of_foldlM hone hfold, unchanged_of_foldlM hone hnil hfold⟩

/-- The report of two profiles with one artifact is carried out, too. -/
theorem generationSync_exact_shared : emptyReportDb.OnePerSeed ∧
    emptyReportDb.Synchronised ⟨1, "g", "g"⟩ sharedReport
      (emptyReportDb.updateGardenSeedGenerations (fun _ => true) ⟨1, "g", "g"⟩ sharedReport) := by
  have hone : emptyReportDb.OnePerSeed := fun _ hmem => nomatch hmem
  exact ⟨hone, (generationSync_exact hone sharedReport_done _ rfl).1⟩


end Main

end Sower.Server
