import Sower.Server.Deployments

/-!
# Seeds and the subscriptions they match

A new seed looks for the subscriptions that it matches, and a subscription that is due
looks for the seeds that match it. One question is put to the database as a fragment over
the rules in JSON, the other as nested queries over the table of tags. Both find the same
pairs.
-/

namespace Sower.Server

open Sower.Calendar Keyed

section Sql

/-- Texts by field. -/
abbrev JsonObject := List (String × String)

/-- `->>`: NULL when the object has no such field. -/
def JsonObject.field (object : JsonObject) (name : String) : Option String := object.lookup name

/-- A comparison of texts; unknown when one of them is NULL. -/
def sqlEq : Option String → Option String → Option Bool
  | some a, some b => some (a == b)
  | _, _ => none

/-- Conjunction of truth values that may be unknown. -/
def sqlAnd : Option Bool → Option Bool → Option Bool
  | some false, _ => some false
  | _, some false => some false
  | some true, some true => some true
  | _, _ => none

/-- A row is selected only if its condition is known to hold. -/
def selected (condition : Option Bool) : Bool := condition == some true

theorem selected_sqlEq {a b : Option String} :
    selected (sqlEq a b) = true ↔ ∃ text, a = some text ∧ b = some text := by
  cases a with
  | none => simp [sqlEq, selected]
  | some a =>
    cases b with
    | none => simp [sqlEq, selected]
    | some b =>
      have heq : selected (sqlEq (some a) (some b)) = true ↔ a = b := by
        change (some (a == b) == some true) = true ↔ a = b
        rw [beq_iff_eq, Option.some.injEq, beq_iff_eq]
      rw [heq]
      constructor
      · intro h
        exact ⟨a, rfl, congrArg some h.symm⟩
      · intro ⟨text, ha, hb⟩
        exact Option.some.inj (ha.trans hb.symm)

theorem selected_sqlAnd {p q : Option Bool} :
    selected (sqlAnd p q) = true ↔ selected p = true ∧ selected q = true := by
  cases p with
  | none => cases q with
    | none => decide
    | some q => cases q <;> decide
  | some p => cases p <;> cases q with
    | none => decide
    | some q => cases q <;> decide

end Sql

section Tables

/-- `Subscription.Rule`: a tag that a seed must have. -/
structure TagRule where
  key : String
  op : String
  value : String
  deriving DecidableEq, Repr

/-- A rule as the column has it. -/
def TagRule.toJson (rule : TagRule) : JsonObject :=
  [("key", rule.key), ("op", rule.op), ("value", rule.value)]

/-- A row of `seed_tags`. -/
structure SeedTag where
  seedId : ℕ
  key : String
  value : String
  deriving DecidableEq, Repr

/-- A row of `seeds`. -/
structure SeedRow where
  id : ℕ
  orgId : ℕ
  name : String
  seedType : String
  updatedAt : DateTime
  deriving DecidableEq, Repr

/-- A row of `subscriptions`; name and type of the seed may be missing. -/
structure SubscriptionRow where
  id : ℕ
  orgId : ℕ
  seedName : Option String
  seedType : Option String
  rules : List TagRule
  deriving DecidableEq, Repr

/-- The tables that both questions read, with the rows of all organisations. -/
structure MatchTables where
  seeds : List SeedRow
  seedTags : List SeedTag
  subscriptions : List SubscriptionRow

/-- A seed with its tags. -/
structure LoadedSeed where
  row : SeedRow
  tags : List SeedTag
  deriving DecidableEq, Repr

/-- `Repo.preload(seed, [:tags])`. -/
def MatchTables.preload (tables : MatchTables) (row : SeedRow) : LoadedSeed where
  row := row
  tags := tables.seedTags.filter (·.seedId == row.id)

end Tables

section Subscriptions

/-- The fragment of `find_subscription`: no rule is without a tag of the same key and value. -/
def covers (rules tags : List JsonObject) : Bool :=
  !rules.any fun r =>
    !tags.any fun t =>
      selected (sqlAnd (sqlEq (t.field "key") (r.field "key"))
        (sqlEq (t.field "value") (r.field "value")))

/-- A tag as the parameter of the fragment has it. -/
def SeedTag.toJson (tag : SeedTag) : JsonObject := [("key", tag.key), ("value", tag.value)]

/-- `rules_filter`. -/
def LoadedSeed.rulesFilter (seed : LoadedSeed) : List JsonObject := seed.tags.map SeedTag.toJson

/-- `find_subscription`, in the organisation of the process. -/
def MatchTables.findSubscription (tables : MatchTables) (orgId : ℕ) (seed : LoadedSeed) :
    List SubscriptionRow :=
  tables.subscriptions.filter fun s =>
    s.orgId == orgId && selected (sqlEq s.seedName (some seed.row.name)) &&
      selected (sqlEq s.seedType (some seed.row.seedType)) &&
      covers (s.rules.map TagRule.toJson) seed.rulesFilter

end Subscriptions

section Seeds

/-- A query for seeds under construction. -/
structure SeedQuery where
  conditions : List (SeedRow → Bool)
  limit : Option ℕ

/-- The condition that one more tag adds. -/
def SeedQuery.whereTag (query : SeedQuery) (tables : MatchTables) (tag : String × String) :
    SeedQuery :=
  { query with
    conditions := query.conditions ++ [fun s =>
      tables.seedTags.any fun st => st.seedId == s.id && (st.key == tag.1 && st.value == tag.2)] }

/-- `desc: updated_at, desc: id`. -/
def newerFirst (a b : SeedRow) : Bool := toLex (b.updatedAt, b.id) ≤ toLex (a.updatedAt, a.id)

/-- `Repo.all`, in the organisation of the process. -/
def SeedQuery.run (query : SeedQuery) (tables : MatchTables) (orgId : ℕ) : List SeedRow :=
  let rows := (tables.seeds.filter fun s =>
    s.orgId == orgId && query.conditions.all fun condition => condition s).mergeSort newerFirst
  match query.limit with
  | none => rows
  | some limit => rows.take limit

/-- The query before the tags are added, with `filter_sid`. -/
def baseQuery (name seedType : String) (limit : Option ℕ) (sid : Option ℕ) : SeedQuery where
  conditions := [fun s => s.name == name && s.seedType == seedType, fun s => sid.all (s.id == ·)]
  limit := limit

/-- `list_matching`. A comparison with nil raises. -/
def MatchTables.listMatching (tables : MatchTables) (orgId : ℕ) (name seedType : Option String)
    (tags : List (String × String)) (limit sid : Option ℕ) : Option (List LoadedSeed) :=
  match name, seedType with
  | some name, some seedType =>
    let base := baseQuery name seedType limit sid
    let query := match tags with
      | [] => base
      | tags => tags.foldl (fun query tag => query.whereTag tables tag) base
    some ((query.run tables orgId).map tables.preload)
  | _, _ => none

/-- The tags that `match_seed` asks for. -/
def SubscriptionRow.tags (subscription : SubscriptionRow) : List (String × String) :=
  subscription.rules.map fun rule => (rule.key, rule.value)

end Seeds

section Agreement

variable {tables : MatchTables} {orgId : ℕ} {seed : SeedRow} {subscription : SubscriptionRow}

/-- The fragment asks for the key and the value of every rule. -/
theorem covers_iff {rules : List TagRule} {loaded : LoadedSeed} :
    covers (rules.map TagRule.toJson) loaded.rulesFilter = true ↔
      ∀ rule ∈ rules, ∃ tag ∈ loaded.tags, tag.key = rule.key ∧ tag.value = rule.value := by
  have hmatch (rule : TagRule) (tag : SeedTag) :
      selected (sqlAnd (sqlEq (tag.toJson.field "key") (rule.toJson.field "key"))
        (sqlEq (tag.toJson.field "value") (rule.toJson.field "value"))) = true ↔
        tag.key = rule.key ∧ tag.value = rule.value := by
    have hkey : rule.toJson.field "key" = some rule.key := rfl
    have hvalue : rule.toJson.field "value" = some rule.value := rfl
    have htagKey : tag.toJson.field "key" = some tag.key := rfl
    have htagValue : tag.toJson.field "value" = some tag.value := rfl
    rw [selected_sqlAnd, selected_sqlEq, selected_sqlEq, hkey, hvalue, htagKey, htagValue]
    simp only [Option.some.injEq, exists_eq_left']
    exact and_congr eq_comm eq_comm
  unfold covers LoadedSeed.rulesFilter
  rw [Bool.not_eq_true', List.any_eq_false]
  constructor
  · intro h rule hrule
    have hany := h rule.toJson (List.mem_map_of_mem hrule)
    rw [Bool.not_eq_true, Bool.not_eq_false'] at hany
    obtain ⟨t, ht, hselected⟩ := List.any_eq_true.mp hany
    obtain ⟨tag, htag, rfl⟩ := List.mem_map.mp ht
    exact ⟨tag, htag, (hmatch rule tag).mp hselected⟩
  · intro h r hr
    obtain ⟨rule, hrule, rfl⟩ := List.mem_map.mp hr
    obtain ⟨tag, htag, hsame⟩ := h rule hrule
    rw [Bool.not_eq_true, Bool.not_eq_false']
    exact List.any_eq_true.mpr ⟨_, List.mem_map_of_mem htag, (hmatch rule tag).mpr hsame⟩

theorem mem_findSubscription {loaded : LoadedSeed} (hmem : subscription ∈ tables.subscriptions)
    (horg : subscription.orgId = orgId) :
    subscription ∈ tables.findSubscription orgId loaded ↔
      subscription.seedName = some loaded.row.name ∧
        subscription.seedType = some loaded.row.seedType ∧
        ∀ rule ∈ subscription.rules, ∃ tag ∈ loaded.tags,
          tag.key = rule.key ∧ tag.value = rule.value := by
  have hcolumn (column : Option String) (text : String) :
      selected (sqlEq column (some text)) = true ↔ column = some text := by
    rw [selected_sqlEq]
    constructor
    · intro ⟨found, hfound, htext⟩
      rw [hfound, htext]
    · intro h
      exact ⟨text, h, rfl⟩
  unfold MatchTables.findSubscription
  rw [List.mem_filter, Bool.and_eq_true, Bool.and_eq_true, Bool.and_eq_true, beq_iff_eq, hcolumn,
    hcolumn, covers_iff, and_assoc, and_assoc]
  exact ⟨fun h => h.2.2, fun h => ⟨hmem, horg, h⟩⟩

/-- Adding tags adds the condition for each of them. -/
theorem conditions_foldl (tags : List (String × String)) (query : SeedQuery) :
    ((tags.foldl (fun query tag => query.whereTag tables tag) query).conditions.all
        fun condition => condition seed) = true ↔
      (query.conditions.all fun condition => condition seed) = true ∧
        ∀ tag ∈ tags, ∃ st ∈ tables.seedTags,
          st.seedId = seed.id ∧ st.key = tag.1 ∧ st.value = tag.2 := by
  induction tags generalizing query with
  | nil => simp
  | cons tag tags ih =>
    have hstep :
        ((query.whereTag tables tag).conditions.all fun condition => condition seed) = true ↔
        (query.conditions.all fun condition => condition seed) = true ∧
          ∃ st ∈ tables.seedTags, st.seedId = seed.id ∧ st.key = tag.1 ∧ st.value = tag.2 := by
      unfold SeedQuery.whereTag
      rw [List.all_append, Bool.and_eq_true]
      refine and_congr_right fun _ => ?_
      simp
    rw [List.foldl_cons, ih, hstep, List.forall_mem_cons, and_assoc]

/-- Further tags do not change the limit. -/
theorem limit_foldl (tags : List (String × String)) (query : SeedQuery) :
    (tags.foldl (fun query tag => query.whereTag tables tag) query).limit = query.limit := by
  induction tags generalizing query with
  | nil => rfl
  | cons tag tags ih => exact ih _

/-- Without a limit a query finds the seeds that meet its conditions. -/
theorem mem_run {query : SeedQuery} (hlimit : query.limit = none) :
    seed ∈ query.run tables orgId ↔ seed ∈ tables.seeds ∧ seed.orgId = orgId ∧
      (query.conditions.all fun condition => condition seed) = true := by
  unfold SeedQuery.run
  rw [hlimit]
  dsimp only
  rw [List.mem_mergeSort, List.mem_filter, Bool.and_eq_true, beq_iff_eq]

/-- Without a limit, and without a key to look for, all seeds that have the tags are listed. -/
theorem mem_listMatching {name seedType : String} {tags : List (String × String)} :
    (∃ found, tables.listMatching orgId (some name) (some seedType) tags none none = some found ∧
        tables.preload seed ∈ found) ↔
      seed ∈ tables.seeds ∧ seed.orgId = orgId ∧ seed.name = name ∧ seed.seedType = seedType ∧
        ∀ tag ∈ tags, ∃ st ∈ (tables.preload seed).tags, st.key = tag.1 ∧ st.value = tag.2 := by
  have hquery : tables.listMatching orgId (some name) (some seedType) tags none none =
      some (((tags.foldl (fun query tag => query.whereTag tables tag)
        (baseQuery name seedType none none)).run tables orgId).map tables.preload) := by
    cases tags with
    | nil => rfl
    | cons tag tags => rfl
  have hloaded (rows : List SeedRow) :
      tables.preload seed ∈ rows.map tables.preload ↔ seed ∈ rows := by
    rw [List.mem_map]
    constructor
    · intro ⟨other, hother, hsame⟩
      have hrow : other = seed := congrArg LoadedSeed.row hsame
      exact hrow ▸ hother
    · intro h
      exact ⟨seed, h, rfl⟩
  have hlimit : (tags.foldl (fun query tag => query.whereTag tables tag)
      (baseQuery name seedType none none)).limit = none := limit_foldl tags _
  have hbase : ((baseQuery name seedType none none).conditions.all
      fun condition => condition seed) = true ↔ seed.name = name ∧ seed.seedType = seedType := by
    simp [baseQuery]
  have htags (tag : String × String) : (∃ st ∈ (tables.preload seed).tags,
        st.key = tag.1 ∧ st.value = tag.2) ↔
      ∃ st ∈ tables.seedTags, st.seedId = seed.id ∧ st.key = tag.1 ∧ st.value = tag.2 := by
    unfold MatchTables.preload
    simp only [List.mem_filter, beq_iff_eq, and_assoc]
  rw [hquery]
  simp only [Option.some.injEq, exists_eq_left']
  rw [hloaded, mem_run hlimit, conditions_foldl, hbase]
  simp only [htags, and_assoc]

/-- A seed finds a subscription of its organisation exactly when the seeds listed for that
subscription include it. -/
theorem mem_findSubscription_iff (hseed : seed ∈ tables.seeds)
    (hsubscription : subscription ∈ tables.subscriptions) (hseedOrg : seed.orgId = orgId)
    (hsubscriptionOrg : subscription.orgId = orgId) :
    subscription ∈ tables.findSubscription orgId (tables.preload seed) ↔
      ∃ found, tables.listMatching orgId subscription.seedName subscription.seedType
        subscription.tags none none = some found ∧ tables.preload seed ∈ found := by
  rw [mem_findSubscription hsubscription hsubscriptionOrg]
  cases hname : subscription.seedName with
  | none =>
    refine iff_of_false (fun h => ?_) fun ⟨found, hfound, _⟩ => ?_
    · cases h.1
    · cases hfound
  | some name =>
    cases htype : subscription.seedType with
    | none =>
      refine iff_of_false (fun h => ?_) fun ⟨found, hfound, _⟩ => ?_
      · cases h.2.1
      · cases hfound
    | some seedType =>
      have htags : (∀ tag ∈ subscription.tags, ∃ st ∈ (tables.preload seed).tags,
            st.key = tag.1 ∧ st.value = tag.2) ↔
          ∀ rule ∈ subscription.rules, ∃ tag ∈ (tables.preload seed).tags,
            tag.key = rule.key ∧ tag.value = rule.value := by
        unfold SubscriptionRow.tags
        rw [List.forall_mem_map]
      rw [mem_listMatching, htags, Option.some.injEq, Option.some.injEq]
      constructor
      · intro h
        exact ⟨hseed, hseedOrg, h.1.symm, h.2.1.symm, h.2.2⟩
      · intro h
        exact ⟨h.2.2.1.symm, h.2.2.2.1.symm, h.2.2.2.2⟩

/-- A seed with two tags of one key, and a subscription that asks for one of them twice,
once by an operator that is not known. -/
def matchedTables : MatchTables where
  seeds := [⟨1, 1, "web", "nixos", 0⟩]
  seedTags := [⟨1, "branch", "main"⟩, ⟨1, "branch", "next"⟩]
  subscriptions := [⟨1, 1, some "web", some "nixos",
    [⟨"branch", "eq", "next"⟩, ⟨"branch", "like", "next"⟩]⟩]

theorem mem_findSubscription_iff_matched :
    (⟨1, 1, some "web", some "nixos", [⟨"branch", "eq", "next"⟩, ⟨"branch", "like", "next"⟩]⟩ :
        SubscriptionRow) ∈
      matchedTables.findSubscription 1 (matchedTables.preload ⟨1, 1, "web", "nixos", 0⟩) ↔
    ∃ found, matchedTables.listMatching 1 (some "web") (some "nixos")
        [("branch", "next"), ("branch", "next")] none none = some found ∧
      matchedTables.preload ⟨1, 1, "web", "nixos", 0⟩ ∈ found :=
  mem_findSubscription_iff List.mem_cons_self List.mem_cons_self rfl rfl

end Agreement

section Database

variable {db : Db} {seed : Seed} {name seedType : String} {tags : List (String × String)}

/-- A seed's row, without its tags. -/
def Seed.matchRow (seed : Seed) (orgId : ℕ) : SeedRow :=
  ⟨seed.id, orgId, seed.name, seed.seedType, seed.updatedAt⟩

/-- The rows of an organisation's seeds. -/
def Db.matchTables (db : Db) : MatchTables where
  seeds := db.seeds.rows.map fun seed => seed.matchRow db.orgId
  seedTags := db.seeds.rows.flatMap fun seed => seed.tags.map fun tag => ⟨seed.id, tag.1, tag.2⟩
  subscriptions := []

theorem mem_preload_matchTables (hseed : seed ∈ db.seeds.rows) (tag : String × String) :
    (∃ st ∈ (db.matchTables.preload (seed.matchRow db.orgId)).tags,
      st.key = tag.1 ∧ st.value = tag.2) ↔ tag ∈ seed.tags := by
  constructor
  · intro ⟨st, hst, hkey, hvalue⟩
    obtain ⟨hrow, hid⟩ := List.mem_filter.mp hst
    obtain ⟨other, hother, hmem⟩ := List.mem_flatMap.mp hrow
    obtain ⟨pair, hpair, rfl⟩ := List.mem_map.mp hmem
    have hsame : other = seed := Table.eq_of_key hother hseed (eq_of_beq hid)
    have htag : pair = tag := Prod.ext hkey hvalue
    rw [← hsame, ← htag]
    exact hpair
  · intro htag
    refine ⟨⟨seed.id, tag.1, tag.2⟩, List.mem_filter.mpr ⟨?_, beq_self_eq_true _⟩, rfl, rfl⟩
    exact List.mem_flatMap.mpr ⟨seed, hseed, List.mem_map_of_mem htag⟩

/-- The seeds that a subscription is matched with are those that the query lists. -/
theorem mem_matching_iff (hseed : seed ∈ db.seeds.rows) :
    seed ∈ db.matching name seedType tags ↔
      ∃ found, db.matchTables.listMatching db.orgId (some name) (some seedType) tags none none =
        some found ∧ db.matchTables.preload (seed.matchRow db.orgId) ∈ found := by
  have hrow : seed.matchRow db.orgId ∈ db.matchTables.seeds := List.mem_map_of_mem hseed
  have htags : (∀ tag ∈ tags, ∃ st ∈ (db.matchTables.preload (seed.matchRow db.orgId)).tags,
      st.key = tag.1 ∧ st.value = tag.2) ↔ ∀ tag ∈ tags, tag ∈ seed.tags :=
    forall₂_congr fun tag _ => mem_preload_matchTables hseed tag
  rw [mem_listMatching, htags]
  unfold Db.matching
  simp only [List.mem_filter, Bool.and_eq_true, decide_eq_true_eq, List.all_eq_true, and_assoc]
  constructor
  · intro ⟨_, hname, htype, hall⟩
    exact ⟨hrow, rfl, hname, htype, hall⟩
  · intro ⟨_, _, hname, htype, hall⟩
    exact ⟨hseed, hname, htype, hall⟩

end Database

end Sower.Server
