import Sower.Activator.Services

/-!
# Units that a run leaves

A copy only adds. As long as no file is cut, what is in the directory of a hash comes
from the seeds, and a run that reports success has found every entry of every seed there.
With seeds that agree on their files there is only one such directory.
-/

namespace Sower.Activator

open Stateful

variable {store : String → Option Source} {digest : String → String} {env : Step → Answer}
  {paths : List String} {t t' : Tree} {w : World} {hash hash' : String} {p : RelPath}
  {fate : RelPath → Fate}

section Copies

variable {e : RelPath × Node} {es : List (RelPath × Node)} {n : Node}

/-- A file is never cut. -/
def Whole (fate : RelPath → Fate) : Prop := ∀ p left, fate p ≠ .cut left

/-- The entry is there, and it is a directory where the seed has one. -/
def Stands (t : Tree) (e : RelPath × Node) : Prop := ∃ n, t e.1 = some n ∧ (e.2 = .dir → n = .dir)

/-- What is there stays. -/
def Grows (t t' : Tree) : Prop := ∀ p n, t p = some n → t' p = some n

theorem Grows.trans {t'' : Tree} (h : Grows t t') (h' : Grows t' t'') : Grows t t'' :=
  fun p n hn => h' p n (h p n hn)

theorem grows_update (hnone : t p = none) : Grows t (Function.update t p (some n)) := by
  intro q m hq
  have hne : q ≠ p := by
    intro hsame
    rw [hsame, hnone] at hq
    cases hq
  rw [Function.update_of_ne hne]
  exact hq

theorem Stands.grow (h : Stands t e) (hgrows : Grows t t') : Stands t' e := by
  obtain ⟨n, hn, hdir⟩ := h
  exact ⟨n, hgrows _ n hn, hdir⟩

/-- What becomes of one entry. -/
theorem copyEntry_cases (fate : RelPath → Fate) (e : RelPath × Node) (t : Tree) :
    (copyEntry fate e t).2 = t ∧ ((copyEntry fate e t).1 = true → Stands t e) ∨
      t e.1 = none ∧ copyEntry fate e t = (true, Function.update t e.1 (some e.2)) ∨
      ∃ left, t e.1 = none ∧ fate e.1 = .cut left ∧
        copyEntry fate e t = (false, Function.update t e.1 (some (.file left))) := by
  obtain ⟨p, node⟩ := e
  unfold copyEntry
  dsimp only
  cases hthere : t p with
  | some there =>
    cases there with
    | dir => exact .inl ⟨rfl, fun _ => ⟨.dir, hthere, fun _ => rfl⟩⟩
    | file content =>
      refine .inl ⟨rfl, fun hfine => ⟨_, hthere, fun hdir => ?_⟩⟩
      dsimp only at hdir
      simp [hdir] at hfine
    | link target =>
      refine .inl ⟨rfl, fun hfine => ⟨_, hthere, fun hdir => ?_⟩⟩
      dsimp only at hdir
      simp [hdir] at hfine
  | none =>
    by_cases hparent : t p.dropLast = some .dir
    · rw [if_pos hparent]
      cases hfate : fate p with
      | copied => exact .inr (.inl ⟨rfl, rfl⟩)
      | omitted => exact .inl ⟨rfl, fun hfine => by cases hfine⟩
      | cut left =>
        cases node with
        | dir => exact .inl ⟨rfl, fun hfine => by cases hfine⟩
        | file content => exact .inr (.inr ⟨left, rfl, rfl, rfl⟩)
        | link target => exact .inl ⟨rfl, fun hfine => by cases hfine⟩
    · rw [if_neg hparent]
      exact .inl ⟨rfl, fun hfine => by cases hfine⟩

theorem grows_copyEntry : Grows t (copyEntry fate e t).2 := by
  rcases copyEntry_cases fate e t with ⟨hsame, _⟩ | ⟨hnone, hcopied⟩ | ⟨left, hnone, _, hcut⟩
  · rw [hsame]
    exact fun _ _ hn => hn
  · rw [hcopied]
    exact grows_update hnone
  · rw [hcut]
    exact grows_update hnone

theorem stands_copyEntry (hfine : (copyEntry fate e t).1 = true) :
    Stands (copyEntry fate e t).2 e := by
  rcases copyEntry_cases fate e t with ⟨hsame, hstands⟩ | ⟨_, hcopied⟩ | ⟨left, _, _, hcut⟩
  · rw [hsame]
    exact hstands hfine
  · rw [hcopied]
    exact ⟨e.2, Function.update_self .., fun hdir => hdir⟩
  · rw [hcut] at hfine
    cases hfine

/-- Without cuts only the entry itself is new. -/
theorem found_copyEntry (hwhole : Whole fate) (hn : (copyEntry fate e t).2 p = some n) :
    t p = some n ∨ (p, n) = e := by
  rcases copyEntry_cases fate e t with ⟨hsame, _⟩ | ⟨hnone, hcopied⟩ | ⟨left, _, hfate, _⟩
  · rw [hsame] at hn
    exact .inl hn
  · rw [hcopied] at hn
    dsimp only at hn
    by_cases hp : p = e.1
    · subst hp
      rw [Function.update_self] at hn
      cases hn
      exact .inr rfl
    · rw [Function.update_of_ne hp] at hn
      exact .inl hn
  · exact absurd hfate (hwhole _ left)

theorem grows_copyEntries : Grows t (copyEntries fate es t).2 := by
  induction es generalizing t with
  | nil => exact fun _ _ hn => hn
  | cons e rest ih => exact grows_copyEntry.trans ih

/-- A copy that has no error finds every entry in place. -/
theorem stands_copyEntries (hfine : (copyEntries fate es t).1 = true) :
    ∀ e ∈ es, Stands (copyEntries fate es t).2 e := by
  induction es generalizing t with
  | nil => exact fun e he => by cases he
  | cons e rest ih =>
    obtain ⟨hfirst, hrest⟩ := Bool.and_eq_true_iff.mp hfine
    intro e' he'
    rcases List.mem_cons.mp he' with rfl | he'
    · exact (stands_copyEntry hfirst).grow grows_copyEntries
    · exact ih hrest e' he'

theorem found_copyEntries (hwhole : Whole fate) (hn : (copyEntries fate es t).2 p = some n) :
    t p = some n ∨ (p, n) ∈ es := by
  induction es generalizing t with
  | nil => exact .inl hn
  | cons e rest ih =>
    rcases ih hn with hfirst | hmem
    · rcases found_copyEntry hwhole hfirst with hold | hnew
      · exact .inl hold
      · rw [hnew]
        exact .inr List.mem_cons_self
    · exact .inr (List.mem_cons_of_mem _ hmem)

end Copies

section Contents

/-- Directories that a run makes before it copies. -/
def base : List RelPath := [[], ["system"]]

/-- The seed has the entry. -/
def Has (store : String → Option Source) (path : String) (e : RelPath × Node) : Prop :=
  ∃ source, store path = some source ∧ e ∈ source.entries

/-- What is there is one of the first directories or comes from a seed. -/
def Sourced (store : String → Option Source) (paths : List String) (t : Tree) : Prop :=
  ∀ p n, t p = some n → p ∈ base ∧ n = .dir ∨ ∃ path ∈ paths, Has store path (p, n)

/-- The first directories are there. -/
def Based (t : Tree) : Prop := ∀ p ∈ base, t p = some .dir

/-- All that the seed has is in place. -/
def Covers (store : String → Option Source) (t : Tree) (path : String) : Prop :=
  ∃ source, store path = some source ∧ ∀ e ∈ source.entries, Stands t e

/-- All that the seeds have is in place. -/
def Complete (store : String → Option Source) (paths : List String) (t : Tree) : Prop :=
  Based t ∧ ∀ path ∈ paths, Covers store t path

/-- No two seeds have different files at one path. -/
def Agreed (store : String → Option Source) (paths : List String) : Prop :=
  ∀ path ∈ paths, ∀ path' ∈ paths, ∀ p n n', Has store path (p, n) → Has store path' (p, n') →
    n ≠ .dir → n' ≠ .dir → n = n'

theorem Based.grow (h : Based t) (hgrows : Grows t t') : Based t' :=
  fun p hp => hgrows p _ (h p hp)

theorem Covers.grow {path : String} (h : Covers store t path) (hgrows : Grows t t') :
    Covers store t' path := by
  obtain ⟨source, hsource, hstands⟩ := h
  exact ⟨source, hsource, fun e he => (hstands e he).grow hgrows⟩

theorem Complete.grow (h : Complete store paths t) (hgrows : Grows t t') :
    Complete store paths t' :=
  ⟨h.1.grow hgrows, fun path hpath => (h.2 path hpath).grow hgrows⟩

theorem Complete.perm {paths' : List String} (h : Complete store paths t)
    (hperm : paths'.Perm paths) : Complete store paths' t :=
  ⟨h.1, fun path hpath => h.2 path (hperm.mem_iff.mp hpath)⟩

/-- What a complete directory has at the path of an entry. -/
theorem Complete.stands (h : Complete store paths t) {e : RelPath × Node}
    (he : e.1 ∈ base ∧ e.2 = .dir ∨ ∃ path ∈ paths, Has store path e) : Stands t e := by
  rcases he with ⟨hbase, _⟩ | ⟨path, hpath, source, hsource, hmem⟩
  · exact ⟨.dir, h.1 e.1 hbase, fun _ => rfl⟩
  · obtain ⟨source', hsource', hstands⟩ := h.2 path hpath
    cases hsource.symm.trans hsource'
    exact hstands e hmem

theorem le_of_complete (hagreed : Agreed store paths) (hsourced : Sourced store paths t)
    (hcomplete : Complete store paths t) (hsourced' : Sourced store paths t')
    (hcomplete' : Complete store paths t') : Grows t t' := by
  intro p n hn
  have horigin := hsourced p n hn
  obtain ⟨n', hn', hdir⟩ := hcomplete'.stands (e := (p, n)) horigin
  dsimp only at hn' hdir
  by_cases hn_dir : n = .dir
  · rw [hn', hdir hn_dir, hn_dir]
  · have horigin' := hsourced' p n' hn'
    obtain ⟨n'', hn'', hdir'⟩ := hcomplete.stands (e := (p, n')) horigin'
    dsimp only at hn'' hdir'
    have hsame : n'' = n := Option.some.inj (hn''.symm.trans hn)
    have hn'_dir : n' ≠ .dir := fun h => hn_dir (hsame.symm.trans (hdir' h))
    rcases horigin with ⟨_, h⟩ | ⟨path, hpath, hhas⟩
    · exact absurd h hn_dir
    · rcases horigin' with ⟨_, h⟩ | ⟨path', hpath', hhas'⟩
      · exact absurd h hn'_dir
      · rw [hn', hagreed path hpath path' hpath' p n n' hhas hhas' hn_dir hn'_dir]

/-- Only one directory holds all of the seeds and nothing else. -/
theorem eq_of_complete (hagreed : Agreed store paths) (hsourced : Sourced store paths t)
    (hcomplete : Complete store paths t) (hsourced' : Sourced store paths t')
    (hcomplete' : Complete store paths t') : t = t' := by
  have hle := le_of_complete hagreed hsourced hcomplete hsourced' hcomplete'
  have hge := le_of_complete hagreed hsourced' hcomplete' hsourced hcomplete
  funext p
  cases hn : t p with
  | some n => exact (hle p n hn).symm
  | none =>
    cases hn' : t' p with
    | none => rfl
    | some n =>
      rw [hge p n hn'] at hn
      cases hn

end Contents

section Steps

/-- What holds of the directory of a hash between runs. -/
structure Kept (store : String → Option Source) (hash : String) (paths : List String) (w : World) :
    Prop where
  sourced : Sourced store paths (w.profiles hash)
  /-- It is the current one only with all that the seeds have. -/
  current : w.current.map Target.resolve = some (profileDir hash) →
    Complete store paths (w.profiles hash)

/-- A directory that only grows by what comes from the seeds. -/
theorem Kept.grow (h : Kept store hash paths w) (hgrows : Grows (w.profiles hash) t)
    (hsourced : Sourced store paths t) : Kept store hash paths (w.setProfile hash t) := by
  have hprofile : (w.setProfile hash t).profiles hash = t := Function.update_self ..
  refine ⟨?_, fun hcurrent => ?_⟩
  · rw [hprofile]
    exact hsourced
  · rw [hprofile]
    exact (h.current hcurrent).grow hgrows

theorem expect_triple {P : World → Prop} {stop : String → World → Prop} {step : Step} {text : String}
    (hstop : ∀ text w, P w → stop text w) : Triple P (expect env step text) (fun _ => P) stop := by
  unfold expect
  refine Triple.ite (fun _ => ?_) (fun _ => ?_)
  · exact Triple.pure fun _ hw => hw
  · exact Triple.throw fun w hw => hstop _ w hw

/-- `resolve_current` reads the link. -/
theorem resolveCurrent_triple {P : World → Prop} {stop : String → World → Prop}
    (hstop : ∀ text w, P w → stop text w) :
    Triple P (resolveCurrent env) (fun old w => P w ∧ w.current.map Target.resolve = old) stop := by
  unfold resolveCurrent
  refine Triple.seq (expect_triple hstop) fun _ => ?_
  apply Triple.view_bind
  intro w hw
  apply Triple.pure
  rintro _ rfl
  exact ⟨hw, rfl⟩

/-- The first directories are made one after the other. -/
theorem makeDir_triple {step : Step} {made : List RelPath} (hp : p ∈ base) :
    Triple (fun w => Kept store hash paths w ∧ ∀ q ∈ made, w.profiles hash q = some .dir)
      (makeDir env step hash p)
      (fun _ w => Kept store hash paths w ∧ ∀ q ∈ p :: made, w.profiles hash q = some .dir)
      (fun _ => Kept store hash paths) := by
  unfold makeDir
  refine Triple.seq (expect_triple fun _ _ hw => hw.1) fun _ => ?_
  apply Triple.view_bind
  rintro w ⟨hkept, hmade⟩
  cases hthere : w.profiles hash p with
  | none =>
    apply Triple.update
    rintro w rfl
    have hgrows := grows_update (n := .dir) hthere
    have hprofile : (w.setProfile hash (Function.update (w.profiles hash) p (some .dir))).profiles
        hash = Function.update (w.profiles hash) p (some .dir) := Function.update_self ..
    refine ⟨hkept.grow hgrows fun q n hn => ?_, fun q hq => ?_⟩
    · by_cases hsame : q = p
      · subst hsame
        rw [Function.update_self] at hn
        cases hn
        exact .inl ⟨hp, rfl⟩
      · rw [Function.update_of_ne hsame] at hn
        exact hkept.sourced q n hn
    · rw [hprofile]
      rcases List.mem_cons.mp hq with rfl | hq
      · exact Function.update_self ..
      · exact hgrows q _ (hmade q hq)
  | some there =>
    cases there with
    | dir =>
      apply Triple.pure
      rintro _ rfl
      refine ⟨hkept, fun q hq => ?_⟩
      rcases List.mem_cons.mp hq with rfl | hq
      · exact hthere
      · exact hmade q hq
    | file content =>
      apply Triple.throw
      rintro _ rfl
      exact hkept
    | link target =>
      apply Triple.throw
      rintro _ rfl
      exact hkept

/-- The directory has the first directories and all that the copied seeds have. -/
def Copied (store : String → Option Source) (hash : String) (paths done : List String) (w : World) :
    Prop :=
  Kept store hash paths w ∧ Based (w.profiles hash) ∧
    ∀ path ∈ done, Covers store (w.profiles hash) path

/-- One more seed is copied, or some of it. -/
theorem copySeed_triple {index : ℕ} {seed : SeedRef} {done : List String}
    (hwhole : Whole (env (.copy index)).fate) (hpath : seed.path ∈ paths) :
    Triple (Copied store hash paths done) (copySeed store env hash index seed)
      (fun exit w => Kept store hash paths w ∧
        (exit = 0 → Copied store hash paths (done ++ [seed.path]) w))
      (fun _ => Kept store hash paths) := by
  unfold copySeed
  refine Triple.seq (expect_triple fun _ _ hw => hw.1) fun _ => ?_
  apply Triple.view_bind
  rintro w ⟨hkept, hbased, hcovers⟩
  cases hsource : store seed.path with
  | none =>
    apply Triple.pure
    rintro _ rfl
    exact ⟨hkept, fun hzero => by cases hzero⟩
  | some source =>
    dsimp only
    generalize hcopied : copyEntries (env (.copy index)).fate source.entries (w.profiles hash) =
      copied
    have hgrows : Grows (w.profiles hash) copied.2 := by
      rw [← hcopied]
      exact grows_copyEntries
    have hkept' : Kept store hash paths (w.setProfile hash copied.2) := by
      refine hkept.grow hgrows fun p n hn => ?_
      rw [← hcopied] at hn
      rcases found_copyEntries hwhole hn with hold | hnew
      · exact hkept.sourced p n hold
      · exact .inr ⟨seed.path, hpath, source, hsource, hnew⟩
    have hprofile : (w.setProfile hash copied.2).profiles hash = copied.2 := Function.update_self ..
    have hupdate : Triple (· = w) (update (World.setProfile hash copied.2) : Activation PUnit)
        (fun _ w' => w' = w.setProfile hash copied.2) (fun _ => Kept store hash paths) := by
      apply Triple.update
      rintro w rfl
      rfl
    · refine Triple.bind hupdate fun _ => ?_
      apply Triple.pure
      rintro _ rfl
      refine ⟨hkept', fun hzero => ⟨hkept', ?_, fun path hmem => ?_⟩⟩
      · rw [hprofile]
        exact hbased.grow hgrows
      · rw [hprofile]
        rcases List.mem_append.mp hmem with hold | hnew
        · exact (hcovers path hold).grow hgrows
        · rw [List.mem_singleton.mp hnew]
          have hfine : copied.1 = true := by
            by_contra hfalse
            rw [if_neg hfalse] at hzero
            cases hzero
          refine ⟨source, hsource, fun e he => ?_⟩
          rw [← hcopied] at hfine ⊢
          exact stands_copyEntries hfine e he

theorem copySeeds_triple {seeds : List SeedRef} (index : ℕ) (done : List String)
    (hwhole : ∀ index, Whole (env (.copy index)).fate) (hpaths : ∀ seed ∈ seeds, seed.path ∈ paths) :
    Triple (Copied store hash paths done) (copySeeds store env hash index seeds)
      (fun _ => Copied store hash paths (done ++ seeds.map (·.path)))
      (fun _ => Kept store hash paths) := by
  induction seeds generalizing index done with
  | nil =>
    apply Triple.pure
    intro w hw
    rw [List.map_nil, List.append_nil]
    exact hw
  | cons seed rest ih =>
    unfold copySeeds
    refine Triple.bind (copySeed_triple (hwhole index) (hpaths seed List.mem_cons_self)) ?_
    intro exit
    refine Triple.ite (fun _ => ?_) (fun hzero => ?_)
    · exact Triple.throw fun _ hw => hw.1
    · have hrest := ih (index + 1) (done ++ [seed.path])
        fun other hmem => hpaths other (List.mem_cons_of_mem _ hmem)
      rw [List.append_assoc] at hrest
      exact hrest.strengthen fun w hw => hw.2 (not_not.mp hzero)

theorem oldUnitsPath_triple {P : World → Prop} {stop : String → World → Prop} {old : Option String}
    (hstop : ∀ text w, P w → stop text w) : Triple P (oldUnitsPath env old) (fun _ => P) stop := by
  unfold oldUnitsPath
  refine Triple.ite (fun _ => ?_) (fun _ => ?_)
  · refine Triple.seq (expect_triple hstop) fun _ => ?_
    exact expect_triple hstop
  · exact Triple.pure fun _ hw => hw

theorem updateCurrent_triple {P Q : World → Prop} (hset : ∀ w, P w →
      Q { w with current := some (.absolute (profileDir hash')) }) :
    Triple P (updateCurrent env hash') (fun _ => Q) (fun _ => P) := by
  unfold updateCurrent
  refine Triple.seq (expect_triple fun _ _ hw => hw) fun _ => ?_
  refine Triple.seq (expect_triple fun _ _ hw => hw) fun _ => ?_
  refine Triple.seq (expect_triple fun _ _ hw => hw) fun _ => ?_
  exact Triple.update hset

/-- A run for the hash. When it reports success all that the seeds have is in place. -/
theorem run_triple {seeds : List SeedRef} (hhash : contentHash digest seeds = hash)
    (hpaths : (seeds.map (·.path)).Perm paths) (hwhole : ∀ index, Whole (env (.copy index)).fate) :
    Triple (Kept store hash paths) (run store digest env seeds)
      (fun code w => Kept store hash paths w ∧
        (code = 0 → Complete store paths (w.profiles hash)))
      (fun _ => Kept store hash paths) := by
  unfold run
  rw [hhash]
  refine Triple.bind (resolveCurrent_triple fun _ _ hw => hw) fun old => ?_
  refine Triple.ite (fun hold => ?_) (fun _ => ?_)
  · exact Triple.pure fun w hw => ⟨hw.1, fun _ => hw.1.current (hw.2.trans hold)⟩
  have hroot : Triple (fun w => Kept store hash paths w ∧ w.current.map Target.resolve = old)
      (makeDir env .makeRoot hash [])
      (fun _ w => Kept store hash paths w ∧ ∀ q ∈ [[]], w.profiles hash q = some .dir)
      (fun _ => Kept store hash paths) :=
    (makeDir_triple List.mem_cons_self).strengthen fun w hw => ⟨hw.1, fun q hq => by cases hq⟩
  refine Triple.bind hroot fun _ => ?_
  have hsystem : ["system"] ∈ base := List.mem_cons_of_mem _ List.mem_cons_self
  refine Triple.bind (makeDir_triple hsystem) fun _ => ?_
  have hcopies : Triple (fun w => Kept store hash paths w ∧
      ∀ q ∈ [["system"], []], w.profiles hash q = some .dir)
      (copySeeds store env hash 0 seeds)
      (fun _ w => Kept store hash paths w ∧ Complete store paths (w.profiles hash))
      (fun _ => Kept store hash paths) := by
    refine (copySeeds_triple 0 [] hwhole ?_).consequence ?_ ?_ fun _ _ hw => hw
    · intro seed hseed
      exact hpaths.mem_iff.mp (List.mem_map_of_mem hseed)
    · rintro w ⟨hkept, hmade⟩
      refine ⟨hkept, fun q hq => hmade q ?_, fun path hpath => by cases hpath⟩
      simpa [base, or_comm] using hq
    · rintro _ w ⟨hkept, hbased, hcovers⟩
      refine ⟨hkept, hbased, fun path hpath => hcovers path ?_⟩
      rw [List.nil_append]
      exact hpaths.mem_iff.mpr hpath
  refine Triple.bind hcopies fun _ => ?_
  refine Triple.seq (oldUnitsPath_triple fun _ _ hw => hw.1) fun _ => ?_
  refine Triple.seq (expect_triple fun _ _ hw => hw.1) fun _ => ?_
  refine Triple.ite (fun hcode => ?_) (fun _ => ?_)
  · exact Triple.pure fun w hw => ⟨hw.1, fun hzero => absurd hzero hcode⟩
  · have hcurrent : Triple (fun w => Kept store hash paths w ∧ Complete store paths (w.profiles hash))
        (updateCurrent env hash)
        (fun _ w => Kept store hash paths w ∧ Complete store paths (w.profiles hash))
        (fun _ => Kept store hash paths) :=
      (updateCurrent_triple fun w hw => ⟨⟨hw.1.sourced, fun _ => hw.2⟩, hw.2⟩).consequence
        (fun _ hw => hw) (fun _ _ hw => hw) fun _ _ hw => hw.1
    refine Triple.bind hcurrent fun _ => ?_
    exact Triple.pure fun w hw => ⟨hw.1, fun _ => hw.2⟩

theorem makeDir_keeps {P : World → Prop} {step : Step}
    (hset : ∀ t w, P w → P (w.setProfile hash' t)) :
    Triple P (makeDir env step hash' p) (fun _ => P) (fun _ => P) := by
  unfold makeDir
  refine Triple.seq (expect_triple fun _ _ hw => hw) fun _ => ?_
  apply Triple.view_bind
  intro w hw
  refine Triple.at_state ?_ hw
  cases w.profiles hash' p with
  | none => exact Triple.update_keep fun w hw => hset _ w hw
  | some there =>
    cases there with
    | dir => exact Triple.pure fun _ hw => hw
    | file content => exact Triple.throw fun _ hw => hw
    | link target => exact Triple.throw fun _ hw => hw

theorem copySeeds_keeps {P : World → Prop} {seeds : List SeedRef} (index : ℕ)
    (hset : ∀ t w, P w → P (w.setProfile hash' t)) :
    Triple P (copySeeds store env hash' index seeds) (fun _ => P) (fun _ => P) := by
  induction seeds generalizing index with
  | nil => exact Triple.pure fun _ hw => hw
  | cons seed rest ih =>
    have hfirst : Triple P (copySeed store env hash' index seed) (fun _ => P) (fun _ => P) := by
      unfold copySeed
      refine Triple.seq (expect_triple fun _ _ hw => hw) fun _ => ?_
      apply Triple.view_bind
      intro w hw
      refine Triple.at_state ?_ hw
      cases store seed.path with
      | none => exact Triple.pure fun _ hw => hw
      | some source =>
        refine Triple.seq (Triple.update_keep fun w hw => hset _ w hw) fun _ => ?_
        exact Triple.pure fun _ hw => hw
    unfold copySeeds
    refine Triple.seq hfirst fun exit => ?_
    refine Triple.ite (fun _ => ?_) (fun _ => ih (index + 1))
    exact Triple.throw fun _ hw => hw

theorem profileDir_injective (h : profileDir hash = profileDir hash') : hash = hash' := by
  unfold profileDir at h
  exact (String.append_right_inj _).mp h

/-- A run for another hash leaves the directory alone. -/
theorem run_triple_of_ne {seeds : List SeedRef} (hne : contentHash digest seeds ≠ hash) :
    Triple (Kept store hash paths) (run store digest env seeds) (fun _ => Kept store hash paths)
      (fun _ => Kept store hash paths) := by
  have hset (t : Tree) (w : World) (h : Kept store hash paths w) :
      Kept store hash paths (w.setProfile (contentHash digest seeds) t) := by
    have hprofile : (w.setProfile (contentHash digest seeds) t).profiles hash = w.profiles hash :=
      Function.update_of_ne hne.symm ..
    refine ⟨?_, fun hcurrent => ?_⟩
    · rw [hprofile]
      exact h.sourced
    · rw [hprofile]
      exact h.current hcurrent
  unfold run
  refine Triple.bind (resolveCurrent_triple fun _ _ hw => hw) fun old => ?_
  refine Triple.ite (fun _ => ?_) (fun _ => ?_)
  · exact Triple.pure fun w hw => hw.1
  refine Triple.strengthen ?_ fun w hw => hw.1
  refine Triple.seq (makeDir_keeps hset) fun _ => ?_
  refine Triple.seq (makeDir_keeps hset) fun _ => ?_
  refine Triple.seq (copySeeds_keeps 0 hset) fun _ => ?_
  refine Triple.seq (oldUnitsPath_triple fun _ _ hw => hw) fun _ => ?_
  refine Triple.seq (expect_triple fun _ _ hw => hw) fun _ => ?_
  refine Triple.ite (fun _ => ?_) (fun _ => ?_)
  · exact Triple.pure fun _ hw => hw
  · have hcurrent : Triple (Kept store hash paths) (updateCurrent env (contentHash digest seeds))
        (fun _ => Kept store hash paths) (fun _ => Kept store hash paths) := by
      refine updateCurrent_triple fun w hw => ⟨hw.sourced, fun hcurrent => ?_⟩
      exact absurd (profileDir_injective (Option.some.inj hcurrent)) hne
    refine Triple.seq hcurrent fun _ => ?_
    exact Triple.pure fun _ hw => hw

end Steps

section Histories

variable (store digest)

/-- A request and what comes of the steps of its run. -/
structure Request where
  seeds : List SeedRef
  env : Step → Answer

/-- The world after a run, and its exit code if there is one. -/
def Request.exec (r : Request) (w : World) : Except String ℤ × World :=
  let ending := (run store digest r.env r.seeds).exec ([], w)
  (ending.1, ending.2.2)

/-- The world after runs one after the other. -/
def after (history : List Request) : World :=
  history.foldl (fun w r => (r.exec store digest w).2) .fresh

/-- After the history the run reports success and leaves the tree in the directory of its
hash. -/
def Leaves (history : List Request) (r : Request) (t : Tree) : Prop :=
  (r.exec store digest (after store digest history)).1 = .ok 0 ∧
    (r.exec store digest (after store digest history)).2.profiles (contentHash digest r.seeds) = t

/-- A run for the hash names the seeds, and none of its copies cuts a file. -/
def Request.Spared (hash : String) (paths : List String) (r : Request) : Prop :=
  contentHash digest r.seeds = hash →
    (r.seeds.map (·.path)).Perm paths ∧ ∀ index, Whole (r.env (.copy index)).fate

variable {store digest} {r : Request} {history : List Request}

theorem kept_fresh : Kept store hash paths .fresh where
  sourced _ _ hn := by cases hn
  current hcurrent := by cases hcurrent

theorem kept_exec (h : Kept store hash paths w) (hspared : r.Spared digest hash paths) :
    Kept store hash paths (r.exec store digest w).2 := by
  by_cases hhash : contentHash digest r.seeds = hash
  · obtain ⟨hperm, hwhole⟩ := hspared hhash
    have hend := run_triple hhash hperm hwhole [] w h
    unfold Request.exec
    dsimp only
    revert hend
    generalize (run store digest r.env r.seeds).exec ([], w) = ending
    obtain ⟨outcome, _, w'⟩ := ending
    intro hend
    cases outcome with
    | ok code => exact hend.1
    | error text => exact hend
  · have hrun : Triple (Kept store hash paths) (run store digest r.env r.seeds)
        (fun _ => Kept store hash paths) (fun _ => Kept store hash paths) :=
      run_triple_of_ne hhash
    have hend := hrun [] w h
    unfold Request.exec
    dsimp only
    revert hend
    generalize (run store digest r.env r.seeds).exec ([], w) = ending
    obtain ⟨outcome, _, w'⟩ := ending
    intro hend
    cases outcome with
    | ok code => exact hend
    | error text => exact hend

theorem kept_after (hspared : ∀ r ∈ history, r.Spared digest hash paths) :
    Kept store hash paths (after store digest history) := by
  suffices ∀ w, Kept store hash paths w →
      Kept store hash paths (history.foldl (fun w r => (r.exec store digest w).2) w) from
    this .fresh kept_fresh
  induction history with
  | nil => exact fun w hw => hw
  | cons r rest ih =>
    intro w hw
    exact ih (fun other hmem => hspared other (List.mem_cons_of_mem _ hmem)) _
      (kept_exec hw (hspared r List.mem_cons_self))

/-- What a run that reports success leaves comes from the seeds and has all of them. -/
theorem Leaves.complete (h : Leaves store digest history r t)
    (hhash : contentHash digest r.seeds = hash)
    (hspared : ∀ r' ∈ history ++ [r], r'.Spared digest hash paths) :
    Sourced store paths t ∧ Complete store paths t := by
  have hbefore : Kept store hash paths (after store digest history) :=
    kept_after fun other hmem => hspared other (List.mem_append_left _ hmem)
  obtain ⟨hperm, hwhole⟩ := hspared r (List.mem_append_right _ List.mem_cons_self) hhash
  have hend := run_triple hhash hperm hwhole [] _ hbefore
  obtain ⟨hok, htree⟩ := h
  unfold Request.exec at hok htree
  dsimp only at hok htree
  rw [hok] at hend
  rw [hhash] at htree
  rw [← htree]
  exact ⟨hend.1.sourced, hend.2 rfl⟩

/-- Runs for one hash that report success leave the same tree, whatever the order of the
seeds and whatever earlier runs have left, if the runs for the hash name the same seeds,
these agree on their files, and no copy has cut one. -/
theorem leaves_same {r' : Request} {history' : List Request}
    (hhash : contentHash digest r.seeds = contentHash digest r'.seeds)
    (hagreed : Agreed store (r.seeds.map (·.path)))
    (hspared : ∀ other ∈ history ++ [r] ++ (history' ++ [r']),
      other.Spared digest (contentHash digest r.seeds) (r.seeds.map (·.path)))
    (h : Leaves store digest history r t) (h' : Leaves store digest history' r' t') : t = t' := by
  obtain ⟨hsourced, hcomplete⟩ := h.complete rfl
    fun other hmem => hspared other (List.mem_append_left _ hmem)
  obtain ⟨hsourced', hcomplete'⟩ := h'.complete hhash.symm
    fun other hmem => hspared other (List.mem_append_right _ hmem)
  exact eq_of_complete hagreed hsourced hcomplete hsourced' hcomplete'

end Histories

section Cases

/-- A seed with one unit. -/
def oneUnit (content : Content) : Source where
  entries := [(["system"], .dir), (["system", "a.service"], .file content)]
  nodup := by simp
  parents before e after h := by
    match before with
    | [] =>
      cases h
      exact ⟨List.cons_ne_nil _ _, .inl rfl⟩
    | [first] =>
      cases h
      exact ⟨List.cons_ne_nil _ _, .inr List.mem_cons_self⟩
    | first :: second :: more =>
      have hlength := congrArg List.length h
      simp at hlength

/-- The store paths of two seeds. The units are those with the two contents. -/
def twoSeeds (content content' : Content) (path : String) : Option Source :=
  if path = "/a" then some (oneUnit content)
  else if path = "/b" then some (oneUnit content')
  else none

/-- A request for seeds of which all steps are fine. -/
def fineRequest (paths : List String) : Request where
  seeds := paths.map fun path => { name := path, path }
  env _ := {}

/-- A request that ends while it copies a unit. -/
def stoppedRequest (paths : List String) (fate : Fate) : Request where
  seeds := paths.map fun path => { name := path, path }
  env _ := { fate := fun p => if p = ["system", "a.service"] then fate else .copied }

/-- The directory after a run, where there is only one hash. -/
def Request.treeAfter (r : Request) (store : String → Option Source) (history : List Request) :
    Tree :=
  (r.exec store (fun _ => "h") (after store (fun _ => "h") history)).2.profiles "h"

/-- Seeds with the same units agree. -/
theorem agreed_twoSeeds {content : Content} : Agreed (twoSeeds content content) paths := by
  have hunit {path : String} {source : Source} (h : twoSeeds content content path = some source) :
      source = oneUnit content := by
    unfold twoSeeds at h
    split_ifs at h
    · exact (Option.some.inj h).symm
    · exact (Option.some.inj h).symm
  rintro path _ path' _ p n n' ⟨source, hsource, hmem⟩ ⟨source', hsource', hmem'⟩ _ _
  rw [hunit hsource] at hmem
  rw [hunit hsource'] at hmem'
  have hnodup := (oneUnit content).nodup
  exact congrArg Prod.snd (List.inj_on_of_nodup_map hnodup hmem hmem' rfl)

/-- An interrupted copy and another order make no difference to seeds that agree. -/
theorem leaves_same_reordered :
    (fineRequest ["/b", "/a"]).treeAfter (twoSeeds [1] [1])
        [stoppedRequest ["/a", "/b"] .omitted] =
      (fineRequest ["/a", "/b"]).treeAfter (twoSeeds [1] [1]) [] := by
  have hfine (paths : List String) (index : ℕ) :
      Whole ((fineRequest paths).env (.copy index)).fate := fun p left h => by cases h
  have hstopped (index : ℕ) :
      Whole ((stoppedRequest ["/a", "/b"] .omitted).env (.copy index)).fate := by
    intro p left h
    dsimp only [stoppedRequest] at h
    split_ifs at h
  have hleaves : Leaves (twoSeeds [1] [1]) (fun _ => "h")
      [stoppedRequest ["/a", "/b"] .omitted] (fineRequest ["/b", "/a"])
      ((fineRequest ["/b", "/a"]).treeAfter (twoSeeds [1] [1])
        [stoppedRequest ["/a", "/b"] .omitted]) := ⟨rfl, rfl⟩
  have hleaves' : Leaves (twoSeeds [1] [1]) (fun _ => "h") [] (fineRequest ["/a", "/b"])
      ((fineRequest ["/a", "/b"]).treeAfter (twoSeeds [1] [1]) []) := ⟨rfl, rfl⟩
  have hhash : contentHash (fun _ => "h") (fineRequest ["/b", "/a"]).seeds =
      contentHash (fun _ => "h") (fineRequest ["/a", "/b"]).seeds := rfl
  refine leaves_same hhash agreed_twoSeeds (fun other hmem => ?_) hleaves hleaves'
  intro _
  have hcases : other = stoppedRequest ["/a", "/b"] .omitted ∨ other = fineRequest ["/b", "/a"] ∨
      other = fineRequest ["/a", "/b"] := by simpa [or_assoc] using hmem
  rcases hcases with rfl | rfl | rfl
  · exact ⟨List.Perm.swap _ _ _, hstopped⟩
  · exact ⟨List.Perm.refl _, hfine _⟩
  · exact ⟨List.Perm.swap _ _ _, hfine _⟩

/-- The order of the seeds decides between units of one name, and what an interrupted copy
has left of a unit stays. -/
theorem same_hash_other_units :
    (((fineRequest ["/a", "/b"]).seeds.map (·.path)).Perm
        ((fineRequest ["/b", "/a"]).seeds.map (·.path)) ∧
      ∃ t t', Leaves (twoSeeds [1] [2]) (fun _ => "h") [] (fineRequest ["/a", "/b"]) t ∧
      Leaves (twoSeeds [1] [2]) (fun _ => "h") [] (fineRequest ["/b", "/a"]) t' ∧ t ≠ t') ∧
    ∃ t t', Leaves (twoSeeds [1] [2]) (fun _ => "h") [] (fineRequest ["/a"]) t ∧
      Leaves (twoSeeds [1] [2]) (fun _ => "h") [stoppedRequest ["/a"] (.cut [])] (fineRequest ["/a"]) t' ∧
      t ≠ t' := by
  refine ⟨⟨List.Perm.swap _ _ _, _, _, ⟨rfl, rfl⟩, ⟨rfl, rfl⟩, fun h => ?_⟩, ⟨_, _, ⟨rfl, rfl⟩, ⟨rfl, rfl⟩, fun h => ?_⟩⟩
  · have hunit := congrFun h ["system", "a.service"]
    revert hunit
    decide
  · have hunit := congrFun h ["system", "a.service"]
    revert hunit
    decide

end Cases

end Sower.Activator
