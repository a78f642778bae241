import Sower.Server.Contract
import Sower.Server.Reopening
import Sower.Server.Rules

/-!
# Deployments in flight

A deploy looks for a duplicate in one step and inserts its deployment in a later
one. As long as no other deploy inserts an unresolved deployment with the same
content in between, there is at most one in flight for each content.
-/

namespace Sower.Server

open Sower.Calendar Sower.Policy Sower.Wire Process Proc Keyed Interleaving Contract

section Log

/-- The garden and content that a duplicate was looked for. -/
def Event.check : Event → Option (ℕ × String)
  | .checked gardenId contentHash => some (gardenId, contentHash)
  | _ => none

/-- The deployment that was inserted. -/
def Event.inserted : Event → Option ℕ
  | .created id => some id
  | _ => none

/-- The content that the process last looked for. -/
def lastCheck (i : ℕ) : History → Option (ℕ × String)
  | [] => none
  | (j, e) :: earlier => (if j = i then e.check else none).or (lastCheck i earlier)

/-- Deployments with the content that were inserted since the process last looked for
a duplicate, and that are still unresolved. -/
def slippedIn (i : ℕ) (content : ℕ × String) : History → List ℕ
  | [] => []
  | (j, e) :: earlier =>
    if j = i ∧ e.check.isSome then []
    else (e.inserted.filter fun _ => lastCheck j earlier = some content).toList ++
      (slippedIn i content earlier).filter fun id => !e.resolves id

/-- Whenever a deploy inserts a deployment, none with its content has slipped in. -/
def NoRace : History → Bool
  | [] => true
  | (i, e) :: earlier =>
    e.inserted.all (fun _ => (lastCheck i earlier).all fun content =>
      slippedIn i content earlier = []) && NoRace earlier

theorem lastCheck_append {i j : ℕ} {es : List Event} {h : History}
    (hes : j = i → ∀ e ∈ es, e.check = none) :
    lastCheck i (es.map (j, ·) ++ h) = lastCheck i h := by
  refine append_unchanged fun e he earlier => ?_
  rw [lastCheck]
  split
  · rename_i hij
    rw [hes hij e he, Option.none_or]
  · rw [Option.none_or]

/-- What has slipped in stays there until it is resolved. -/
theorem mem_slippedIn_append {i j id : ℕ} {content : ℕ × String} {es : List Event} {h : History}
    (hes : j = i → ∀ e ∈ es, e.check = none) (hopen : ∀ e ∈ es, e.resolves id = false)
    (hid : id ∈ slippedIn i content h) : id ∈ slippedIn i content (es.map (j, ·) ++ h) := by
  induction es with
  | nil => exact hid
  | cons e rest ih =>
    have hnot : ¬ (j = i ∧ e.check.isSome) := by
      rintro ⟨hij, hcheck⟩
      rw [hes hij e List.mem_cons_self] at hcheck
      cases hcheck
    obtain ⟨he, hrest⟩ := List.forall_mem_cons.mp hopen
    have hrec := ih (fun hij e' he' => hes hij e' (List.mem_cons_of_mem e he')) hrest
    rw [List.map_cons, List.cons_append, slippedIn, if_neg hnot]
    refine List.mem_append_right _ (List.mem_filter.mpr ⟨hrec, ?_⟩)
    rw [he]
    rfl

theorem noRace_append {late early : History} (h : NoRace (late ++ early) = true) :
    NoRace early = true := by
  refine of_append (fun entry earlier hall => ?_) h
  rw [NoRace, Bool.and_eq_true] at hall
  exact hall.2

end Log

section Contract

/-- The garden and content of a deployment. -/
def Deployment.content (deployment : Deployment) : ℕ × String :=
  (deployment.gardenId, deployment.contentHash)

/-- The deployment is unresolved, is no retry and has a key from the given one on. -/
def Deployment.inFlight (first : ℕ) (deployment : Deployment) : Bool :=
  first ≤ deployment.id && deployment.parentDeploymentId = none && !deployment.state.terminal

/-- At most one deployment is in flight for each garden and content. -/
def OneInFlight (first : ℕ) (db : Db) : Prop :=
  ∀ a ∈ db.deployments.rows, ∀ b ∈ db.deployments.rows, a.inFlight first = true →
    b.inFlight first = true → a.content = b.content → a.id = b.id

instance (first : ℕ) (db : Db) : Decidable (OneInFlight first db) :=
  inferInstanceAs (Decidable (∀ a ∈ db.deployments.rows, ∀ b ∈ db.deployments.rows,
    a.inFlight first = true → b.inFlight first = true → a.content = b.content → a.id = b.id))

/-- What a step does about the deployments in flight: those there are were there
before, or the step is an insertion that follows a check of the process. -/
structure FlightStep (first i : ℕ) (w : World Db Event) (es : List Event) (db : Db) : Prop where
  rows : ∀ row ∈ db.deployments.rows, row.inFlight first = true →
    (∃ old ∈ w.store.deployments.rows, old.id = row.id ∧ old.content = row.content ∧
      old.inFlight first = true ∧ ∀ e ∈ es, e.resolves row.id = false) ∨
    (es = [.created row.id] ∧ lastCheck i (history w) = some row.content)
  alone : ∀ id content, es = [.created id] → lastCheck i (history w) = some content →
    NoRace (history (w.extend i es db)) = true → ∀ old ∈ w.store.deployments.rows,
      old.inFlight first = true → old.content ≠ content

/-- A deploy tolerates the steps of the others, and its own that look for nothing. -/
def FlightRely (first i : ℕ) (w w' : World Db Event) : Prop :=
  ∃ j es db, w' = w.extend j es db ∧ FlightStep first j w es db ∧
    (j = i → ∀ e ∈ es, e.check = none)

/-- The contract of deploys: without a race there is at most one in flight. -/
def flightContract (first : ℕ) : Contract Db Event where
  inv w := NoRace (history w) = true → OneInFlight first w.store
  rely := FlightRely first
  guar i w w' := ∃ es db, w' = w.extend i es db ∧ FlightStep first i w es db
  keeps := by
    rintro i w w' hinv ⟨es, db, rfl, hrows, halone⟩ hnone a ha b hb haflight hbflight hsame
    have hearlier := hinv (noRace_append (history_extend ▸ hnone))
    rcases hrows a ha haflight with ⟨a', ha', hida, hconta, hflighta, _⟩ | ⟨hes, hlast⟩
    · rcases hrows b hb hbflight with ⟨b', hb', hidb, hcontb, hflightb, _⟩ | ⟨hes, hlast⟩
      · rw [← hida, ← hidb]
        exact hearlier a' ha' b' hb' hflighta hflightb (by rw [hconta, hcontb, hsame])
      · exact absurd (hconta.trans hsame) (halone b.id b.content hes hlast hnone a' ha' hflighta)
    · rcases hrows b hb hbflight with ⟨b', hb', hidb, hcontb, hflightb, _⟩ | ⟨hes', _⟩
      · exact absurd (hcontb.trans hsame.symm) (halone a.id a.content hes hlast hnone b' hb' hflightb)
      · rw [hes] at hes'
        exact Event.created.inj (List.singleton_inj.mp hes')
  compatible := by
    rintro i j w w' hne ⟨es, db, hworld, hstep⟩
    exact ⟨j, es, db, hworld, hstep, fun hij => absurd hij.symm hne⟩

end Contract

section Programs

variable {first i : ℕ} {platform : Platform}

theorem Event.Plain.not_resolves {e : Event} (h : e.Plain) (id : ℕ) : e.resolves id = false := by
  cases e <;> first | rfl | cases h

/-- The rows in flight are among the earlier ones, and nothing is resolved or inserted. -/
theorem flightStep_of_rows {w : World Db Event} {es : List Event} {db : Db}
    (hrows : ∀ row ∈ db.deployments.rows, row.inFlight first = true →
      ∃ old ∈ w.store.deployments.rows, old.id = row.id ∧ old.content = row.content ∧
        old.inFlight first = true)
    (hes : ∀ e ∈ es, (∀ id, e.resolves id = false) ∧ e.inserted = none) :
    FlightStep first i w es db := by
  refine ⟨fun row hrow hflight => ?_, fun id content heq => ?_⟩
  · obtain ⟨old, hold, hid, hcontent, hopen⟩ := hrows row hrow hflight
    exact Or.inl ⟨old, hold, hid, hcontent, hopen, fun e he => (hes e he).1 row.id⟩
  · have hcreated := (hes (.created id) (heq ▸ List.mem_singleton.mpr rfl)).2
    cases hcreated

theorem rows_same {w : World Db Event} {db : Db}
    (h : db.deployments.rows = w.store.deployments.rows) :
    ∀ row ∈ db.deployments.rows, row.inFlight first = true →
      ∃ old ∈ w.store.deployments.rows, old.id = row.id ∧ old.content = row.content ∧
        old.inFlight first = true :=
  fun row hrow hflight => ⟨row, h ▸ hrow, rfl, rfl, hflight⟩

/-- An update of a row that does not reopen it. -/
theorem flightStep_updated {w : World Db Event} {id : ℕ} {attrs : Attrs} {locked : Deployment}
    (hfound : w.store.deployments.find? id = some locked)
    (hkept : locked.state.terminal = true → attrs.state.terminal = true) :
    FlightStep first i w [.updated id attrs] (w.store.setDeployment id attrs) := by
  refine ⟨fun row hrow hflight => Or.inl ?_, fun id' content heq => (by cases heq)⟩
  obtain ⟨old, hold, heq⟩ := mem_setDeployment.mp hrow
  by_cases hid : old.id = id
  · have hlocked : locked = old := by
      have hfind := Table.find?_of_mem hold
      rw [hid, hfound] at hfind
      exact Option.some.inj hfind
    rw [if_pos (by simpa using hid)] at heq
    subst heq
    subst hlocked
    have hopen : attrs.state.terminal = false := by
      simpa using ((Bool.and_eq_true _ _).mp hflight).2
    have hwas : locked.state.terminal = false := by
      rcases hlocked : locked.state.terminal with _ | _
      · rfl
      · rw [hkept hlocked] at hopen
        cases hopen
    refine ⟨locked, hold, rfl, rfl, ?_, fun e he => ?_⟩
    · have hfirst := ((Bool.and_eq_true _ _).mp hflight).1
      exact (Bool.and_eq_true _ _).mpr ⟨hfirst, by rw [hwas]; rfl⟩
    · rw [List.mem_singleton.mp he]
      simp [Event.resolves, hopen]
  · rw [if_neg (by simpa using hid)] at heq
    subst heq
    refine ⟨old, hold, rfl, rfl, hflight, fun e he => ?_⟩
    rw [List.mem_singleton.mp he]
    simp [Event.resolves, Ne.symm hid]

/-- Steps that insert no deployment but retries. -/
theorem flightStep_of_effect {kinds : Set Kind} {w : World Db Event} {es : List Event} {db : Db}
    (hcreates : .creates ∉ kinds) (htransacts : .transacts ∉ kinds)
    (h : Effect kinds w.store es db) : FlightStep first i w es db := by
  cases h with
  | idle deployments locks plain =>
    refine flightStep_of_rows (rows_same (by rw [deployments])) fun e he => ?_
    refine ⟨(plain e he).not_resolves, ?_⟩
    have hplain := plain e he
    cases e <;> first | rfl | cases hplain
  | @updated kind id attrs locked found kept => exact flightStep_updated found kept
  | marked kind ids dispatchedAt =>
    refine flightStep_of_rows (fun row hrow hflight => ?_) ?_
    · obtain ⟨old, hold, heq⟩ := (Table.mem_update (Deployment.redispatch_id dispatchedAt)).mp hrow
      split at heq
      · rename_i hmarked
        subst heq
        have hopen := ((Bool.and_eq_true _ _).mp hmarked).2
        have hfirst := ((Bool.and_eq_true _ _).mp hflight).1
        exact ⟨old, hold, rfl, rfl, (Bool.and_eq_true _ _).mpr ⟨hfirst, hopen⟩⟩
      · subst heq
        exact ⟨old, hold, rfl, rfl, hflight⟩
    · intro e he
      rw [List.mem_singleton.mp he]
      exact ⟨fun _ => rfl, rfl⟩
  | created kind parentless => exact absurd kind hcreates
  | @retried kind loaded ordinal now actor =>
    unfold Db.insertRetry
    split
    · refine ⟨fun row hrow hflight => Or.inl ?_, fun id content heq => (by cases heq)⟩
      rcases (Table.mem_insert fun _ => rfl).mp hrow with hold | hnew
      · refine ⟨row, hold, rfl, rfl, hflight, fun e he => ?_⟩
        simp only [List.mem_cons, List.not_mem_nil, or_false] at he
        rcases he with rfl | rfl | rfl <;> rfl
      · rw [hnew] at hflight
        simp [Deployment.inFlight, Db.newRow, retryRow] at hflight
    · exact flightStep_of_rows (rows_same rfl) (by simp)
  | locked kind free => exact absurd kind htransacts
  | reserved kind => exact absurd kind htransacts
  | announced kind parent garden payload => exact absurd kind htransacts
  | committed kind id retry actor => exact absurd kind htransacts
  | unlocked kind id => exact absurd kind htransacts
  | rolledBack kind id retry => exact absurd kind htransacts
  | _ =>
    refine flightStep_of_rows (rows_same rfl) fun e he => ?_
    rw [List.mem_singleton.mp he]
    exact ⟨fun _ => rfl, rfl⟩

theorem Effect.unchecked {kinds : Set Kind} {db db' : Db} {es : List Event}
    (hchecks : .checks ∉ kinds) (h : Effect kinds db es db') : ∀ e ∈ es, e.check = none := by
  intro e he
  cases h with
  | idle deployments locks plain =>
    have hplain := plain e he
    cases e <;> first | rfl | cases hplain
  | checked kind gardenId contentHash => exact absurd kind hchecks
  | @retried kind loaded ordinal now actor =>
    unfold Db.insertRetry at he
    split at he
    · simp only [List.mem_cons, List.not_mem_nil, or_false] at he
      rcases he with rfl | rfl | rfl <;> rfl
    · cases he
  | reserved kind => cases he
  | committed kind id retry actor =>
    simp only [List.mem_cons, List.not_mem_nil, or_false] at he
    rcases he with rfl | rfl | rfl <;> rfl
  | rolledBack kind id retry =>
    simp only [List.mem_cons, List.not_mem_nil, or_false] at he
    rcases he with rfl | rfl <;> rfl
  | _ =>
    rw [List.mem_singleton.mp he]
    rfl

theorem ignores_flight {kinds : Set Kind} (hcreates : .creates ∉ kinds) (hchecks : .checks ∉ kinds)
    (htransacts : .transacts ∉ kinds) : Ignores (flightContract first) kinds := by
  refine ignores_of_effects fun i w es db _ heffect => ?_
  have hstep : FlightStep first i w es db := flightStep_of_effect hcreates htransacts heffect
  exact ⟨⟨es, db, rfl, hstep⟩, i, es, db, rfl, hstep, fun _ => heffect.unchecked hchecks⟩

/-- What the process has looked for: every deployment in flight with the content has
slipped in since. -/
structure Unchallenged (first i : ℕ) (content : ℕ × String) (w : World Db Event) : Prop where
  checked : lastCheck i (history w) = some content
  slipped : ∀ row ∈ w.store.deployments.rows, row.inFlight first = true → row.content = content →
    row.id ∈ slippedIn i content (history w)

theorem unchallenged_stable (first i : ℕ) (content : ℕ × String) :
    (flightContract first).Stable i (Unchallenged first i content) := by
  rintro w w' ⟨j, es, db, rfl, hstep, hchecks⟩ ⟨hchecked, hslipped⟩
  have hchecks : j = i → ∀ e ∈ es.reverse, e.check = none :=
    fun hij e he => hchecks hij e (List.mem_reverse.mp he)
  refine ⟨?_, fun row hrow hflight hcontent => ?_⟩
  · rw [history_extend, lastCheck_append hchecks]
    exact hchecked
  · rw [history_extend]
    rcases hstep.rows row hrow hflight with ⟨old, hold, hid, hsame, hopen, hresolves⟩ | ⟨hes, hlast⟩
    · rw [← hid]
      refine mem_slippedIn_append hchecks (fun e he => ?_) (hslipped old hold hopen (hsame.trans hcontent))
      rw [hid]
      exact hresolves e (List.mem_reverse.mp he)
    · subst hes
      rw [hcontent] at hlast
      have hnot : ¬ (j = i ∧ (Event.created row.id).check.isSome) := fun h => by cases h.2
      change row.id ∈ slippedIn i content ((j, .created row.id) :: history w)
      rw [slippedIn, if_neg hnot]
      exact List.mem_append_left _ (by simp [Event.inserted, hlast])

/-- A search that is not skipped finds no deployment in flight with the content. -/
theorem findDuplicate_flight (gardenId : ℕ) (contentHash : String) :
    (flightContract first).Sat i (findDuplicateDeployment gardenId contentHash false)
      (fun _ => True) fun found w =>
        found.elim (Unchallenged first i (gardenId, contentHash) w) fun _ => True := by
  unfold findDuplicateDeployment
  rw [if_neg Bool.false_ne_true]
  refine .atomic (fun w _ _ => ⟨?_, ?_⟩) fun found w w' hrely hw => ?_
  · have heffect : Effect {.checks} w.store [.checked gardenId contentHash] w.store :=
      .checked (by simp) gardenId contentHash
    exact ⟨_, _, rfl, flightStep_of_effect (by simp) (by simp) heffect⟩
  · rcases hfound : w.store.duplicate gardenId contentHash with _ | existing
    · have hnone : w.store.duplicates gardenId contentHash = [] := List.argmax_eq_none.mp hfound
      refine ⟨by simp [history, lastCheck, Event.check], fun row hrow hflight hcontent => ?_⟩
      obtain ⟨hgarden, hhash⟩ := Prod.mk.inj hcontent
      have hopen := ((Bool.and_eq_true _ _).mp hflight).2
      have hmem : row ∈ w.store.duplicates gardenId contentHash := by
        refine List.mem_filter.mpr ⟨hrow, ?_⟩
        simp [hgarden, hhash, Deployment.blocks, by simpa using hopen]
      rw [hnone] at hmem
      cases hmem
    · exact trivial
  · cases found with
    | none => exact unchallenged_stable first i (gardenId, contentHash) hrely hw
    | some existing => trivial

theorem slippedIn_of_noRace {w : World Db Event} {id : ℕ} {db : Db} {content : ℕ × String}
    (hnone : NoRace (history (w.extend i [.created id] db)) = true)
    (hlast : lastCheck i (history w) = some content) : slippedIn i content (history w) = [] := by
  rw [history_extend] at hnone
  have hnobody : ((lastCheck i (history w)).all fun content =>
      decide (slippedIn i content (history w) = [])) = true :=
    ((Bool.and_eq_true _ _).mp hnone).1
  rw [hlast] at hnobody
  simpa using hnobody

/-- An insertion that nothing has slipped in before. -/
theorem create_flight {new : NewDeployment} :
    (flightContract first).Sat i (createDeployment new)
      (Unchallenged first i (new.gardenId, new.contentHash)) fun _ _ => True := by
  refine .atomic (fun w _ hw => ⟨?_, trivial⟩) fun _ _ _ _ _ => trivial
  obtain ⟨hchecked, hslipped⟩ := hw
  dsimp only [World.advance]
  split
  · refine ⟨_, _, rfl, ⟨fun row hrow hflight => ?_, fun id content hes hlast hnone old hold hflight heq => ?_⟩⟩
    · rcases (Table.mem_insert fun _ => rfl).mp hrow with hold | hnew
      · refine Or.inl ⟨row, hold, rfl, rfl, hflight, fun e he => ?_⟩
        rw [List.mem_singleton.mp he]
        rfl
      · subst hnew
        exact Or.inr ⟨rfl, hchecked⟩
    · rw [hchecked] at hlast
      cases hlast
      have hslip := hslipped old hold hflight heq
      rw [slippedIn_of_noRace hnone hchecked] at hslip
      cases hslip
  · have heffect : Effect ∅ w.store [] w.store := .idle rfl rfl (by simp)
    exact ⟨_, _, rfl, flightStep_of_effect (by simp) (by simp) heffect⟩

/-- A dispatch that does not skip its search. -/
theorem dispatch_flight {requestId : Sid} {gardenId : ℕ} {seedDeploys : List SeedDeployment}
    {subscriptions : List Subscription} {opts : DeployOpts} (hforce : opts.force = false) :
    (flightContract first).Sat i
      (dispatchSeedDeploys platform requestId gardenId seedDeploys subscriptions opts)
      (fun _ => True) (Dispatched (fun _ => True) (fun _ => True) (fun _ _ => True)
        (fun _ _ => True) seedDeploys) := by
  have hidle : Ignores (flightContract first) ∅ := ignores_flight (by simp) (by simp) (by simp)
  have hcancel : Ignores (flightContract first) {.selects, .updates} :=
    ignores_flight (by simp) (by simp) (by simp)
  have hfree := unchallenged_stable first i
    (gardenId, computeContentHash platform (seedDeploys.map fun seedDeploy => seedDeploy.seed.sid))
  refine dispatch_rule hidle (fun ids => ?_) hfree (fun _ _ _ _ _ => trivial) ?_ fun now => ?_
  · exact hcancel (steps_cancelStaleForSubscriptions (by simp) (by simp) ids)
  · rw [hforce]
    exact findDuplicate_flight gardenId _
  · exact create_flight.conseq (fun _ hw => hw) fun created _ _ => by cases created <;> trivial

theorem sendDispatched_flight {garden : Sid} {payload : Wire.Deployment}
    {P : World Db Event → Prop} :
    (flightContract first).Sat i (Proc.emit (.dispatched garden payload)) P fun _ _ => True := by
  refine .atomic (fun w _ _ => ⟨?_, trivial⟩) fun _ _ _ _ _ => trivial
  have heffect : Effect {.dispatches} w.store [.dispatched garden payload] w.store :=
    .dispatched (by simp) garden payload
  exact ⟨_, _, rfl, flightStep_of_effect (by simp) (by simp) heffect⟩

end Programs

section Runs

variable {platform : Platform}

/-- The operation is a deploy that skips the search for a duplicate. -/
def Operation.forced : Operation → Bool
  | .processDeployment job => job.opts.force
  | .deployDirect _ _ opts => opts.force
  | _ => false

/-- The programs that the server runs when no deploy is forced. -/
def Unforced (platform : Platform) (program : Program PUnit) : Prop :=
  ∃ operation : Operation, operation.forced = false ∧ program = operation.program platform

/-- Operations without forced deploys keep the contract. -/
theorem unforced_flight {first : ℕ} {p : Program PUnit} (h : Unforced platform p) (i : ℕ) :
    (flightContract first).Sat i p (fun _ => True) fun _ _ => True := by
  obtain ⟨operation, hforced, rfl⟩ := h
  have hidle : Ignores (flightContract first) ∅ := ignores_flight (by simp) (by simp) (by simp)
  have htrue : (flightContract first).Stable i fun _ => True := fun _ _ _ _ => trivial
  have htransacts : .transacts ∉ operation.kinds := by
    cases operation <;> simp [Operation.kinds]
  by_cases hcreates : .creates ∈ operation.kinds
  · cases operation with
    | processDeployment job =>
      exact job_rule hidle htrue (fun _ _ => trivial) (fun _ _ => trivial)
        (fun gardenId seedDeploys => dispatch_flight hforced) fun _ _ => sendDispatched_flight
    | deployDirect garden seed opts =>
      refine Sat.bind ?_ fun _ => .done fun _ hw => hw
      exact deployDirect_rule hidle htrue (fun _ _ => trivial) (fun _ _ => trivial)
        (fun requestId seedDeploys subscriptions action override => dispatch_flight hforced)
        fun _ _ => sendDispatched_flight
    | _ => simp [Operation.kinds] at hcreates
  · exact sat_of_steps (steps_operation operation) fun w es db _ heffect =>
      ⟨es, db, rfl, flightStep_of_effect hcreates htransacts heffect⟩

/-- In every interleaving of deploys that are not forced, with each other and with other
operations, at most one of their deployments is in flight for each garden and content,
unless one of them inserts while another one's is in flight that slipped in. -/
theorem oneInFlight_of_noRace {db : Db} {c : Pool Db Event}
    (hreach : Reachable (Unforced platform) (Pool.start db) c)
    (hnone : NoRace (history c.world) = true) :
    OneInFlight db.deployments.next c.world.store := by
  have hstart : OneInFlight db.deployments.next db := by
    intro a ha b hb hflight
    have hfresh := db.deployments.fresh a ha
    have hfirst := ((Bool.and_eq_true _ _).mp ((Bool.and_eq_true _ _).mp hflight).1).1
    exact absurd hfresh (Nat.not_lt.mpr (of_decide_eq_true hfirst))
  have hholds := holds_of_reachable (C := flightContract db.deployments.next) (Q := fun _ _ => True)
    (fun p hp i => unforced_flight hp i) ⟨fun _ => hstart, by simp [Pool.start]⟩ hreach
  exact hholds.1 hnone

/-- A store with a garden, a seed and a subscription that matches it. -/
def oneSubscribed : Db :=
  { clock := fun n => n
    gardens := Table.empty.insert (fun id => ⟨id, [], none⟩) fun _ => rfl
    seeds := Table.empty.insert (fun id => ⟨id, "web", "nixos", "/nix/store/web", [], 0⟩) fun _ => rfl
    subscriptions := Table.empty.insert
      (fun id => ⟨id, 1, "web", "web", "nixos", [], none, none, [], 0⟩) fun _ => rfl }

/-- The job of a deployment request for the subscription. -/
def subscribedJob (requestId : Sid) : Job :=
  ⟨requestId, ⟨1, [], none⟩, [⟨1, 1, "web", "web", "nixos", [], none, none, [], 0⟩], {}⟩

def twoJobs : List (Program PUnit) :=
  [(Operation.processDeployment (subscribedJob 7)).program .plain,
    (Operation.processDeployment (subscribedJob 8)).program .plain]

theorem twoJobs_unforced : ∀ p ∈ twoJobs, Unforced .plain p := by
  intro p hp
  simp only [twoJobs, List.mem_cons, List.not_mem_nil, or_false] at hp
  rcases hp with rfl | rfl
  · exact ⟨.processDeployment (subscribedJob 7), rfl, rfl⟩
  · exact ⟨.processDeployment (subscribedJob 8), rfl, rfl⟩

/-- The second job looks for a duplicate after the first one's insertion. -/
theorem oneInFlight_after_insertion :
    OneInFlight oneSubscribed.deployments.next
      (started oneSubscribed twoJobs [0, 0, 0, 0, 0, 0, 1, 1, 1]).world.store :=
  oneInFlight_of_noRace (started_reachable twoJobs_unforced) (by decide)

/-- Both jobs look for a duplicate, then both insert a deployment. -/
theorem oneInFlight_fails_between_check_and_insertion :
    ¬ ∀ (platform : Platform) (db : Db) (c : Pool Db Event),
      Reachable (Unforced platform) (Pool.start db) c →
        OneInFlight db.deployments.next c.world.store := by
  intro h
  have hone := h .plain oneSubscribed (started oneSubscribed twoJobs [0, 0, 1, 1, 0, 0, 1, 1])
    (started_reachable twoJobs_unforced)
  revert hone
  decide

end Runs

end Sower.Server
