import Sower.Server.Contract
import Sower.Server.Reopening
import Sower.Server.Rules

/-!
# Replays and marks

A reconnect lists the unresolved deployments, marks those of them that are still
unresolved and broadcasts all that it listed. What it broadcasts was unresolved
at the marking unless it was resolved between the listing and the marking.
-/

namespace Sower.Server

open Sower.Calendar Sower.Policy Sower.Wire Process Proc Keyed Interleaving Contract

section Log

/-- The deployment that is broadcast again. -/
def Event.replayedSid : Event → Option Sid
  | .replayed _ payload => some payload.sid
  | _ => none

/-- The deployments that were to be marked, and those of them that were unresolved. -/
def Event.marking : Event → Option (List ℕ × List ℕ)
  | .marked ids unresolved => some (ids, unresolved)
  | _ => none

/-- The deployments that were unresolved when the process last marked some. -/
def lastMarked (i : ℕ) : History → List ℕ
  | [] => []
  | (j, e) :: earlier => match if j = i then e.marking else none with
    | some (_, unresolved) => unresolved
    | none => lastMarked i earlier

/-- Every deployment that is broadcast again was unresolved when the marking ran. -/
def ReplaysMarked : History → Bool
  | [] => true
  | (i, e) :: earlier => e.replayedSid.all (· ∈ lastMarked i earlier) && ReplaysMarked earlier

/-- The deployment was resolved after the process last selected it. -/
def resolvedSince (i id : ℕ) : History → Bool
  | [] => false
  | (j, e) :: earlier =>
    if e.resolves id then true
    else if j = i && e.selects id then false
    else resolvedSince i id earlier

/-- No process marks a deployment that was resolved after the process selected it. -/
def NoneResolved : History → Bool
  | [] => true
  | (i, e) :: earlier =>
    e.marking.all (fun marking => marking.1.all fun id => !resolvedSince i id earlier) &&
      NoneResolved earlier

/-- The event neither selects nor marks. -/
def Event.Passes (e : Event) : Prop := (∀ id, e.selects id = false) ∧ e.marking = none

theorem lastMarked_append {i j : ℕ} {es : List Event} {h : History}
    (hes : j = i → ∀ e ∈ es, e.Passes) : lastMarked i (es.map (j, ·) ++ h) = lastMarked i h := by
  refine append_unchanged fun e he earlier => ?_
  have hnone : (if j = i then e.marking else none) = none := by
    split
    · rename_i hij
      exact (hes hij e he).2
    · rfl
  rw [lastMarked, hnone]

theorem resolvedSince_append {i j id : ℕ} {es : List Event} {h : History}
    (hes : j = i → ∀ e ∈ es, e.Passes) :
    resolvedSince i id (es.map (j, ·) ++ h) =
      (es.any (·.resolves id) || resolvedSince i id h) := by
  induction es with
  | nil => rfl
  | cons e rest ih =>
    have hpass : (decide (j = i) && e.selects id) = false := by
      by_cases hij : j = i
      · rw [(hes hij e List.mem_cons_self).1 id, Bool.and_false]
      · rw [decide_eq_false hij, Bool.false_and]
    rw [List.map_cons, List.cons_append, resolvedSince, List.any_cons, hpass,
      ih fun hij e' he' => hes hij e' (List.mem_cons_of_mem e he')]
    cases e.resolves id <;> rfl

theorem noneResolved_append {late early : History} (h : NoneResolved (late ++ early) = true) :
    NoneResolved early = true := by
  refine of_append (fun entry earlier hall => ?_) h
  rw [NoneResolved, Bool.and_eq_true] at hall
  exact hall.2

theorem replaysMarked_append {i : ℕ} {es : List Event} {h : History}
    (hes : ∀ e ∈ es, e.replayedSid = none) :
    ReplaysMarked (es.map (i, ·) ++ h) = ReplaysMarked h := by
  refine append_unchanged fun e he earlier => ?_
  rw [ReplaysMarked, hes e he]
  rfl

end Log

section Contract

/-- One step, with what it broadcasts again. -/
inductive ReplayStep (i : ℕ) (w w' : World Db Event) : Prop
  | quiet {es : List Event} {db : Db} (resolves : Resolves w.store es db)
      (quiet : ∀ e ∈ es, e.replayedSid = none) (world : w' = w.extend i es db)
  | replays {garden : Sid} {payload : Wire.Deployment}
      (marked : NoneResolved (history w) = true → payload.sid ∈ lastMarked i (history w))
      (world : w' = w.extend i [.replayed garden payload] w.store)

/-- A reconnect tolerates that others resolve deployments, and that it does so itself
as long as it neither selects nor marks any. -/
def ReplayRely (i : ℕ) (w w' : World Db Event) : Prop :=
  ∃ j es db, w' = w.extend j es db ∧ Resolves w.store es db ∧ (j = i → ∀ e ∈ es, e.Passes)

/-- The contract of reconnects with whatever resolves deployments. -/
def replayContract : Contract Db Event where
  inv w := NoneResolved (history w) = true → ReplaysMarked (history w) = true
  rely := ReplayRely
  guar := ReplayStep
  keeps := by
    intro i w w' hinv hstep hnone
    cases hstep with
    | @quiet es db resolves quiet world =>
      subst world
      rw [history_extend] at hnone ⊢
      rw [replaysMarked_append fun e he => quiet e (List.mem_reverse.mp he)]
      exact hinv (noneResolved_append hnone)
    | replays marked world =>
      subst world
      rw [history_extend] at hnone ⊢
      have hearlier := noneResolved_append hnone
      change (decide (_ ∈ lastMarked i (history w)) && ReplaysMarked (history w)) = true
      rw [decide_eq_true (marked hearlier), hinv hearlier]
      rfl
  compatible := by
    intro i j w w' hne hstep
    cases hstep with
    | @quiet es db resolves quiet world =>
      exact ⟨j, es, db, world, resolves, fun hij => absurd hij.symm hne⟩
    | replays marked world =>
      exact ⟨j, _, _, world, resolves_of_find? fun _ _ hrow => hrow, fun hij => absurd hij.symm hne⟩

end Contract

section Programs

variable {i : ℕ} {platform : Platform}

theorem Effect.quiet_replayed {kinds : Set Kind} {db db' : Db} {es : List Event}
    (hreplays : .replays ∉ kinds) (h : Effect kinds db es db') : ∀ e ∈ es, e.replayedSid = none := by
  intro e he
  cases h with
  | idle deployments locks plain =>
    have hplain := plain e he
    cases e with
    | replayed garden payload => cases hplain
    | _ => rfl
  | @retried kind loaded ordinal now actor =>
    unfold Db.insertRetry at he
    split at he
    · simp only [List.mem_cons, List.not_mem_nil, or_false] at he
      rcases he with rfl | rfl | rfl <;> rfl
    · cases he
  | replayed kind garden payload => exact absurd kind hreplays
  | reserved kind => cases he
  | committed kind id retry actor =>
    simp only [List.mem_cons, List.not_mem_nil, or_false] at he
    rcases he with rfl | rfl | rfl <;> rfl
  | rolledBack kind id retry =>
    simp only [List.mem_cons, List.not_mem_nil, or_false] at he
    rcases he with rfl | rfl <;> rfl
  | _ =>
    rw [List.mem_singleton.mp he]
    rfl

theorem Effect.passes {kinds : Set Kind} {db db' : Db} {es : List Event}
    (hselects : .selects ∉ kinds) (hmarks : .marks ∉ kinds) (h : Effect kinds db es db') :
    ∀ e ∈ es, e.Passes := by
  intro e he
  cases h with
  | idle deployments locks plain =>
    have hplain := plain e he
    cases e with
    | selected ids => cases hplain
    | marked ids unresolved => cases hplain
    | _ => exact ⟨fun _ => rfl, rfl⟩
  | selected kind ids => exact absurd kind hselects
  | marked kind ids dispatchedAt => exact absurd kind hmarks
  | @retried kind loaded ordinal now actor =>
    unfold Db.insertRetry at he
    split at he
    · simp only [List.mem_cons, List.not_mem_nil, or_false] at he
      rcases he with rfl | rfl | rfl <;> exact ⟨fun _ => rfl, rfl⟩
    · cases he
  | reserved kind => cases he
  | committed kind id retry actor =>
    simp only [List.mem_cons, List.not_mem_nil, or_false] at he
    rcases he with rfl | rfl | rfl <;> exact ⟨fun _ => rfl, rfl⟩
  | rolledBack kind id retry =>
    simp only [List.mem_cons, List.not_mem_nil, or_false] at he
    rcases he with rfl | rfl <;> exact ⟨fun _ => rfl, rfl⟩
  | _ =>
    rw [List.mem_singleton.mp he]
    exact ⟨fun _ => rfl, rfl⟩

theorem replayStep_of_effect {kinds : Set Kind} {w : World Db Event} {es : List Event} {db : Db}
    (hreplays : .replays ∉ kinds) (h : Effect kinds w.store es db) :
    ReplayStep i w (w.extend i es db) := .quiet h.resolves (h.quiet_replayed hreplays) rfl

/-- Steps that select, mark and replay nothing. -/
theorem ignores_replay {kinds : Set Kind} (hselects : .selects ∉ kinds) (hmarks : .marks ∉ kinds)
    (hreplays : .replays ∉ kinds) : Ignores replayContract kinds := by
  refine ignores_of_effects fun i w es db _ heffect => ?_
  exact ⟨replayStep_of_effect hreplays heffect, i, es, db, rfl, heffect.resolves,
    fun _ => heffect.passes hselects hmarks⟩

/-- What the process has listed is still unresolved, or was resolved since. -/
def Listed (i : ℕ) (deployments : List Loaded) (w : World Db Event) : Prop :=
  ∀ loaded ∈ deployments, Unresolved w.store loaded.deployment.id ∨
    resolvedSince i loaded.deployment.id (history w) = true

theorem listed_stable (i : ℕ) (deployments : List Loaded) :
    replayContract.Stable i (Listed i deployments) := by
  rintro w w' ⟨j, es, db, rfl, hresolves, hpasses⟩ hw loaded hloaded
  rw [history_extend, resolvedSince_append fun hij e he => hpasses hij e (List.mem_reverse.mp he),
    List.any_reverse, Bool.or_eq_true]
  rcases hw loaded hloaded with hopen | hsince
  · rcases hresolves _ hopen with hopen' | ⟨e, he, hresolved⟩
    · exact Or.inl hopen'
    · exact Or.inr (Or.inl (List.any_eq_true.mpr ⟨e, he, hresolved⟩))
  · exact Or.inr (Or.inr hsince)

/-- Where nothing is marked that was resolved since, the process has marked all of
the deployments while they were unresolved. -/
def AllMarked (i : ℕ) (deployments : List Loaded) (w : World Db Event) : Prop :=
  NoneResolved (history w) = true →
    ∀ loaded ∈ deployments, loaded.deployment.id ∈ lastMarked i (history w)

theorem allMarked_stable (i : ℕ) (deployments : List Loaded) :
    replayContract.Stable i (AllMarked i deployments) := by
  rintro w w' ⟨j, es, db, rfl, _, hpasses⟩ hw hnone loaded hloaded
  rw [history_extend] at hnone ⊢
  rw [lastMarked_append fun hij e he => hpasses hij e (List.mem_reverse.mp he)]
  exact hw (noneResolved_append hnone) loaded hloaded

/-- A deployment that was not resolved since its selection is unresolved when it is
marked. -/
theorem mem_lastMarked_mark {w : World Db Event} {ids : List ℕ} {db : Db} {id : ℕ}
    (hnone : NoneResolved (history (w.extend i [.marked ids (w.store.unresolvedAmong ids)] db)) = true)
    (hid : id ∈ ids) (hlisted : Unresolved w.store id ∨ resolvedSince i id (history w) = true) :
    id ∈ lastMarked i (history (w.extend i [.marked ids (w.store.unresolvedAmong ids)] db)) := by
  rw [history_extend] at hnone ⊢
  have hnotSince : resolvedSince i id (history w) = false := by
    have hall := ((Bool.and_eq_true _ _).mp hnone).1
    simpa using List.all_eq_true.mp hall id hid
  rcases hlisted with ⟨row, hrow, hopen⟩ | hsince
  · have hmarked : id ∈ w.store.unresolvedAmong ids := by
      refine List.mem_filter.mpr ⟨hid, ?_⟩
      rw [hrow]
      simp [hopen]
    simpa [lastMarked, Event.marking] using hmarked
  · rw [hnotSince] at hsince
    cases hsince

/-- The marking touches those of the listed deployments that are still unresolved. -/
theorem mark_sat (unresolved toReplay : List Loaded) (now : DateTime)
    (hsubset : toReplay ⊆ unresolved) :
    replayContract.Sat i (markDeploymentsDispatched toReplay now) (Listed i unresolved)
      fun _ => AllMarked i toReplay := by
  unfold markDeploymentsDispatched
  split
  · rename_i hempty
    refine .done fun w _ _ loaded hloaded => ?_
    rw [List.isEmpty_iff.mp hempty] at hloaded
    cases hloaded
  · refine .atomic (fun w _ hw => ⟨?_, ?_⟩) fun _ => allMarked_stable i toReplay
    · have heffect (ids : List ℕ) : Effect {.marks} w.store [.marked ids (w.store.unresolvedAmong ids)]
          (w.store.markDispatched ids now) := .marked (by simp) ids now
      exact replayStep_of_effect (by simp) (heffect _)
    · intro hnone loaded hloaded
      exact mem_lastMarked_mark hnone (List.mem_map_of_mem hloaded) (hw loaded (hsubset hloaded))

/-- A reconnect keeps the contract. -/
theorem reconcile_replays (garden : Garden) (now : DateTime) :
    replayContract.Sat i (reconcileDeploymentsOnConnect platform garden now)
      (fun _ => True) fun _ _ => True := by
  have hidle : Ignores replayContract ∅ := ignores_replay (by simp) (by simp) (by simp)
  have hupdates : Ignores replayContract {.updates} := ignores_replay (by simp) (by simp) (by simp)
  refine reconcile_rule (Listed i) (AllMarked i) hidle (fun _ _ _ _ => trivial)
    (fun _ _ _ _ => trivial) (listed_stable i) (fun _ _ => trivial) (fun _ _ _ => trivial) ?_ ?_ ?_ ?_
  · refine .atomic (fun w _ _ => ⟨?_, ?_⟩) (listed_stable i)
    · have heffect (ids : List ℕ) : Effect {.selects} w.store [.selected ids] w.store :=
        .selected (by simp) ids
      exact replayStep_of_effect (by simp) (heffect _)
    · intro loaded hloaded
      obtain ⟨row, hrow, rfl⟩ := List.mem_map.mp hloaded
      obtain ⟨hmem, hcond⟩ := List.mem_filter.mp ((List.mem_insertionSort _).mp hrow)
      refine Or.inl ⟨row, Table.find?_of_mem hmem, ?_⟩
      simpa using ((Bool.and_eq_true _ _).mp hcond).2
  · intro unresolved loaded _
    exact hupdates (steps_cancelSuperseded (by simp) garden loaded) i _ (listed_stable i unresolved)
  · exact fun unresolved toReplay hsubset => mark_sat unresolved toReplay now hsubset
  · intro toReplay loaded hloaded
    refine (hidle steps_newRequestId i _ (allMarked_stable i toReplay)).bind fun requestId => ?_
    refine .atomic (fun w _ hw => ?_) fun _ => allMarked_stable i toReplay
    have hrely : ReplayRely i w (w.extend i
        [.replayed garden.id (deploymentEventPayload loaded requestId)] w.store) := by
      refine ⟨i, _, _, rfl, resolves_of_find? fun _ _ hrow => hrow, fun _ e he => ?_⟩
      rw [List.mem_singleton.mp he]
      exact ⟨fun _ => rfl, rfl⟩
    exact ⟨.replays (fun hnone => hw hnone loaded hloaded) rfl, allMarked_stable i toReplay hrely hw⟩

end Programs

section Runs

variable {platform : Platform}

/-- All running programs keep the contract. -/
theorem concurrent_replays {p : Program PUnit} (h : Concurrent platform Set.univ p) (i : ℕ) :
    replayContract.Sat i p (fun _ => True) fun _ _ => True := by
  cases h with
  | @operation operation hallowed =>
    by_cases hreplays : .replays ∈ operation.kinds
    · cases operation with
      | reconcileDeploymentsOnConnect garden now =>
        exact (reconcile_replays garden now).bind fun _ => .done fun _ hw => hw
      | _ => simp [Operation.kinds] at hreplays
    · exact sat_of_steps (steps_operation operation) fun w es db _ heffect =>
        replayStep_of_effect hreplays heffect
  | retry hallowed id userId patience commits =>
    have hsteps : (discard (retryTransaction platform id userId patience commits)).Steps
        (Effect {.transacts}) := steps_discard (steps_retryTransaction (by simp) id userId patience commits)
    exact sat_of_steps hsteps fun w es db _ heffect => replayStep_of_effect (by simp) heffect

/-- In every interleaving in which no deployment is resolved between its listing and
the marking, a reconnect broadcasts only deployments that were unresolved when the
marking ran. -/
theorem replaysMarked_of_noneResolved {db : Db} {c : Pool Db Event}
    (hreach : Reachable (Concurrent platform Set.univ) (Pool.start db) c)
    (hnone : NoneResolved (history c.world) = true) : ReplaysMarked (history c.world) = true := by
  have hholds := holds_of_reachable (C := replayContract) (Q := fun _ _ => True)
    (fun p hp i => concurrent_replays hp i) ⟨fun _ => rfl, by simp [Pool.start]⟩ hreach
  exact hholds.1 hnone

/-- The garden of the waiting deployment reconnects, and its result arrives. -/
def reconnectAndResult : List (Program PUnit) :=
  [Operation.program .plain (.reconcileDeploymentsOnConnect ⟨1, [], none⟩ 10),
    Operation.program .plain (.recordDeployment 1 .success 5)]

theorem reconnectAndResult_concurrent : ∀ p ∈ reconnectAndResult, Concurrent .plain Set.univ p := by
  intro p hp
  simp only [reconnectAndResult, List.mem_cons, List.not_mem_nil, or_false] at hp
  rcases hp with rfl | rfl
  · exact .operation (Set.subset_univ _)
  · exact .operation (Set.subset_univ _)

/-- A result that arrives after the marking. -/
theorem replaysMarked_of_marked_first :
    ReplaysMarked
      (history (started oneWaiting reconnectAndResult [0, 0, 0, 1, 1, 0, 0]).world) = true :=
  replaysMarked_of_noneResolved (started_reachable reconnectAndResult_concurrent) (by decide)

/-- The deployment is listed, its result is recorded, nothing is marked, and the
deployment is broadcast again. -/
theorem replaysMarked_fails_between_listing_and_marking :
    ¬ ∀ (platform : Platform) (db : Db) (c : Pool Db Event),
      Reachable (Concurrent platform Set.univ) (Pool.start db) c →
        ReplaysMarked (history c.world) = true := by
  intro h
  have hmarked := h .plain oneWaiting
    (started oneWaiting reconnectAndResult [0, 0, 1, 1, 0, 0, 0])
    (started_reachable reconnectAndResult_concurrent)
  revert hmarked
  decide

end Runs

end Sower.Server
