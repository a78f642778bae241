import Sower.Server.Contract
import Sower.Server.RetryDiscipline
import Sower.Server.Rules

/-!
# Reports on broadcast deployments

A deployment that is dispatched or replayed is stored before it is broadcast, so
a garden's report on it is found. A retry is broadcast from within its
transaction: a report that arrives before the commit is rejected, and a
transaction that is rolled back has broadcast a deployment that never existed.
-/

namespace Sower.Server

open Sower.Calendar Sower.Policy Sower.Wire Process Proc Keyed Interleaving Contract

section Log

/-- The deployment that the event broadcasts. -/
def Event.broadcastSid : Event → Option Sid
  | .dispatched _ payload => some payload.sid
  | .replayed _ payload => some payload.sid
  | .retried _ _ payload => some payload.sid
  | _ => none

/-- The deployment was broadcast. -/
def broadcast (sid : Sid) (history : History) : Bool :=
  history.any fun entry => entry.2.broadcastSid = some sid

/-- The deployment that a report looked for, and whether it was found. -/
def Event.lookup : Event → Option (Sid × Bool)
  | .looked sid found => some (sid, found)
  | _ => none

/-- No report on a deployment that was broadcast before is rejected. -/
def ReportsFound : History → Bool
  | [] => true
  | (_, e) :: earlier =>
    e.lookup.all (fun report => report.2 || !broadcast report.1 earlier) && ReportsFound earlier

/-- The deployment whose insertion is rolled back. -/
def Event.lost : Event → Option ℕ
  | .rolledBack id => some id
  | _ => none

/-- No deployment is broadcast whose insertion is rolled back. -/
def LostUnheard (history : History) : Bool :=
  history.all fun entry => entry.2.lost.all fun id => !broadcast id history

/-- Broadcasts follow commits: no report on a broadcast deployment is rejected, and no
deployment is broadcast whose transaction rolls back. -/
def BroadcastFollowsCommit (history : History) : Bool := ReportsFound history && LostUnheard history

/-- The retry that the event broadcasts. -/
def Event.retrySid : Event → Option Sid
  | .retried _ _ payload => some payload.sid
  | _ => none

/-- Reports on a retry arrive before its broadcast or after its commit. -/
def ReportsInTime : History → Bool
  | [] => true
  | (_, e) :: earlier =>
    e.lookup.all (fun report =>
      !earlier.any (fun entry => entry.2.retrySid = some report.1) ||
        earlier.any fun entry => entry.2 = .created report.1) && ReportsInTime earlier

/-- No transaction is rolled back that has inserted its retry. -/
def NoneLost (history : History) : Bool := history.all fun entry => entry.2.lost = none

/-- No report arrives between the broadcast of a retry and its commit, and every
transaction that has inserted its retry commits. -/
def CommittedFirst (history : History) : Bool := ReportsInTime history && NoneLost history

/-- Steps without reports reject none. -/
theorem reportsFound_append {i : ℕ} {es : List Event} {h : History}
    (hes : ∀ e ∈ es, e.lookup = none) : ReportsFound (es.map (i, ·) ++ h) = ReportsFound h := by
  refine append_unchanged fun e he earlier => ?_
  rw [ReportsFound, hes e he]
  rfl

theorem reportsInTime_append {i : ℕ} {es : List Event} {h : History}
    (hes : ∀ e ∈ es, e.lookup = none) : ReportsInTime (es.map (i, ·) ++ h) = ReportsInTime h := by
  refine append_unchanged fun e he earlier => ?_
  rw [ReportsInTime, hes e he]
  rfl

/-- Where every lost retry was broadcast, none is lost unless one is heard of. -/
theorem lostUnheard_eq {h : History}
    (hlost : ∀ entry ∈ h, ∀ id, entry.2.lost = some id → broadcast id h = true) :
    LostUnheard h = NoneLost h := by
  unfold LostUnheard NoneLost
  refine Bool.eq_iff_iff.mpr ?_
  rw [List.all_eq_true, List.all_eq_true]
  refine forall_congr' fun entry => forall_congr' fun hentry => ?_
  rcases hid : entry.2.lost with _ | id
  · simp
  · simp [hlost entry hentry id hid]

end Log

section Contract

/-- The deployment has a row. -/
def Stored (db : Db) (id : ℕ) : Prop := ∃ row, db.deployments.find? id = some row

/-- The deployment that the event shows to be stored. -/
def Event.stored : Event → Option ℕ
  | .created id => some id
  | .dispatched _ payload => some payload.sid
  | .replayed _ payload => some payload.sid
  | _ => none

/-- Rows stay, and keys are given out in increasing order. -/
structure KeepsRows (db db' : Db) : Prop where
  next : db.deployments.next ≤ db'.deployments.next
  stored : ∀ id, Stored db id → Stored db' id

/-- What a step without a report does, when the keys from the given one on were not
yet given out at the start. -/
structure Honest (first : ℕ) (w : World Db Event) (es : List Event) (db : Db) : Prop where
  keeps : KeepsRows w.store db
  origin : ∀ id, Stored db id → Stored w.store id ∨ .created id ∈ es
  stored : ∀ e ∈ es, ∀ id, e.stored = some id → Stored db id
  retried : ∀ e ∈ es, ∀ sid, e.retrySid = some sid → first ≤ sid
  lost : ∀ e ∈ es, ∀ id, e.lost = some id → broadcast id (history w) = true
  reports : ∀ e ∈ es, e.lookup = none

/-- One step: a report looks for its deployment, or something else happens. -/
inductive ReportStep (first i : ℕ) (w w' : World Db Event) : Prop
  | looks (sid : Sid) (world : w' =
      w.extend i [.looked sid (w.store.deployments.find? sid).isSome] w.store)
  | other {es : List Event} {db : Db} (honest : Honest first w es db) (world : w' = w.extend i es db)

/-- The rows are those of the start and the created ones; whatever was dispatched or
replayed has a row, and retries have keys that were given out since the start. -/
structure ReportInvariant (first : ℕ) (w : World Db Event) : Prop where
  next : first ≤ w.store.deployments.next
  origin : ∀ id, Stored w.store id → id < first ∨ ∃ i, (i, .created id) ∈ w.log
  stored : ∀ entry ∈ w.log, ∀ id, entry.2.stored = some id → Stored w.store id
  retried : ∀ entry ∈ w.log, ∀ sid, entry.2.retrySid = some sid → first ≤ sid
  lost : ∀ entry ∈ w.log, ∀ id, entry.2.lost = some id → broadcast id (history w) = true
  reports : ReportsFound (history w) = ReportsInTime (history w)

/-- What was broadcast stays broadcast. -/
theorem broadcast_extend {sid : Sid} {i : ℕ} {w : World Db Event} {es : List Event} {db : Db}
    (h : broadcast sid (history w) = true) : broadcast sid (history (w.extend i es db)) = true := by
  unfold broadcast at h ⊢
  rw [history_extend, List.any_append, h, Bool.or_true]

/-- A report is found unless it comes between the broadcast of a retry and its
commit. -/
theorem ReportInvariant.found_iff {first : ℕ} {w : World Db Event} (h : ReportInvariant first w)
    (sid : Sid) :
    ((w.store.deployments.find? sid).isSome || !broadcast sid (history w)) =
      (!(history w).any (fun entry => entry.2.retrySid = some sid) ||
        (history w).any fun entry => entry.2 = .created sid) := by
  have hcreated : ((history w).any fun entry => entry.2 = .created sid) = true →
      Stored w.store sid := by
    intro hany
    obtain ⟨entry, hentry, heq⟩ := List.any_eq_true.mp hany
    refine h.stored entry (List.mem_reverse.mp hentry) sid ?_
    rw [of_decide_eq_true heq]
    rfl
  rcases hfind : w.store.deployments.find? sid with _ | row
  · have hmissing : ¬ Stored w.store sid := by
      rintro ⟨row, hrow⟩
      rw [hfind] at hrow
      cases hrow
    have hnot : ((history w).any fun entry => entry.2 = .created sid) = false :=
      Bool.eq_false_iff.mpr fun hany => hmissing (hcreated hany)
    have hsame : broadcast sid (history w) =
        (history w).any fun entry => entry.2.retrySid = some sid := by
      unfold broadcast
      rw [Bool.eq_iff_iff, List.any_eq_true, List.any_eq_true]
      refine exists_congr fun entry => and_congr_right fun hentry => ?_
      have hstored := h.stored entry (List.mem_reverse.mp hentry)
      cases he : entry.2 with
      | dispatched garden payload =>
        have hne : payload.sid ≠ sid := fun heq =>
          hmissing (hstored sid (by rw [he, ← heq]; rfl))
        simp [Event.broadcastSid, Event.retrySid, hne]
      | replayed garden payload =>
        have hne : payload.sid ≠ sid := fun heq =>
          hmissing (hstored sid (by rw [he, ← heq]; rfl))
        simp [Event.broadcastSid, Event.retrySid, hne]
      | _ => exact Iff.rfl
    rw [hnot, hsame, Bool.or_false]
    rfl
  · have hrow : Stored w.store sid := ⟨row, hfind⟩
    have hright : (!(history w).any (fun entry => entry.2.retrySid = some sid) ||
        (history w).any fun entry => entry.2 = .created sid) = true := by
      rcases hany : (history w).any fun entry => entry.2.retrySid = some sid with _ | _
      · rfl
      · obtain ⟨entry, hentry, heq⟩ := List.any_eq_true.mp hany
        have hfirst := h.retried entry (List.mem_reverse.mp hentry) sid (of_decide_eq_true heq)
        rcases h.origin sid hrow with hold | ⟨i, hmem⟩
        · exact absurd hold (Nat.not_lt.mpr hfirst)
        · refine List.any_eq_true.mpr ⟨(i, .created sid), List.mem_reverse.mpr hmem, ?_⟩
          exact decide_eq_true rfl
    rw [hright]
    rfl

/-- Whatever a step of a process does, the invariant is kept. -/
theorem ReportInvariant.step {first i : ℕ} {w w' : World Db Event} (h : ReportInvariant first w)
    (hstep : ReportStep first i w w') : ReportInvariant first w' := by
  cases hstep with
  | looks sid world =>
    subst world
    have hmem : ∀ {entry}, entry ∈ (w.extend i [.looked sid (w.store.deployments.find? sid).isSome]
        w.store).log → entry ∈ w.log ∨ entry = (i, .looked sid (w.store.deployments.find? sid).isSome) := by
      intro entry hentry
      simpa using hentry
    refine ⟨h.next, fun id hid => ?_, fun entry hentry id hid => ?_, fun entry hentry id hid => ?_,
      fun entry hentry id hid => ?_, ?_⟩
    · exact (h.origin id hid).imp_right fun ⟨j, hj⟩ => ⟨j, List.mem_append_left _ hj⟩
    · rcases hmem hentry with hold | rfl
      · exact h.stored entry hold id hid
      · cases hid
    · rcases hmem hentry with hold | rfl
      · exact h.retried entry hold id hid
      · cases hid
    · rcases hmem hentry with hold | rfl
      · exact broadcast_extend (h.lost entry hold id hid)
      · cases hid
    · have hhistory : history (w.extend i [.looked sid (w.store.deployments.find? sid).isSome]
          w.store) = (i, .looked sid (w.store.deployments.find? sid).isSome) :: history w := by
        simp [history]
      rw [hhistory, ReportsFound, ReportsInTime, h.reports]
      exact congrArg (· && ReportsInTime (history w)) (h.found_iff sid)
  | @other es db honest world =>
    subst world
    have hmem : ∀ {entry}, entry ∈ (w.extend i es db).log →
        entry ∈ w.log ∨ entry.2 ∈ es := by
      intro entry hentry
      refine (List.mem_append.mp hentry).imp_right fun hnew => ?_
      obtain ⟨e, he, rfl⟩ := List.mem_map.mp hnew
      exact he
    refine ⟨h.next.trans honest.keeps.next, fun id hid => ?_, fun entry hentry id hid => ?_,
      fun entry hentry id hid => ?_, fun entry hentry id hid => ?_, ?_⟩
    · rcases honest.origin id hid with hold | hnew
      · exact (h.origin id hold).imp_right fun ⟨j, hj⟩ => ⟨j, List.mem_append_left _ hj⟩
      · exact Or.inr ⟨i, List.mem_append_right _ (List.mem_map_of_mem hnew)⟩
    · rcases hmem hentry with hold | hnew
      · exact honest.keeps.stored id (h.stored entry hold id hid)
      · exact honest.stored entry.2 hnew id hid
    · rcases hmem hentry with hold | hnew
      · exact h.retried entry hold id hid
      · exact honest.retried entry.2 hnew id hid
    · rcases hmem hentry with hold | hnew
      · exact broadcast_extend (h.lost entry hold id hid)
      · exact broadcast_extend (honest.lost entry.2 hnew id hid)
    · have hquiet : ∀ e ∈ es.reverse, e.lookup = none :=
        fun e he => honest.reports e (List.mem_reverse.mp he)
      rw [history_extend, reportsFound_append hquiet, reportsInTime_append hquiet]
      exact h.reports

/-- A step keeps the rows and what was broadcast. -/
theorem ReportStep.keeps {first i : ℕ} {w w' : World Db Event} (h : ReportStep first i w w') :
    KeepsRows w.store w'.store := by
  cases h with
  | looks sid world =>
    subst world
    exact ⟨le_refl _, fun _ h => h⟩
  | other honest world =>
    subst world
    exact honest.keeps

theorem ReportStep.heard {first i : ℕ} {w w' : World Db Event} (h : ReportStep first i w w')
    (sid : Sid) (hsid : broadcast sid (history w) = true) : broadcast sid (history w') = true := by
  cases h with
  | looks sid world =>
    subst world
    exact broadcast_extend hsid
  | other honest world =>
    subst world
    exact broadcast_extend hsid

/-- The contract of broadcasts and reports: rows stay, and so does what was broadcast. -/
def reportContract (first : ℕ) : Contract Db Event where
  inv := ReportInvariant first
  rely _ w w' := KeepsRows w.store w'.store ∧
    ∀ sid, broadcast sid (history w) = true → broadcast sid (history w') = true
  guar := ReportStep first
  keeps hinv hstep := hinv.step hstep
  compatible := by
    intro i j w w' _ hstep
    exact ⟨hstep.keeps, hstep.heard⟩

end Contract

section Programs

variable {α : Type} {first i : ℕ} {platform : Platform}

/-- The event is of no interest to the contract. -/
structure Event.Mute (e : Event) : Prop where
  stored : e.stored = none
  retried : e.retrySid = none
  lost : e.lost = none
  lookup : e.lookup = none

theorem Event.Plain.mute {e : Event} (h : e.Plain) : e.Mute := by
  cases e <;> first | exact ⟨rfl, rfl, rfl, rfl⟩ | cases h

/-- Steps that neither give out keys nor log anything of interest. -/
theorem honest_of_mute {w : World Db Event} {es : List Event} {db : Db}
    (hnext : w.store.deployments.next ≤ db.deployments.next)
    (hstored : ∀ id, Stored db id ↔ Stored w.store id) (hes : ∀ e ∈ es, e.Mute) :
    Honest first w es db where
  keeps := ⟨hnext, fun id => (hstored id).mpr⟩
  origin id hid := Or.inl ((hstored id).mp hid)
  stored e he id hid := by
    rw [(hes e he).stored] at hid
    cases hid
  retried e he sid hsid := by
    rw [(hes e he).retried] at hsid
    cases hsid
  lost e he id hid := by
    rw [(hes e he).lost] at hid
    cases hid
  reports e he := (hes e he).lookup

theorem stored_map {db db' : Db} {f : Deployment → Deployment}
    (h : ∀ id, db'.deployments.find? id = (db.deployments.find? id).map f) (id : ℕ) :
    Stored db' id ↔ Stored db id := by
  unfold Stored
  rw [h id]
  rcases db.deployments.find? id with _ | row
  · simp
  · simp

/-- Kinds of steps that neither broadcast a deployment nor belong to a retry. -/
def unsentKinds : Set Kind := {.selects, .updates, .marks, .checks, .creates, .looks}

theorem reportStep_of_effect {w : World Db Event} {es : List Event} {db : Db}
    (h : Effect unsentKinds w.store es db) : ReportStep first i w (w.extend i es db) := by
  cases h with
  | idle deployments locks plain =>
    refine .other (honest_of_mute (by rw [deployments]) ?_ fun e he => (plain e he).mute) rfl
    intro id
    unfold Stored
    rw [deployments]
  | selected kind ids =>
    refine .other (honest_of_mute (le_refl _) (fun _ => Iff.rfl) ?_) rfl
    intro e he
    rw [List.mem_singleton.mp he]
    exact ⟨rfl, rfl, rfl, rfl⟩
  | @updated kind id attrs locked found kept =>
    have hstored := stored_map (find?_setDeployment w.store id attrs)
    refine .other (honest_of_mute ?_ hstored ?_) rfl
    · exact le_refl _
    · intro e he
      rw [List.mem_singleton.mp he]
      exact ⟨rfl, rfl, rfl, rfl⟩
  | marked kind ids dispatchedAt =>
    have hstored := stored_map (find?_markDispatched w.store ids dispatchedAt)
    refine .other (honest_of_mute ?_ hstored ?_) rfl
    · exact le_refl _
    · intro e he
      rw [List.mem_singleton.mp he]
      exact ⟨rfl, rfl, rfl, rfl⟩
  | checked kind gardenId contentHash =>
    refine .other (honest_of_mute (le_refl _) (fun _ => Iff.rfl) ?_) rfl
    intro e he
    rw [List.mem_singleton.mp he]
    exact ⟨rfl, rfl, rfl, rfl⟩
  | @created kind new parentless =>
    refine .other ⟨⟨Nat.le_succ _, fun id ⟨row, hrow⟩ => ⟨row, find?_insertDeployment hrow⟩⟩, ?_, ?_,
      ?_, ?_, ?_⟩ rfl
    · rintro id ⟨row, hrow⟩
      rcases Table.find?_insert_cases (fun _ => rfl) hrow with hold | hnew
      · exact Or.inl ⟨row, hold⟩
      · have hid := find?_id hrow
        rw [hnew] at hid
        exact Or.inr (List.mem_singleton.mpr (congrArg Event.created hid.symm))
    · intro e he id hid
      rw [List.mem_singleton.mp he] at hid
      cases hid
      exact ⟨_, Table.find?_insert_next fun _ => rfl⟩
    · intro e he sid hsid
      rw [List.mem_singleton.mp he] at hsid
      cases hsid
    · intro e he id hid
      rw [List.mem_singleton.mp he] at hid
      cases hid
    · intro e he
      rw [List.mem_singleton.mp he]
      rfl
  | looked kind sid => exact .looks sid rfl
  | _ => simp [unsentKinds] at *

/-- The contract ignores such steps. -/
theorem ignores_unsent : Ignores (reportContract first) unsentKinds := by
  refine ignores_of_effects fun i w es db _ heffect => ?_
  have hstep : ReportStep first i w (w.extend i es db) := reportStep_of_effect heffect
  exact ⟨hstep, hstep.keeps, hstep.heard⟩

theorem idle_unsent : Ignores (reportContract first) ∅ := ignores_unsent.mono (Set.empty_subset _)

theorem stored_stable (i id : ℕ) :
    (reportContract first).Stable i fun w => Stored w.store id :=
  fun _ _ hrely h => hrely.1.stored id h

/-- A deployment with a row is broadcast. -/
theorem send_sat {e : Event} {id : ℕ} {P : World Db Event → Prop}
    (hP : (reportContract first).Stable i P) (hrow : ∀ w, P w → Stored w.store id)
    (hstored : e.stored = some id) (hretried : e.retrySid = none) (hlost : e.lost = none)
    (hlookup : e.lookup = none) : (reportContract first).Sat i (Proc.emit e) P fun _ => P := by
  refine .atomic (fun w _ hw => ?_) fun _ => hP
  have hstep : ReportStep first i w (w.extend i [e] w.store) := by
    refine .other ⟨⟨le_refl _, fun _ h => h⟩, fun _ h => Or.inl h, ?_, ?_, ?_, ?_⟩ rfl
    · intro e' he id' hid
      rw [List.mem_singleton.mp he, hstored] at hid
      cases hid
      exact hrow w hw
    · intro e' he sid hsid
      rw [List.mem_singleton.mp he, hretried] at hsid
      cases hsid
    · intro e' he id' hid
      rw [List.mem_singleton.mp he, hlost] at hid
      cases hid
    · intro e' he
      rw [List.mem_singleton.mp he]
      exact hlookup
  exact ⟨hstep, hP ⟨hstep.keeps, hstep.heard⟩ hw⟩

/-- A search for a duplicate finds a row. -/
theorem findDuplicate_stored (gardenId : ℕ) (contentHash : String) (force : Bool) :
    (reportContract first).Sat i (findDuplicateDeployment gardenId contentHash force)
      (fun _ => True) fun found w => found.elim True fun existing => Stored w.store existing.id := by
  unfold findDuplicateDeployment
  split
  · exact .done fun _ _ => trivial
  · refine .atomic (fun w _ _ => ⟨?_, ?_⟩) fun found w w' hrely hw => ?_
    · exact reportStep_of_effect (.checked (by simp [unsentKinds]) gardenId contentHash)
    · rcases hfound : w.store.duplicate gardenId contentHash with _ | existing
      · exact trivial
      · have hmem := (List.mem_filter.mp (List.argmax_mem hfound)).1
        exact ⟨existing, Table.find?_of_mem hmem⟩
    · cases found with
      | none => trivial
      | some existing => exact stored_stable i existing.id hrely hw

/-- A created deployment has a row. -/
theorem create_stored {new : NewDeployment} (hnew : new.parentDeploymentId = none) :
    (reportContract first).Sat i (createDeployment new) (fun _ => True) fun created w =>
      created.elim True fun deployment => Stored w.store deployment.id := by
  refine .atomic (fun w _ _ => ?_) fun created w w' hrely hw => ?_
  · dsimp only [World.advance]
    split
    · exact ⟨reportStep_of_effect (.created (by simp [unsentKinds]) hnew), _,
        Table.find?_insert_next fun _ => rfl⟩
    · have hnothing : Effect unsentKinds w.store [] w.store := .idle rfl rfl (by simp)
      exact ⟨reportStep_of_effect hnothing, trivial⟩
  · cases created with
    | none => trivial
    | some deployment => exact stored_stable i deployment.id hrely hw

/-- The payload of a dispatch has a row. -/
theorem dispatch_stored {requestId : Sid} {gardenId : ℕ} {seedDeploys : List SeedDeployment}
    {subscriptions : List Subscription} {opts : DeployOpts} :
    (reportContract first).Sat i
      (dispatchSeedDeploys platform requestId gardenId seedDeploys subscriptions opts)
      (fun _ => True) (Dispatched (fun _ => True) (fun _ => True) (fun id w => Stored w.store id)
        (fun id w => Stored w.store id) seedDeploys) := by
  refine dispatch_rule idle_unsent (fun ids => ?_) (fun _ _ _ _ => trivial) (stored_stable i)
    (findDuplicate_stored _ _ _) fun now => create_stored rfl
  exact ignores_unsent (steps_cancelStaleForSubscriptions (by simp [unsentKinds])
    (by simp [unsentKinds]) ids)

/-- Either payload of a dispatch may be broadcast. -/
theorem sendDispatched_sat {garden : Sid} {payload : Wire.Deployment}
    {seedDeploys : List SeedDeployment} :
    (reportContract first).Sat i (Proc.emit (.dispatched garden payload))
      (Dispatched (fun _ => True) (fun _ => True) (fun id w => Stored w.store id)
        (fun id w => Stored w.store id) seedDeploys (.ok payload)) fun _ _ => True := by
  have hsend : (reportContract first).Sat i (Proc.emit (.dispatched garden payload))
      (fun w => Stored w.store payload.sid) fun _ w => Stored w.store payload.sid :=
    send_sat (stored_stable i payload.sid) (fun _ hw => hw) rfl rfl rfl rfl
  refine hsend.conseq (fun w hw => ?_) fun _ _ _ => trivial
  obtain ⟨_, hstored⟩ := hw
  split at hstored
  · exact hstored
  · exact hstored

/-- All the deployments have rows. -/
def AllStored (deployments : List Loaded) (w : World Db Event) : Prop :=
  ∀ loaded ∈ deployments, Stored w.store loaded.deployment.id

theorem allStored_stable (i : ℕ) (deployments : List Loaded) :
    (reportContract first).Stable i (AllStored deployments) :=
  fun _ _ hrely hw loaded hloaded => hrely.1.stored _ (hw loaded hloaded)

/-- A listed deployment has a row when it is replayed. -/
theorem reconcile_reports (garden : Garden) (now : DateTime) :
    (reportContract first).Sat i (reconcileDeploymentsOnConnect platform garden now)
      (fun _ => True) fun _ _ => True := by
  refine reconcile_rule AllStored AllStored idle_unsent (fun _ _ _ _ => trivial) (fun _ _ _ _ => trivial)
    (allStored_stable i) (fun _ _ => trivial) (fun _ _ _ => trivial) ?_ ?_ ?_ ?_
  · refine .atomic (fun w _ _ => ⟨?_, ?_⟩) (allStored_stable i)
    · exact reportStep_of_effect (.selected (by simp [unsentKinds]) _)
    · intro loaded hloaded
      obtain ⟨row, hrow, rfl⟩ := List.mem_map.mp hloaded
      have hmem := (List.mem_filter.mp ((List.mem_insertionSort _).mp hrow)).1
      exact ⟨row, Table.find?_of_mem hmem⟩
  · intro unresolved loaded _
    exact ignores_unsent (steps_cancelSuperseded (by simp [unsentKinds]) garden loaded) i _
      (allStored_stable i unresolved)
  · intro unresolved toReplay hsubset
    have hmark : (reportContract first).Harmless (markDeploymentsDispatched toReplay now) :=
      ignores_unsent (steps_markDeploymentsDispatched (by simp [unsentKinds]) toReplay now)
    exact (hmark i _ (allStored_stable i unresolved)).conseq (fun _ hw => hw)
      fun _ w hw loaded hloaded => hw loaded (hsubset hloaded)
  · intro toReplay loaded hloaded
    refine (idle_unsent steps_newRequestId i _ (allStored_stable i toReplay)).bind fun requestId => ?_
    exact send_sat (allStored_stable i toReplay) (fun w hw => hw loaded hloaded) rfl rfl rfl rfl

end Programs

section Transaction

variable {first i : ℕ} {platform : Platform}

/-- The key was given out since the start. -/
def GivenOut (first id : ℕ) (w : World Db Event) : Prop :=
  first ≤ id ∧ id < w.store.deployments.next

theorem givenOut_stable (first i id : ℕ) : (reportContract first).Stable i (GivenOut first id) :=
  fun _ _ hrely hw => ⟨hw.1, hw.2.trans_le hrely.1.next⟩

/-- Requests for locks and rollbacks before an insertion. -/
theorem harmless_mute {α : Type} {f : Db → (Db × List Event) × α}
    (hrows : ∀ db, (f db).1.1.deployments = db.deployments)
    (hes : ∀ db, ∀ e ∈ (f db).1.2, e.Mute) : (reportContract first).Harmless (Proc.atomic f) := by
  refine harmless_atomic fun i w _ => ?_
  have hstep : ReportStep first i w (w.advance i fun db => (f db).1) := by
    refine .other (honest_of_mute ?_ ?_ (hes w.store)) rfl
    · rw [hrows]
    · intro id
      unfold Stored
      rw [hrows]
  exact ⟨hstep, hstep.keeps, hstep.heard⟩

theorem harmless_tryLock (id : ℕ) :
    (reportContract first).Harmless (Proc.atomic fun db : Db => db.tryLock id) := by
  refine harmless_mute (fun db => ?_) fun db => ?_
  · rcases tryLock_cases db id with ⟨answer, h, _⟩ | ⟨deployment, _, _, h⟩ <;> rw [h]
  · rcases tryLock_cases db id with ⟨answer, h, _⟩ | ⟨deployment, _, _, h⟩
    · rw [h]
      simp
    · rw [h]
      intro e he
      rw [List.mem_singleton.mp he]
      exact ⟨rfl, rfl, rfl, rfl⟩

theorem harmless_rollback (id : ℕ) (reason : RetryError) :
    (reportContract first).Harmless (rollback id reason) := by
  refine harmless_mute (fun db => rfl) fun db e he => ?_
  rw [List.mem_singleton.mp he]
  exact ⟨rfl, rfl, rfl, rfl⟩

/-- A retry has a key that was given out since the start. -/
theorem honest_announced {w : World Db Event} {id garden : ℕ} {payload : Wire.Deployment}
    (hfirst : first ≤ payload.sid) : Honest first w [.retried id garden payload] w.store where
  keeps := ⟨le_refl _, fun _ h => h⟩
  origin _ h := Or.inl h
  stored := by simp [Event.stored]
  retried := by simpa [Event.retrySid] using hfirst
  lost := by simp [Event.lost]
  reports := by simp [Event.lookup]

/-- A retry that is lost was broadcast before. -/
theorem honest_rolledBack {w : World Db Event} {id : ℕ} {retry : Deployment}
    (hheard : broadcast retry.id (history w) = true) :
    Honest first w [.rolledBack retry.id, .unlocked id] (w.store.unlock id) where
  keeps := ⟨le_refl _, fun _ h => h⟩
  origin _ h := Or.inl h
  stored := by simp [Event.stored]
  retried := by simp [Event.retrySid]
  lost := by simpa [Event.lost] using hheard
  reports := by simp [Event.lookup]

/-- A retry that is committed has a row from then on. -/
theorem honest_committed {w : World Db Event} {id : ℕ} {retry : Deployment} {actor : Sid}
    (hgiven : retry.id < w.store.deployments.next) :
    Honest first w [.created retry.id, .audit retry.id .created .userRetry (some actor) none,
      .unlocked id] (w.store.commitRetry id retry) where
  keeps := ⟨(Table.place_next (r := retry)).ge, fun _ ⟨row, hrow⟩ =>
    ⟨row, Table.find?_place_of_some hrow⟩⟩
  origin := by
    rintro id' ⟨row, hrow⟩
    obtain ⟨hmem, hid⟩ := Table.find?_eq_some_iff.mp hrow
    rcases Table.mem_place_cases hmem with hold | ⟨rfl, _⟩
    · exact Or.inl ⟨row, Table.find?_eq_some_iff.mpr ⟨hold, hid⟩⟩
    · subst hid
      exact Or.inr List.mem_cons_self
  stored := by
    have hrow : Stored (w.store.commitRetry id retry) retry.id := Table.exists_find?_place hgiven
    simpa [Event.stored] using hrow
  retried := by simp [Event.retrySid]
  lost := by simp [Event.lost]
  reports := by simp [Event.lookup]

theorem endRetry_reports {id : ℕ} {retry : Deployment} {actor : Sid} (commits : Bool) :
    (reportContract first).Sat i (endRetry id retry actor commits)
      (fun w => GivenOut first retry.id w ∧ broadcast retry.id (history w) = true)
      fun _ _ => True := by
  unfold endRetry
  cases commits with
  | false =>
    exact .atomic (fun w _ hw => ⟨.other (honest_rolledBack hw.2) rfl, trivial⟩) fun _ _ _ _ _ => trivial
  | true =>
    exact .atomic (fun w _ hw => ⟨.other (honest_committed hw.1.2) rfl, trivial⟩) fun _ _ _ _ _ => trivial

/-- A retry is inserted under the next key and broadcast before its transaction ends. -/
theorem insertRetry_reports (loaded : Loaded) (ordinal : ℕ) (now : DateTime) (actor : Sid)
    (commits : Bool) :
    (reportContract first).Sat i (insertRetry loaded ordinal now actor commits) (fun _ => True)
      fun _ _ => True := by
  have hreserve : (reportContract first).Sat i (reserveRetry loaded ordinal now) (fun _ => True)
      fun retry w => ∀ r, retry = some r → GivenOut first r.deployment.id w := by
    refine .atomic (fun w hinv _ => ?_) fun retry w w' hrely hw r hr =>
      givenOut_stable first i r.deployment.id hrely (hw r hr)
    dsimp only [World.advance]
    split
    · have hreserved : Honest first w [] w.store.reserveDeployment :=
        honest_of_mute (Nat.le_succ _) (fun _ => Iff.rfl) (by simp)
      refine ⟨.other hreserved rfl, ?_⟩
      rintro r ⟨⟩
      exact ⟨hinv.next, Nat.lt_succ_self _⟩
    · have hnothing : Honest first w [] w.store :=
        honest_of_mute (le_refl _) (fun _ => Iff.rfl) (by simp)
      refine ⟨.other hnothing rfl, ?_⟩
      rintro r ⟨⟩
  refine hreserve.bind fun retry => ?_
  cases retry with
  | none =>
    exact (harmless_rollback _ _ i _ fun _ _ _ _ => trivial).conseq (fun _ _ => trivial) fun _ _ hw => hw
  | some retry =>
    have hgiven := givenOut_stable first i retry.deployment.id
    refine Sat.conseq (P := GivenOut first retry.deployment.id) ?_ (fun w hw => hw retry rfl)
      fun _ _ hw => hw
    refine (idle_unsent steps_newRequestId i _ hgiven).bind fun requestId => ?_
    have hannounce : (reportContract first).Sat i (Proc.emit (.retried loaded.deployment.id
        retry.deployment.gardenId (deploymentEventPayload retry requestId)))
        (GivenOut first retry.deployment.id) fun _ w =>
          GivenOut first retry.deployment.id w ∧ broadcast retry.deployment.id (history w) = true := by
      refine .atomic (fun w _ hw => ⟨.other (honest_announced hw.1) rfl, hw, ?_⟩) ?_
      · simp [broadcast, history, Event.broadcastSid, deploymentEventPayload]
      · exact fun _ w w' hrely hw => ⟨hgiven hrely hw.1, hrely.2 _ hw.2⟩
    exact hannounce.bind fun _ => endRetry_reports commits

/-- Every transaction keeps the contract. -/
theorem retryTransaction_reports (id userId patience : ℕ) (commits : Bool) :
    (reportContract first).Sat i (retryTransaction platform id userId patience commits)
      (fun _ => True) fun _ _ => True := by
  have htrue : (reportContract first).Stable i fun _ => True := fun _ _ _ _ => trivial
  refine (idle_unsent (steps_read _) i _ htrue).bind fun user => ?_
  cases user with
  | none => exact .done fun _ _ => trivial
  | some user =>
    refine (harmless_lockDeployment (harmless_tryLock id) patience i _ htrue).bind fun answer => ?_
    cases answer with
    | held => exact .done fun _ _ => trivial
    | missing => exact .done fun _ _ => trivial
    | acquired deployment =>
      refine (idle_unsent (steps_read _) i _ htrue).bind fun loaded => ?_
      split
      · exact harmless_rollback _ _ i _ htrue
      · split
        · exact harmless_rollback _ _ i _ htrue
        · refine (idle_unsent (steps_read _) i _ htrue).bind fun busy => ?_
          split
          · exact harmless_rollback _ _ i _ htrue
          · refine (idle_unsent (steps_read _) i _ htrue).bind fun maxRetryOrdinal => ?_
            refine (idle_unsent steps_utcNow i _ htrue).bind fun now => ?_
            exact insertRetry_reports loaded _ now user.id commits

end Transaction

section Runs

variable {platform : Platform}

/-- All running programs keep the contract. -/
theorem concurrent_reports {first : ℕ} {p : Program PUnit} (h : Concurrent platform {.retries}ᶜ p)
    (i : ℕ) : (reportContract first).Sat i p (fun _ => True) fun _ _ => True := by
  have htrue : (reportContract first).Stable i fun _ => True := fun _ _ _ _ => trivial
  cases h with
  | @operation operation hallowed =>
    have hunsent (hkinds : operation.kinds ⊆ unsentKinds) :
        (reportContract first).Sat i (operation.program platform) (fun _ => True) fun _ _ => True :=
      ignores_unsent ((steps_operation operation).mono fun _ _ _ heffect => heffect.mono hkinds) i _ htrue
    cases operation with
    | processDeployment job =>
      exact job_rule idle_unsent htrue (fun _ _ => trivial) (fun _ _ => trivial)
        (fun gardenId seedDeploys => dispatch_stored) fun seedDeploys payload => sendDispatched_sat
    | deployDirect garden seed opts =>
      refine Sat.bind ?_ fun _ => .done fun _ hw => hw
      exact deployDirect_rule idle_unsent htrue (fun _ _ => trivial) (fun _ _ => trivial)
        (fun requestId seedDeploys subscriptions action override => dispatch_stored)
        fun seedDeploys payload => sendDispatched_sat
    | reconcileDeploymentsOnConnect garden now =>
      exact (reconcile_reports garden now).bind fun _ => .done fun _ hw => hw
    | retryDeployment id userId => exact absurd rfl (hallowed rfl)
    | _ => exact hunsent (by simp [Operation.kinds, unsentKinds, Set.insert_subset_iff])
  | retry hallowed id userId patience commits =>
    exact (retryTransaction_reports id userId patience commits).bind fun _ => .done fun _ hw => hw

/-- In every interleaving, broadcasts follow commits exactly when no report on a retry
arrives between its broadcast and its commit and no transaction is rolled back that
has inserted its retry. -/
theorem broadcastFollowsCommit_iff {db : Db} {c : Pool Db Event}
    (hreach : Reachable (Concurrent platform {.retries}ᶜ) (Pool.start db) c) :
    BroadcastFollowsCommit (history c.world) = true ↔ CommittedFirst (history c.world) = true := by
  have hinv : ReportInvariant db.deployments.next (Pool.start db).world := by
    refine ⟨le_refl _, fun id ⟨row, hrow⟩ => Or.inl ?_, ?_, ?_, ?_, rfl⟩
    · obtain ⟨hmem, rfl⟩ := Table.find?_eq_some_iff.mp hrow
      exact db.deployments.fresh row hmem
    · exact fun entry hentry => (by cases hentry)
    · exact fun entry hentry => (by cases hentry)
    · exact fun entry hentry => (by cases hentry)
  have hholds := holds_of_reachable (Q := fun _ _ => True)
    (fun p hp i => concurrent_reports hp i) ⟨hinv, by simp [Pool.start]⟩ hreach
  have hreports := hholds.1.reports
  have hlost := lostUnheard_eq fun entry hentry => hholds.1.lost entry (List.mem_reverse.mp hentry)
  unfold BroadcastFollowsCommit CommittedFirst
  rw [hreports, hlost]

/-- A retry of the failed deployment, and the garden's result for it. -/
def retryAndResult : List (Program PUnit) :=
  [discard (retryTransaction .plain 1 1 1 true),
    Operation.program .plain (.recordDeployment 2 .success 5)]

theorem retryAndResult_concurrent : ∀ p ∈ retryAndResult, Concurrent .plain {.retries}ᶜ p := by
  intro p hp
  simp only [retryAndResult, List.mem_cons, List.not_mem_nil, or_false] at hp
  rcases hp with rfl | rfl
  · exact .retry (by simp) 1 1 1 true
  · exact .operation (by simp [Operation.kinds])

/-- A result that arrives after the commit is found. -/
theorem broadcastFollowsCommit_iff_after :
    BroadcastFollowsCommit
      (history (started oneFailed retryAndResult [0, 0, 0, 0, 0, 0, 0, 0, 0, 0, 1]).world) = true :=
  (broadcastFollowsCommit_iff (started_reachable retryAndResult_concurrent)).mpr (by decide)

/-- The retry is broadcast, the garden's result looks for it in vain, the transaction
commits. -/
theorem broadcastFollowsCommit_fails_before_commit :
    ¬ ∀ (platform : Platform) (db : Db) (c : Pool Db Event),
      Reachable (Concurrent platform {.retries}ᶜ) (Pool.start db) c →
        BroadcastFollowsCommit (history c.world) = true := by
  intro h
  have hfollows := h .plain oneFailed
    (started oneFailed retryAndResult [0, 0, 0, 0, 0, 0, 0, 0, 0, 1, 0])
    (started_reachable retryAndResult_concurrent)
  revert hfollows
  decide

end Runs

end Sower.Server
