import Sower.Server.RetryTransaction

/-!
# Retries and the policies of subscriptions

A user's retry is a manual deployment as far as policies go, but a retry looks at
no policy. It agrees with a manual deployment where it is refused for other
reasons or where all linked subscriptions would permit it.
-/

namespace Sower.Server

open Sower.Calendar Sower.Policy Sower.Wire Process Proc Keyed

section Policies

/-- The policy of the subscription allows some action under the trigger. -/
def Subscription.permits (platform : Platform) (trigger : Trigger) (now : DateTime)
    (subscription : Subscription) : Bool :=
  match evaluate platform.tzdb (.list subscription.policy) trigger now
    (some subscription.seedType) subscription.timezone with
  | .ok (.allow _) => true
  | _ => false

/-- A user's deployment of a subscription is accepted exactly when its policy permits
a manual deployment. -/
theorem deploySubscription_iff_permits {platform : Platform} {db : Db} {subscription : Subscription}
    {garden : Garden} (hgarden : db.gardens.find? subscription.gardenId = some garden) :
    (∃ job, (deploySubscription platform subscription { eventReason := some .userRetry } none).result db =
      .ok job) ↔ subscription.permits platform .manual (db.clock db.reads) = true := by
  unfold deploySubscription deployForGarden Subscription.permits utcNow newRequestId
  simp only [result_bind, result_read, final_read, hgarden, Option.elim_some, triggerForReason,
    result_atomic, final_atomic]
  rcases evaluate platform.tzdb (.list subscription.policy) .manual (db.clock db.reads)
    (some subscription.seedType) subscription.timezone with reason | (action | action | _)
  · simp
  · simp
  · simp
  · simp

/-- Every subscription that is linked to the deployment permits a retry by a user at
the time. -/
def Db.retryPermitted (db : Db) (platform : Platform) (id : ℕ) : Bool :=
  (db.deployments.find? id).all fun deployment =>
    (db.load platform deployment).subscriptions.all fun subscription =>
      (triggerForReason .userRetry).any fun trigger =>
        subscription.permits platform trigger (db.clock db.reads)

end Policies

section Retries

/-- The deployment can be retried by the user: it is one of the user's organisation,
has a result, has no unresolved retry, and its links can be inserted again. -/
def Db.retryable (db : Db) (platform : Platform) (id userId : ℕ) : Bool :=
  (db.users.find? userId).any fun user => (db.deployments.find? id).any fun deployment =>
    user.orgId = deployment.orgId &&
      (deployment.result = some .success || deployment.result = some .failure) &&
      !db.retryInProgress id &&
      db.linkable (retryRow (db.load platform deployment) (db.maxRetryOrdinal id + 1)
        (db.clock db.reads))

/-- The retry leaves the deployments as they are and does nothing else of note. -/
def ChangesNothing (platform : Platform) (db : Db) (id userId : ℕ) : Prop :=
  ((retryDeployment platform id userId).final db).deployments = db.deployments ∧
    (retryDeployment platform id userId).events db = []

/-- A retry is authorised like a manual deployment: unless the policies of all linked
subscriptions permit it, it changes nothing. -/
def AuthorisedLikeManual (platform : Platform) (db : Db) (id userId : ℕ) : Prop :=
  db.retryPermitted platform id = true ∨ ChangesNothing platform db id userId

/-- An insertion that violates a constraint changes nothing; any other one is
broadcast. -/
theorem insertRetry_keeps_iff (db : Db) (parent : Loaded) (ordinal : ℕ) (now : DateTime)
    (actor : Sid) :
    ((db.insertRetry parent ordinal now actor).1.1.deployments = db.deployments ∧
        (db.insertRetry parent ordinal now actor).1.2 = []) ↔
      db.linkable (retryRow parent ordinal now) = false := by
  unfold Db.insertRetry
  rcases db.linkable (retryRow parent ordinal now) with _ | _
  · simp
  · simp

/-- A retry that is refused changes nothing; any other one creates and broadcasts a
child. -/
theorem changesNothing_iff (platform : Platform) (db : Db) (id userId : ℕ) :
    ChangesNothing platform db id userId ↔ db.retryable platform id userId = false := by
  have hkeeps : ChangesNothing platform db id userId ↔
      ((retryDeployment platform id userId).final db).deployments = db.deployments ∧
        (retryDeployment platform id userId).events db = [] := Iff.rfl
  rw [hkeeps]
  unfold retryDeployment Db.retryable
  rw [final_atomic, events_atomic]
  rcases huser : db.users.find? userId with _ | user
  · simp
  · rcases hfind : db.deployments.find? id with _ | deployment
    · simp
    · dsimp only [Option.any_some]
      by_cases horg : user.orgId = deployment.orgId
      · rw [if_neg (not_not.mpr horg), decide_eq_true horg, Bool.true_and]
        by_cases hresult : deployment.result ≠ some .success ∧ deployment.result ≠ some .failure
        · rw [if_pos hresult, decide_eq_false hresult.1, decide_eq_false hresult.2]
          simp
        · have hfinished : (decide (deployment.result = some .success) ||
              decide (deployment.result = some .failure)) = true := by
            by_contra hnot
            simp only [Bool.or_eq_true, decide_eq_true_eq, not_or] at hnot
            exact hresult hnot
          rw [if_neg hresult, hfinished, Bool.true_and]
          have hbusy : (db.deployments.rows.any fun d =>
              d.parentDeploymentId = some id && !d.state.terminal) = db.retryInProgress id := rfl
          have hlinkable : db.tick.linkable (retryRow (db.load platform deployment)
              (db.maxRetryOrdinal id + 1) (db.clock db.reads)) =
                db.linkable (retryRow (db.load platform deployment)
                  (db.maxRetryOrdinal id + 1) (db.clock db.reads)) := rfl
          rw [hbusy]
          rcases db.retryInProgress id with _ | _
          · rw [if_neg Bool.false_ne_true, Bool.not_false, Bool.true_and, ← hlinkable]
            exact insertRetry_keeps_iff _ _ _ _ _
          · simp
      · rw [if_pos horg, decide_eq_false horg]
        simp

/-- A retry is authorised like a manual deployment exactly when it is refused anyway
or all linked subscriptions permit a manual deployment at its time. -/
theorem authorisedLikeManual_iff (platform : Platform) (db : Db) (id userId : ℕ) :
    AuthorisedLikeManual platform db id userId ↔
      db.retryable platform id userId = false ∨ db.retryPermitted platform id = true := by
  unfold AuthorisedLikeManual
  rw [changesNothing_iff, or_comm]

/-- A failed deployment of a subscription that is deployed on its schedule only. -/
def scheduledOnlyFailed : Db :=
  { clock := fun n => n
    gardens := Table.empty.insert (fun id => ⟨id, [], some "Etc/UTC"⟩) fun _ => rfl
    seeds := Table.empty.insert (fun id => ⟨id, "web", "nixos", "/nix/store/a", [], 0⟩) fun _ => rfl
    subscriptions := Table.empty.insert (fun id => ⟨id, 1, "web", "web", "nixos", [], none, none,
      [{ actions := ["activate"], triggers := some ["scheduled"] }], 0⟩) fun _ => rfl
    users := oneUser
    : Db }.insertDeployment
      { gardenId := 1, seeds := [1], subscriptions := [1], state := .dispatched
        lastDispatchedAt := none, contentHash := "1" } |>.setDeployment 1
      { state := .completed, result := some .failure }

/-- A user's retry of it is broadcast although a manual deployment is denied. -/
theorem authorisedLikeManual_fails_when_scheduled_only :
    ¬ ∀ (platform : Platform) (db : Db) (id userId : ℕ),
      AuthorisedLikeManual platform db id userId := by
  intro h
  rcases h Platform.plain scheduledOnlyFailed 1 1 with hpermitted | ⟨_, hevents⟩
  · exact absurd hpermitted (by decide)
  · exact absurd hevents (by decide)

end Retries

end Sower.Server
