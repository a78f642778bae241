import Sower.Server.Contract
import Sower.Server.Reopening

/-!
# Retries of one deployment

While a transaction holds the lock of a deployment, nobody else adds retries of
it; others may only resolve the ones there are. So what the transaction has
read about them, that all are resolved and how many there are, still holds when
its own retry becomes visible.
-/

namespace Sower.Server

open Sower.Calendar Sower.Policy Sower.Wire Process Proc Keyed Interleaving Contract

section Retries

/-- The retries of a deployment in the order of their creation. -/
def Db.retries (db : Db) (parent : ℕ) : List Deployment :=
  db.deployments.rows.filter fun d => d.parentDeploymentId = some parent

/-- At most one retry is unresolved, and the ordinals count the retries. -/
structure Disciplined (parent : ℕ) (db : Db) : Prop where
  unresolved : (db.retries parent).countP (fun d => !d.state.terminal) ≤ 1
  ordinals : (db.retries parent).map Deployment.retryOrdinal =
    (List.range' 1 (db.retries parent).length).map some

instance (parent : ℕ) (db : Db) : Decidable (Disciplined parent db) :=
  decidable_of_iff
    ((db.retries parent).countP (fun d => !d.state.terminal) ≤ 1 ∧
      (db.retries parent).map Deployment.retryOrdinal =
        (List.range' 1 (db.retries parent).length).map some)
    ⟨fun h => ⟨h.1, h.2⟩, fun h => ⟨h.unresolved, h.ordinals⟩⟩

/-- The retries are the same ones as before, each as one that follows it. -/
def RetriesFollow (parent : ℕ) (db db' : Db) : Prop :=
  List.Forall₂ Deployment.Follows (db.retries parent) (db'.retries parent)

variable {parent : ℕ} {db db' : Db}

theorem retriesFollow_of_rows (h : db'.deployments.rows = db.deployments.rows) :
    RetriesFollow parent db db' := by
  unfold RetriesFollow Db.retries
  rw [h]
  exact List.forall₂_same.mpr fun row _ => .refl row

/-- Rows rewritten in place. -/
theorem retriesFollow_update {p : Deployment → Bool} {f : Deployment → Deployment}
    (hf : ∀ d, (f d).id = d.id) (h : db'.deployments = db.deployments.update p f hf)
    (hparent : ∀ d, (f d).parentDeploymentId = d.parentDeploymentId)
    (hfollows : ∀ d ∈ db.deployments.rows, p d = true → d.Follows (f d)) :
    RetriesFollow parent db db' := by
  have hretries : db'.retries parent = (db.retries parent).map fun d => if p d then f d else d := by
    unfold Db.retries
    rw [h]
    change (db.deployments.rows.map fun d => if p d then f d else d).filter _ = _
    rw [List.filter_map]
    congr 1
    refine List.filter_congr fun d _ => ?_
    dsimp only [Function.comp]
    split
    · rw [hparent]
    · rfl
  unfold RetriesFollow
  rw [hretries, List.forall₂_map_right_iff]
  refine List.forall₂_same.mpr fun d hd => ?_
  split
  · rename_i hp
    exact hfollows d (List.mem_filter.mp hd).1 hp
  · exact .refl d

/-- Steps that neither insert a retry nor belong to a transaction. -/
theorem Effect.retriesFollow {kinds : Set Kind} {es : List Event} (hretries : .retries ∉ kinds)
    (htransacts : .transacts ∉ kinds) (h : Effect kinds db es db') : RetriesFollow parent db db' := by
  cases h with
  | idle deployments locks plain => exact retriesFollow_of_rows (by rw [deployments])
  | selected kind ids => exact retriesFollow_of_rows rfl
  | @updated kind id attrs locked found kept =>
    refine retriesFollow_update (Deployment.apply_id attrs) rfl (fun d => rfl) fun d hd hid => ?_
    have hlocked : d = locked := by
      have hfind := Table.find?_of_mem hd
      rw [beq_iff_eq.mp hid, found] at hfind
      exact (Option.some.inj hfind).symm
    rw [hlocked]
    exact Deployment.follows_apply kept
  | marked kind ids dispatchedAt =>
    refine retriesFollow_update (Deployment.redispatch_id dispatchedAt) rfl (fun d => rfl) ?_
    intro d hd hmarked
    have hopen : d.state.terminal = false := by simpa using ((Bool.and_eq_true _ _).mp hmarked).2
    exact Deployment.follows_redispatch hopen
  | checked kind gardenId contentHash => exact retriesFollow_of_rows rfl
  | @created kind new parentless =>
    have hsame : (db.insertDeployment new).retries parent = db.retries parent := by
      unfold Db.retries
      change (db.deployments.rows ++ [db.newRow new db.deployments.next]).filter _ = _
      rw [List.filter_append, List.filter_cons_of_neg (by simp [Db.newRow, parentless])]
      simp
    unfold RetriesFollow
    rw [hsame]
    exact List.forall₂_same.mpr fun row _ => .refl row
  | retried kind => exact absurd kind hretries
  | looked kind sid => exact retriesFollow_of_rows rfl
  | dispatched kind garden payload => exact retriesFollow_of_rows rfl
  | replayed kind garden payload => exact retriesFollow_of_rows rfl
  | locked kind free => exact absurd kind htransacts
  | reserved kind => exact absurd kind htransacts
  | announced kind parent garden payload => exact absurd kind htransacts
  | committed kind id retry actor => exact absurd kind htransacts
  | unlocked kind id => exact absurd kind htransacts
  | rolledBack kind id retry => exact absurd kind htransacts

/-- Only transactions take and release locks. -/
theorem Effect.locks {kinds : Set Kind} {es : List Event} (htransacts : .transacts ∉ kinds)
    (h : Effect kinds db es db') : db'.locks = db.locks := by
  cases h with
  | idle deployments locks plain => exact locks
  | @retried kind loaded ordinal now actor =>
    unfold Db.insertRetry
    split <;> rfl
  | locked kind free => exact absurd kind htransacts
  | committed kind id retry actor => exact absurd kind htransacts
  | unlocked kind id => exact absurd kind htransacts
  | rolledBack kind id retry => exact absurd kind htransacts
  | _ => rfl

/-- Retries that follow the earlier ones are no less disciplined. -/
theorem Disciplined.follow (h : Disciplined parent db) (hfollow : RetriesFollow parent db db') :
    Disciplined parent db' := by
  have hunresolved : ∀ {old new : List Deployment}, List.Forall₂ Deployment.Follows old new →
      new.countP (fun d => !d.state.terminal) ≤ old.countP fun d => !d.state.terminal := by
    intro old new hall
    induction hall with
    | nil => exact le_refl _
    | @cons a b as bs hab _ ih =>
      rw [List.countP_cons, List.countP_cons]
      rcases ha : a.state.terminal with _ | _
      · simp only [Bool.not_false, if_true]
        split <;> omega
      · rw [hab.terminal ha]
        simpa using ih
  have hordinals : ∀ {old new : List Deployment}, List.Forall₂ Deployment.Follows old new →
      new.map Deployment.retryOrdinal = old.map Deployment.retryOrdinal := by
    intro old new hall
    induction hall with
    | nil => rfl
    | cons hab _ ih => rw [List.map_cons, List.map_cons, hab.retryOrdinal, ih]
  refine ⟨(hunresolved hfollow).trans h.unresolved, ?_⟩
  rw [hordinals hfollow, h.ordinals, hfollow.length_eq]

/-- A retry behind resolved ones, under the next ordinal. -/
theorem Disciplined.append (h : Disciplined parent db) {retry : Deployment}
    (hresolved : ∀ d ∈ db.retries parent, d.state.terminal = true)
    (hordinal : retry.retryOrdinal = some ((db.retries parent).length + 1))
    (hretries : db'.retries parent = db.retries parent ++ [retry]) : Disciplined parent db' := by
  refine ⟨?_, ?_⟩
  · have hnone : (db.retries parent).countP (fun d => !d.state.terminal) = 0 := by
      rw [List.countP_eq_zero]
      intro d hd
      simp [hresolved d hd]
    rw [hretries, List.countP_append, hnone, Nat.zero_add]
    exact List.countP_le_length
  · rw [hretries, List.map_append, h.ordinals, List.length_append, List.length_singleton,
      List.range'_1_concat, List.map_append, List.map_singleton, List.map_singleton, hordinal,
      Nat.add_comm 1]

/-- Among disciplined retries the highest ordinal is their number. -/
theorem Disciplined.maxRetryOrdinal (h : Disciplined parent db) :
    db.maxRetryOrdinal parent = (db.retries parent).length := by
  have hmax : ∀ n, (List.range' 1 n).foldl max 0 = n := by
    intro n
    induction n with
    | zero => rfl
    | succ n ih =>
      rw [List.range'_1_concat, List.foldl_append, ih, List.foldl_cons, List.foldl_nil]
      omega
  have hordinals : (db.retries parent).filterMap Deployment.retryOrdinal =
      List.range' 1 (db.retries parent).length := by
    calc (db.retries parent).filterMap Deployment.retryOrdinal
        = ((db.retries parent).map Deployment.retryOrdinal).filterMap id := by
          rw [List.filterMap_map]
          rfl
      _ = List.range' 1 (db.retries parent).length := by
          rw [h.ordinals, List.filterMap_map]
          exact List.filterMap_some
  change ((db.retries parent).filterMap Deployment.retryOrdinal).foldl max 0 = _
  rw [hordinals, hmax]

/-- Without a retry in progress all retries are resolved. -/
theorem resolved_of_not_retryInProgress (h : db.retryInProgress parent = false) :
    ∀ d ∈ db.retries parent, d.state.terminal = true := by
  intro d hd
  obtain ⟨hmem, hparent⟩ := List.mem_filter.mp hd
  have hnot := List.any_eq_false.mp h d hmem
  rw [hparent, Bool.true_and] at hnot
  simpa using hnot

end Retries

section Lock

/-- What the event of process `i` says about the lock of the parent. -/
def Event.holder (parent i : ℕ) : Event → Option (Option ℕ)
  | .locked id => if id = parent then some (some i) else none
  | .unlocked id => if id = parent then some none else none
  | _ => none

/-- The process whose transaction holds the lock of the parent. -/
def holder (parent : ℕ) : History → Option ℕ
  | [] => none
  | (i, e) :: earlier => (e.holder parent i).getD (holder parent earlier)

/-- Only the events of transactions say something about locks. -/
theorem Effect.holder {kinds : Set Kind} {db db' : Db} {es : List Event} {parent i : ℕ}
    (htransacts : .transacts ∉ kinds) (h : Effect kinds db es db') :
    ∀ e ∈ es, e.holder parent i = none := by
  intro e he
  cases h with
  | idle deployments locks plain =>
    have hplain := plain e he
    cases e with
    | locked id => cases hplain
    | unlocked id => cases hplain
    | _ => rfl
  | @retried kind loaded ordinal now actor =>
    unfold Db.insertRetry at he
    split at he
    · simp only [List.mem_cons, List.not_mem_nil, or_false] at he
      rcases he with rfl | rfl | rfl <;> rfl
    · cases he
  | locked kind free => exact absurd kind htransacts
  | reserved kind => exact absurd kind htransacts
  | announced kind parent garden payload => exact absurd kind htransacts
  | committed kind id retry actor => exact absurd kind htransacts
  | unlocked kind id => exact absurd kind htransacts
  | rolledBack kind id retry => exact absurd kind htransacts
  | _ =>
    rw [List.mem_singleton.mp he]
    rfl

/-- Events that say nothing about the lock. -/
theorem holder_extend {parent i : ℕ} {w : World Db Event} {es : List Event} {db : Db}
    (hes : ∀ e ∈ es, e.holder parent i = none) :
    holder parent (history (w.extend i es db)) = holder parent (history w) := by
  rw [history_extend]
  refine append_unchanged fun e he earlier => ?_
  rw [holder, hes e (List.mem_reverse.mp he), Option.getD_none]

/-- A step that leaves the lock and the retries to whoever holds the lock. -/
structure Leaves (parent : ℕ) (w w' : World Db Event) : Prop where
  locks : w'.store.locks.count parent = w.store.locks.count parent
  holder : holder parent (history w') = holder parent (history w)
  retries : RetriesFollow parent w.store w'.store

/-- All that a step of process `i` does about the retries of the parent. -/
inductive RetryStep (parent i : ℕ) (w w' : World Db Event) : Prop
  | leaves (leaves : Leaves parent w w')
  | locks (free : holder parent (history w) = none)
      (locked : w'.store.locks.count parent = 1)
      (held : holder parent (history w') = some i) (retries : RetriesFollow parent w.store w'.store)
  | ends (held : holder parent (history w) = some i)
      (unlocked : w'.store.locks.count parent = 0)
      (free : holder parent (history w') = none) (retries : RetriesFollow parent w.store w'.store)
  | commits (held : holder parent (history w) = some i)
      (unlocked : w'.store.locks.count parent = 0)
      (free : holder parent (history w') = none)
      (resolved : ∀ d ∈ w.store.retries parent, d.state.terminal = true) {retry : Deployment}
      (ordinal : retry.retryOrdinal = some ((w.store.retries parent).length + 1))
      (retries : w'.store.retries parent = w.store.retries parent ++ [retry])

/-- The lock is taken once at most, and only while a transaction holds it. -/
structure RetryInvariant (parent : ℕ) (w : World Db Event) : Prop where
  locks : w.store.locks.count parent = (holder parent (history w)).toList.length
  disciplined : Disciplined parent w.store

/-- While a process holds the lock, the others only resolve retries. -/
def retryContract (parent : ℕ) : Contract Db Event where
  inv := RetryInvariant parent
  rely i w w' := holder parent (history w) = some i →
    holder parent (history w') = some i ∧ RetriesFollow parent w.store w'.store
  guar := RetryStep parent
  keeps := by
    rintro i w w' ⟨hlocks, hdisciplined⟩ hstep
    cases hstep with
    | leaves leaves =>
      refine ⟨?_, hdisciplined.follow leaves.retries⟩
      rw [leaves.locks, hlocks, leaves.holder]
    | locks free locked held retries =>
      refine ⟨?_, hdisciplined.follow retries⟩
      rw [locked, held]
      rfl
    | ends held unlocked free retries =>
      refine ⟨?_, hdisciplined.follow retries⟩
      rw [unlocked, free]
      rfl
    | commits held unlocked free resolved ordinal retries =>
      refine ⟨?_, hdisciplined.append resolved ordinal retries⟩
      rw [unlocked, free]
      rfl
  compatible := by
    intro i j w w' hne hstep hheld
    cases hstep with
    | leaves leaves => exact ⟨leaves.holder.trans hheld, leaves.retries⟩
    | locks free locked held retries =>
      rw [hheld] at free
      cases free
    | ends held unlocked free retries =>
      rw [hheld] at held
      exact absurd (Option.some.inj held) hne
    | commits held unlocked free resolved ordinal retries =>
      rw [hheld] at held
      exact absurd (Option.some.inj held) hne

end Lock

section Transaction

variable {α : Type} {parent i : ℕ}

/-- Programs all of whose steps leave the lock and the retries alone. -/
theorem harmless_of_leaves {rel : Db → List Event → Db → Prop} {p : Program α}
    (hp : p.Steps rel)
    (h : ∀ i w es db, rel w.store es db → Leaves parent w (w.extend i es db)) :
    (retryContract parent).Harmless p := by
  refine harmless_of_steps hp fun i w es db _ hrel => ?_
  have hleaves := h i w es db hrel
  exact ⟨.leaves hleaves, fun hheld => ⟨hleaves.holder.trans hheld, hleaves.retries⟩⟩

/-- Operations that insert no retry. -/
theorem harmless_effects {kinds : Set Kind} {p : Program α} (hretries : .retries ∉ kinds)
    (htransacts : .transacts ∉ kinds) (hp : p.Steps (Effect kinds)) :
    (retryContract parent).Harmless p := by
  refine harmless_of_leaves hp fun i w es db heffect => ?_
  refine ⟨?_, holder_extend fun e he => ?_, heffect.retriesFollow hretries htransacts⟩
  · exact congrArg (List.count parent) (heffect.locks htransacts)
  · exact heffect.holder htransacts e he

/-- What a process knows that holds the lock of the deployment: whatever it has read
of the retries and cannot change when they are resolved. -/
def Behind (parent i id : ℕ) (known : List Deployment → Prop) (w : World Db Event) : Prop :=
  id = parent → holder parent (history w) = some i ∧ known (w.store.retries parent)

theorem behind_stable {id : ℕ} {known : List Deployment → Prop}
    (hknown : ∀ old new, List.Forall₂ Deployment.Follows old new → known old → known new) :
    (retryContract parent).Stable i (Behind parent i id known) := by
  intro w w' hrely hbehind hid
  obtain ⟨hheld, hold⟩ := hbehind hid
  obtain ⟨hheld', hfollow⟩ := hrely hheld
  exact ⟨hheld', hknown _ _ hfollow hold⟩

theorem behind_stable_true {id : ℕ} :
    (retryContract parent).Stable i (Behind parent i id fun _ => True) :=
  behind_stable fun _ _ _ _ => trivial

/-- Steps that neither touch the deployments nor say something about locks. -/
theorem leaves_extend {w : World Db Event} {es : List Event} {db : Db}
    (hlocks : db.locks.count parent = w.store.locks.count parent)
    (hrows : db.deployments.rows = w.store.deployments.rows)
    (hes : ∀ e ∈ es, e.holder parent i = none) : Leaves parent w (w.extend i es db) :=
  ⟨hlocks, holder_extend hes, retriesFollow_of_rows hrows⟩

/-- A read whose answer is remembered in a stable assertion. -/
theorem read_sat {f : Db → α} {P : World Db Event → Prop} {Q : α → World Db Event → Prop}
    (h : ∀ w, RetryInvariant parent w → P w → Q (f w.store) w)
    (hQ : ∀ a, (retryContract parent).Stable i (Q a)) :
    (retryContract parent).Sat i (Proc.read f) P Q := by
  refine .atomic (fun w hinv hw => ?_) hQ
  have hsame : w.advance i (fun db => (db, ([] : List Event))) = w := by
    simp [World.advance]
  refine ⟨.leaves (leaves_extend rfl rfl (by simp)), ?_⟩
  exact (congrArg (Q (f w.store)) hsame).mpr (h w hinv hw)

/-- The lock of a row is acquired while nobody holds it. -/
theorem lockDeployment_sat (id patience : ℕ) :
    (retryContract parent).Sat i (lockDeployment id patience) (fun _ => True) fun answer w =>
      ∀ deployment, answer = .acquired deployment →
        Behind parent i id (fun _ => True) w ∧ deployment.id = id := by
  induction patience with
  | zero => exact .done fun w _ deployment h => (by cases h)
  | succ patience ih =>
    have hlock : (retryContract parent).Sat i (Proc.atomic fun db : Db => db.tryLock id)
        (fun _ => True) fun answer w => ∀ deployment, answer = .acquired deployment →
          Behind parent i id (fun _ => True) w ∧ deployment.id = id := by
      refine .atomic ?_ ?_
      · intro w hinv _
        dsimp only [World.advance]
        rcases tryLock_cases w.store id with ⟨answer, h, hnot⟩ | ⟨deployment, hfind, hfree, h⟩
        · rw [h]
          exact ⟨.leaves (leaves_extend rfl rfl (by simp)), fun deployment heq => absurd heq (hnot _)⟩
        · rw [h]
          by_cases hid : id = parent
          · subst hid
            have hheld : holder id (history (w.extend i [.locked id] (w.store.lock id))) = some i := by
              simp [history, holder, Event.holder]
            have hnone : w.store.locks.count id = 0 := List.count_eq_zero.mpr hfree
            have hfree' : holder id (history w) = none := by
              rcases hholder : holder id (history w) with _ | j
              · rfl
              · have hlocks := hinv.locks
                rw [hnone, hholder] at hlocks
                cases hlocks
            refine ⟨.locks hfree' ?_ hheld (retriesFollow_of_rows rfl), ?_⟩
            · change (id :: w.store.locks).count id = 1
              rw [List.count_cons_self, hnone]
            · rintro d ⟨⟩
              exact ⟨fun _ => ⟨hheld, trivial⟩, find?_id hfind⟩
          · refine ⟨.leaves (leaves_extend ?_ rfl ?_), ?_⟩
            · exact List.count_cons_of_ne hid
            · simp [Event.holder, hid]
            · rintro d ⟨⟩
              exact ⟨fun h => absurd h hid, find?_id hfind⟩
      · intro answer w w' hrely hw deployment h
        obtain ⟨hbehind, hid⟩ := hw deployment h
        exact ⟨behind_stable_true hrely hbehind, hid⟩
    refine hlock.bind fun answer => ?_
    cases answer with
    | held => exact ih.conseq (fun _ _ => trivial) fun _ _ hw => hw
    | missing => exact .done fun w hw => hw
    | acquired deployment => exact .done fun w hw => hw

/-- A step that ends the transaction without a new row. -/
theorem end_sat {f : Db → (Db × List Event) × α} {id : ℕ} {known : List Deployment → Prop}
    (hlocks : ∀ db, (f db).1.1.locks = db.locks.erase id)
    (hrows : ∀ db, (f db).1.1.deployments.rows = db.deployments.rows)
    (hevents : ∀ db, ∃ es, (f db).1.2 = es ++ [.unlocked id] ∧ ∀ e ∈ es, e.holder parent i = none) :
    (retryContract parent).Sat i (Proc.atomic f) (Behind parent i id known) fun _ _ => True := by
  refine .atomic (fun w hinv hw => ⟨?_, trivial⟩) fun _ _ _ _ _ => trivial
  obtain ⟨es, hes, hquiet⟩ := hevents w.store
  by_cases hid : id = parent
  · subst hid
    obtain ⟨hheld, _⟩ := hw rfl
    refine .ends hheld ?_ ?_ (retriesFollow_of_rows (hrows _))
    · have hone := hinv.locks
      rw [hheld] at hone
      change (f w.store).1.1.locks.count id = 0
      rw [hlocks, List.count_erase_self, hone]
      rfl
    · simp [history, hes, holder, Event.holder]
  · refine .leaves (leaves_extend ?_ (hrows _) ?_)
    · rw [hlocks, List.count_erase_of_ne (Ne.symm hid)]
    · intro e he
      rw [hes] at he
      rcases List.mem_append.mp he with hold | hlast
      · exact hquiet e hold
      · rw [List.mem_singleton.mp hlast]
        simp [Event.holder, hid]

theorem rollback_sat {id : ℕ} {reason : RetryError} {known : List Deployment → Prop} :
    (retryContract parent).Sat i (rollback id reason) (Behind parent i id known) fun _ _ => True :=
  end_sat (fun _ => rfl) (fun _ => rfl) fun _ => ⟨[], rfl, by simp⟩

/-- All retries are resolved. -/
def AllResolved (retries : List Deployment) : Prop := ∀ d ∈ retries, d.state.terminal = true

theorem AllResolved.follow {old new : List Deployment} (h : AllResolved old)
    (hfollow : List.Forall₂ Deployment.Follows old new) : AllResolved new := by
  intro d hd
  obtain ⟨k, hk, rfl⟩ := List.mem_iff_getElem.mp hd
  have hk' : k < old.length := hfollow.length_eq ▸ hk
  exact (hfollow.get hk' hk).terminal (h _ (List.getElem_mem hk'))

/-- The row is the next retry behind the given ones. -/
structure NextOf (retry : Deployment) (retries : List Deployment) : Prop where
  resolved : AllResolved retries
  ordinal : retry.retryOrdinal = some (retries.length + 1)
  later : ∀ d ∈ retries, d.id < retry.id

theorem NextOf.follow {retry : Deployment} {old new : List Deployment} (h : NextOf retry old)
    (hfollow : List.Forall₂ Deployment.Follows old new) : NextOf retry new where
  resolved := h.resolved.follow hfollow
  ordinal := hfollow.length_eq ▸ h.ordinal
  later := by
    intro d hd
    obtain ⟨k, hk, rfl⟩ := List.mem_iff_getElem.mp hd
    have hk' : k < old.length := hfollow.length_eq ▸ hk
    have hid : (new[k]).id = (old[k]).id := (hfollow.get hk' hk).id
    rw [hid]
    exact h.later _ (List.getElem_mem hk')

/-- The retry that a transaction has inserted becomes visible or is lost. -/
theorem endRetry_sat {id : ℕ} {retry : Deployment} {actor : Sid} (commits : Bool)
    (hparent : retry.parentDeploymentId = some id) :
    (retryContract parent).Sat i (endRetry id retry actor commits)
      (Behind parent i id (NextOf retry)) fun _ _ => True := by
  unfold endRetry
  cases commits with
  | false =>
    exact end_sat (fun _ => rfl) (fun _ => rfl) fun _ =>
      ⟨[.rolledBack retry.id], rfl, by simp [Event.holder]⟩
  | true =>
    rw [if_pos rfl]
    by_cases hid : id = parent
    · subst hid
      refine .atomic (fun w hinv hw => ⟨?_, trivial⟩) fun _ _ _ _ _ => trivial
      obtain ⟨hheld, hnext⟩ := hw rfl
      have hunlocked : (w.store.locks.erase id).count id = 0 := by
        have hone := hinv.locks
        rw [hheld] at hone
        rw [List.count_erase_self, hone]
        rfl
      have hfree : holder id (history (w.extend i [.created retry.id,
          .audit retry.id .created .userRetry (some actor) none, .unlocked id]
            (w.store.commitRetry id retry))) = none := by
        simp [history, holder, Event.holder]
      by_cases hadmits : w.store.deployments.Admits retry
      · refine .commits hheld hunlocked hfree hnext.resolved hnext.ordinal ?_
        refine Table.filter_place hadmits (by simp [hparent]) fun d hd hretry => ?_
        exact hnext.later d (List.mem_filter.mpr ⟨hd, hretry⟩)
      · refine .ends hheld hunlocked hfree (retriesFollow_of_rows ?_)
        exact congrArg Table.rows (Table.place_of_not_admits hadmits)
    · refine .atomic (fun w hinv hw => ⟨.leaves ⟨?_, ?_, ?_⟩, trivial⟩) fun _ _ _ _ _ => trivial
      · exact List.count_erase_of_ne (Ne.symm hid)
      · exact holder_extend (by simp [Event.holder, hid])
      · have hsame : (w.store.commitRetry id retry).retries parent = w.store.retries parent :=
          Table.filter_place_of_neg (by simpa [hparent] using hid)
        unfold RetriesFollow
        exact hsame ▸ List.forall₂_same.mpr fun row _ => .refl row

/-- A row inserted behind the lock comes after all other retries. -/
theorem reserveRetry_sat (loaded : Loaded) (ordinal : ℕ) (now : DateTime) :
    (retryContract parent).Sat i (reserveRetry loaded ordinal now)
      (Behind parent i loaded.deployment.id fun retries =>
        AllResolved retries ∧ ordinal = retries.length + 1)
      fun retry w => Behind parent i loaded.deployment.id (fun _ => True) w ∧
        ∀ r, retry = some r →
          Behind parent i loaded.deployment.id (NextOf r.deployment) w ∧
            r.deployment.parentDeploymentId = some loaded.deployment.id := by
  refine .atomic ?_ ?_
  · intro w hinv hw
    dsimp only [World.advance]
    split
    · have hleaves : Leaves parent w (w.extend i [] w.store.reserveDeployment) :=
        leaves_extend rfl rfl (by simp)
      refine ⟨.leaves hleaves, ?_, ?_⟩
      · intro hid
        exact ⟨hleaves.holder.trans (hw hid).1, trivial⟩
      · rintro r ⟨⟩
        refine ⟨fun hid => ?_, rfl⟩
        obtain ⟨hheld, hresolved, hordinal⟩ := hw hid
        refine ⟨hleaves.holder.trans hheld, hresolved, ?_, ?_⟩
        · exact congrArg some hordinal
        · intro d hd
          exact w.store.deployments.fresh d (List.mem_filter.mp hd).1
    · have hleaves : Leaves parent w (w.extend i [] w.store) := leaves_extend rfl rfl (by simp)
      refine ⟨.leaves hleaves, ?_, fun r h => (by cases h)⟩
      intro hid
      exact ⟨hleaves.holder.trans (hw hid).1, trivial⟩
  · rintro retry w w' hrely ⟨htrue, hretry⟩
    refine ⟨behind_stable_true hrely htrue, fun r hr => ?_⟩
    obtain ⟨hnext, hparent⟩ := hretry r hr
    exact ⟨behind_stable (fun _ _ hfollow h => h.follow hfollow) hrely hnext, hparent⟩

/-- The broadcast leaves the transaction without a trace in the tables. -/
theorem harmless_announceRetry (id : ℕ) (garden : Sid) (payload : Wire.Deployment) :
    (retryContract parent).Harmless (Proc.emit (.retried id garden payload)) := by
  refine harmless_atomic fun i w _ => ?_
  have hleaves : Leaves parent w (w.extend i [.retried id garden payload] w.store) :=
    leaves_extend rfl rfl (by simp [Event.holder])
  exact ⟨.leaves hleaves, fun hheld => ⟨hleaves.holder.trans hheld, hleaves.retries⟩⟩

/-- A retry that is inserted behind resolved ones comes to its end behind them. -/
theorem insertRetry_sat (loaded : Loaded) (ordinal : ℕ) (now : DateTime) (actor : Sid)
    (commits : Bool) :
    (retryContract parent).Sat i (insertRetry loaded ordinal now actor commits)
      (Behind parent i loaded.deployment.id fun retries =>
        AllResolved retries ∧ ordinal = retries.length + 1)
      fun _ _ => True := by
  have hrequestId : newRequestId.Steps (Effect ∅) := steps_newRequestId
  refine (reserveRetry_sat loaded ordinal now).bind fun retry => ?_
  cases retry with
  | none => exact rollback_sat.conseq (fun w hw => hw.1) fun _ _ hw => hw
  | some retry =>
    have hstable : (retryContract parent).Stable i
        (Behind parent i loaded.deployment.id (NextOf retry.deployment)) :=
      behind_stable fun _ _ hfollow h => h.follow hfollow
    refine Sat.conseq (Sat.assume fun hparent : retry.deployment.parentDeploymentId =
      some loaded.deployment.id => ?_) (fun w hw => hw.2 retry rfl) fun _ _ hw => hw
    refine (harmless_effects (by simp) (by simp) hrequestId i _ hstable).bind fun requestId => ?_
    refine (harmless_announceRetry _ _ _ i _ hstable).bind fun _ => ?_
    exact endRetry_sat commits hparent

/-- Behind the lock everything that is read of the retries stays as it was read. -/
theorem retryLocked_sat (loaded : Loaded) (actor : Sid) (commits : Bool) :
    (retryContract parent).Sat i (retryLocked loaded actor commits)
      (Behind parent i loaded.deployment.id fun _ => True) fun _ _ => True := by
  have hutcNow : utcNow.Steps (Effect ∅) := steps_utcNow
  have hbusy : (retryContract parent).Sat i
      (Proc.read fun db : Db => db.retryInProgress loaded.deployment.id)
      (Behind parent i loaded.deployment.id fun _ => True) fun busy =>
        Behind parent i loaded.deployment.id fun retries => busy = false → AllResolved retries := by
    refine read_sat (fun w _ hw hid => ⟨(hw hid).1, fun hfree => ?_⟩) fun busy => ?_
    · exact resolved_of_not_retryInProgress (hid ▸ hfree)
    · exact behind_stable fun _ _ hfollow h hfree => (h hfree).follow hfollow
  refine hbusy.bind fun busy => ?_
  split
  · exact rollback_sat
  · rename_i hfree
    have hmax : (retryContract parent).Sat i
        (Proc.read fun db : Db => db.maxRetryOrdinal loaded.deployment.id)
        (Behind parent i loaded.deployment.id fun retries => busy = false → AllResolved retries)
        fun maxRetryOrdinal => Behind parent i loaded.deployment.id fun retries =>
          AllResolved retries ∧ maxRetryOrdinal + 1 = retries.length + 1 := by
      refine read_sat (fun w hinv hw hid => ?_) fun maxRetryOrdinal => ?_
      · obtain ⟨hheld, hresolved⟩ := hw hid
        refine ⟨hheld, hresolved (by simpa using hfree), ?_⟩
        rw [hid, hinv.disciplined.maxRetryOrdinal]
      · exact behind_stable fun _ _ hfollow h => ⟨h.1.follow hfollow, hfollow.length_eq ▸ h.2⟩
    refine hmax.bind fun maxRetryOrdinal => ?_
    have hstable : (retryContract parent).Stable i (Behind parent i loaded.deployment.id
        fun retries => AllResolved retries ∧ maxRetryOrdinal + 1 = retries.length + 1) :=
      behind_stable fun _ _ hfollow h => ⟨h.1.follow hfollow, hfollow.length_eq ▸ h.2⟩
    refine (harmless_effects (by simp) (by simp) hutcNow i _ hstable).bind fun now => ?_
    exact insertRetry_sat loaded _ now actor commits

/-- Every transaction keeps the contract, whatever deployment it retries. -/
theorem retryTransaction_sat (platform : Platform) (id userId patience : ℕ) (commits : Bool) :
    (retryContract parent).Sat i (retryTransaction platform id userId patience commits)
      (fun _ => True) fun _ _ => True := by
  refine (read_sat (Q := fun _ _ => True) (fun _ _ _ => trivial) fun _ _ _ _ _ => trivial).bind
    fun user => ?_
  cases user with
  | none => exact .done fun _ _ => trivial
  | some user =>
    refine (lockDeployment_sat id patience).bind fun answer => ?_
    cases answer with
    | held => exact .done fun _ _ => trivial
    | missing => exact .done fun _ _ => trivial
    | acquired deployment =>
      refine Sat.conseq (Sat.assume fun hid : deployment.id = id => ?_)
        (fun w hw => hw deployment rfl) fun _ _ hw => hw
      subst hid
      have hload : (retryContract parent).Sat i (Proc.read fun db : Db => db.load platform deployment)
          (Behind parent i deployment.id fun _ => True) fun loaded w =>
            Behind parent i deployment.id (fun _ => True) w ∧ loaded.deployment = deployment := by
        refine read_sat (fun w _ hw => ⟨hw, rfl⟩) ?_
        exact fun loaded w w' hrely hw => ⟨behind_stable_true hrely hw.1, hw.2⟩
      refine hload.bind fun loaded => Sat.assume fun hloaded => ?_
      split
      · exact rollback_sat
      · split
        · exact rollback_sat
        · rw [← hloaded]
          exact retryLocked_sat loaded user.id commits

end Transaction

section Runs

variable {platform : Platform} {parent : ℕ}

/-- Operations that insert no retry, and transactions of retries, keep the contract. -/
theorem concurrent_sat {p : Program PUnit} (h : Concurrent platform {.retries}ᶜ p) (i : ℕ) :
    (retryContract parent).Sat i p (fun _ => True) fun _ _ => True := by
  cases h with
  | @operation operation hallowed =>
    have hretries : .retries ∉ operation.kinds := fun h => hallowed h rfl
    have htransacts : .transacts ∉ operation.kinds := by
      cases operation <;> simp [Operation.kinds]
    exact harmless_effects hretries htransacts (steps_operation operation) i _ fun _ _ _ _ => trivial
  | retry hallowed id userId patience commits =>
    exact (retryTransaction_sat platform id userId patience commits).bind fun _ => .done fun _ hw => hw

/-- However transactions that retry a deployment interleave with each other and with
other operations, its retries stay disciplined. -/
theorem retries_disciplined {db : Db} {c : Pool Db Event}
    (hreach : Reachable (Concurrent platform {.retries}ᶜ) (Pool.start db) c)
    (hunlocked : parent ∉ db.locks) (hstart : Disciplined parent db) :
    Disciplined parent c.world.store := by
  have hinv : RetryInvariant parent (Pool.start db).world := by
    refine ⟨?_, hstart⟩
    change db.locks.count parent = 0
    exact List.count_eq_zero.mpr hunlocked
  have hholds := holds_of_reachable (Q := fun _ _ => True) (fun p hp i => concurrent_sat hp i)
    ⟨hinv, by simp [Pool.start]⟩ hreach
  exact hholds.1.disciplined

/-- A store with one deployment that failed, and a user. -/
def oneFailed : Db :=
  { clock := fun n => n, users := oneUser : Db }.insertDeployment
      { gardenId := 1, seeds := [], subscriptions := [], state := .dispatched
        lastDispatchedAt := none, contentHash := "" } |>.setDeployment 1
      { state := .completed, result := some .failure }

/-- Three transactions that retry the deployment, and the result of its first retry. -/
def threeRetries : List (Program PUnit) :=
  [discard (retryTransaction .plain 1 1 4 true), discard (retryTransaction .plain 1 1 4 true),
    Operation.program .plain (.recordDeployment 2 .failure 5),
    discard (retryTransaction .plain 1 1 4 true)]

theorem threeRetries_concurrent : ∀ p ∈ threeRetries, Concurrent .plain {.retries}ᶜ p := by
  intro p hp
  simp only [threeRetries, List.mem_cons, List.not_mem_nil, or_false] at hp
  rcases hp with rfl | rfl | rfl | rfl
  · exact .retry (by simp) 1 1 4 true
  · exact .retry (by simp) 1 1 4 true
  · exact .operation (by simp [Operation.kinds])
  · exact .retry (by simp) 1 1 4 true

/-- The second transaction waits for the first one and finds its retry, which then fails
and is followed by another. -/
def threeRetriesOrder : List ℕ :=
  [0, 0, 1, 1, 0, 0, 0, 1, 0, 0, 0, 0, 0, 1, 1, 1, 1, 2, 2, 3, 3, 3, 3, 3, 3, 3, 3, 3, 3]

/-- Two retries are left, under the ordinals one and two. -/
theorem retries_disciplined_threeRetries :
    Disciplined 1 (started oneFailed threeRetries threeRetriesOrder).world.store ∧
      ((started oneFailed threeRetries threeRetriesOrder).world.store.retries 1).map
        Deployment.retryOrdinal = [some 1, some 2] :=
  ⟨retries_disciplined (started_reachable threeRetries_concurrent) (by decide) (by decide),
    by decide⟩

end Runs

end Sower.Server
