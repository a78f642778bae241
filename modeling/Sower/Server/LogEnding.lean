import Sower.Server.Isolation
import Sower.Server.LogRecording

/-!
# No log after the end

Owners are started under the lock of their deployment's row and only while the row is
unresolved. Who ends the deployment holds the same lock, so that the owner it stops is
the last one: none is left when the final row is committed, and none is started
afterwards. A chunk that a garden is told of was accepted before that.
-/

namespace Sower.Server.Recording

open Sower.Wire Process Proc Keyed Interleaving Contract

section Owners

variable {sid : Sid} {logs logs' : Logs}

/-- Each owner of the deployment's log was there before, with the same deployment. -/
def Shrinks (sid : Sid) (logs logs' : Logs) : Prop :=
  ∀ owner ∈ logs'.live.rows, owner.buffer.deployment.id = sid →
    ∃ old ∈ logs.live.rows, old.pid = owner.pid ∧ old.buffer.deployment = owner.buffer.deployment

theorem Shrinks.refl (sid : Sid) (logs : Logs) : Shrinks sid logs logs := by
  intro owner howner _
  exact ⟨owner, howner, rfl, rfl⟩

/-- No process registers under the name of another one. -/
def NamesOnce (sid : Sid) (logs : Logs) : Prop :=
  ∀ a ∈ logs.live.rows, ∀ b ∈ logs.live.rows, a.buffer.deployment.id = sid →
    b.buffer.deployment.id = sid → a.buffer.deployment.orgId = b.buffer.deployment.orgId →
      a.pid = b.pid

theorem NamesOnce.shrink (h : NamesOnce sid logs) (hshrinks : Shrinks sid logs logs') :
    NamesOnce sid logs' := by
  intro a ha b hb hasid hbsid horg
  obtain ⟨olda, hmema, hpida, hdepa⟩ := hshrinks a ha hasid
  obtain ⟨oldb, hmemb, hpidb, hdepb⟩ := hshrinks b hb hbsid
  have hsame : olda.pid = oldb.pid := by
    apply h olda hmema oldb hmemb
    · rw [hdepa, hasid]
    · rw [hdepb, hbsid]
    · rw [hdepa, hdepb, horg]
  rw [← hpida, ← hpidb, hsame]

/-- Owners that are left are old ones. -/
theorem shrinks_delete (sid : Sid) (logs : Logs) (p : Owner → Bool) (pool : LogPool)
    (hpool : pool.Consistent) : Shrinks sid logs ⟨logs.live.delete p, pool, hpool⟩ := by
  intro owner howner _
  have hmem := (Table.mem_delete.mp howner).1
  exact ⟨owner, hmem, rfl, rfl⟩

theorem shrinks_stop (sid : Sid) (logs : Logs) (pid : ℕ) : Shrinks sid logs (logs.stop pid) :=
  shrinks_delete sid logs _ _ logs.consistent

/-- A stopped owner is not live. -/
theorem mem_stop {pid : ℕ} {owner : Owner} (h : owner ∈ (logs.stop pid).live.rows) :
    owner ∈ logs.live.rows ∧ owner.pid ≠ pid := by
  obtain ⟨hmem, hpid⟩ := Table.mem_delete.mp h
  exact ⟨hmem, by simpa using hpid⟩

/-- An owner keeps its deployment while it appends. -/
theorem shrinks_append (sid : Sid) (logs : Logs) (pid orgId : ℕ) (garden : Garden)
    (request : SeedDeploymentLog) :
    Shrinks sid logs (logs.append pid orgId garden request).1.1 := by
  unfold Logs.append
  rcases hfind : logs.live.find? pid with _ | target
  · exact .refl sid logs
  · obtain ⟨htarget, hpid⟩ := Table.find?_eq_some_iff.mp hfind
    rcases happend : target.buffer.append orgId garden request with _ | ⟨⟨buffer, events⟩, reply⟩
    · simp only [happend]
      exact shrinks_stop sid logs pid
    · simp only [happend]
      intro owner howner _
      have hmem := Table.mem_update (t := logs.live) (p := (·.pid == pid))
        (f := fun owner : Owner => { owner with buffer := buffer }) (fun _ => rfl) (r := owner)
      obtain ⟨old, hold, hupdated⟩ := hmem.mp howner
      by_cases hself : old.pid = pid
      · have hsame : old = target := Table.eq_of_key hold htarget (hself.trans hpid.symm)
        rw [if_pos (by simpa using hself)] at hupdated
        have hkept : buffer.deployment = target.buffer.deployment := append_deployment happend
        refine ⟨old, hold, ?_, ?_⟩
        · rw [← hupdated]
        · rw [← hupdated, hsame]
          exact hkept.symm
      · rw [if_neg (by simpa using hself)] at hupdated
        exact ⟨old, hold, by rw [hupdated], by rw [hupdated]⟩

/-- Only a live owner of the deployment's log accepts a chunk. -/
theorem live_of_append {pid orgId : ℕ} {garden : Garden} {request : SeedDeploymentLog} {u : Unit}
    (h : (logs.append pid orgId garden request).2 = .ok u) :
    ∃ owner ∈ logs.live.rows, owner.buffer.deployment.id = request.deploymentSid := by
  unfold Logs.append at h
  rcases hfind : logs.live.find? pid with _ | target
  · rw [hfind] at h
    cases h
  · obtain ⟨htarget, _⟩ := Table.find?_eq_some_iff.mp hfind
    refine ⟨target, htarget, ?_⟩
    rw [hfind] at h
    dsimp only at h
    unfold Buffer.append at h
    rcases hrefuses : target.buffer.refuses orgId garden request with _ | reason
    · unfold Buffer.refuses at hrefuses
      split at hrefuses
      · cases hrefuses
      · split at hrefuses
        · cases hrefuses
        · rename_i hown
          by_contra hother
          exact hown (Or.inr (Or.inr (Ne.symm hother)))
    · rw [hrefuses] at h
      cases h

/-- The owners that there are after one was started: the new one is registered for its
deployment, and the others were there before. -/
theorem mem_startOwner_cases {deployment : Deployment} {seeds : List Sid} {owner : Owner}
    (h : owner ∈ (logs.startOwner deployment seeds).1.live.rows) :
    owner ∈ logs.live.rows ∨ owner.buffer.deployment = deployment ∧ owner.pid = logs.live.next := by
  unfold Logs.startOwner at h
  split at h
  · exact Or.inl h
  · dsimp only at h
    split at h
    · rcases (Table.mem_insert fun _ => rfl).mp h with hold | rfl
      · exact Or.inl (Table.mem_delete.mp hold).1
      · exact Or.inr ⟨rfl, rfl⟩
    · exact Or.inl (Table.mem_delete.mp h).1

/-- Nobody is registered under a name that is looked up in vain. -/
theorem lookup_none {orgId : ℕ} (h : logs.lookup orgId sid = none) {owner : Owner}
    (howner : owner ∈ logs.live.rows) (hsid : owner.buffer.deployment.id = sid) :
    owner.buffer.deployment.orgId ≠ orgId := by
  have hnot := List.find?_eq_none.mp h owner howner
  intro horg
  exact hnot (by simp [Owner.isFor, horg, hsid])

theorem lookup_some {orgId : ℕ} {owner : Owner} (h : logs.lookup orgId sid = some owner) :
    owner ∈ logs.live.rows ∧ owner.buffer.deployment.orgId = orgId ∧
      owner.buffer.deployment.id = sid := by
  have hfor := List.find?_some h
  have hmem := List.mem_of_find?_eq_some h
  exact ⟨hmem, by simpa [Owner.isFor] using hfor⟩

/-- What `Pool.ensure` leaves: owners from before and at most one for the deployment. -/
theorem mem_ensure_cases {deployment : Deployment} {seeds : List Sid} {owner : Owner}
    (h : owner ∈ (logs.ensure deployment seeds).1.live.rows) :
    owner ∈ logs.live.rows ∨
      logs.lookup deployment.orgId deployment.id = none ∧
        owner.buffer.deployment = deployment ∧ owner.pid = logs.live.next := by
  unfold Logs.ensure at h
  rcases hlookup : logs.lookup deployment.orgId deployment.id with _ | running
  · rw [hlookup] at h
    rcases mem_startOwner_cases h with hold | hnew
    · exact Or.inl hold
    · exact Or.inr ⟨rfl, hnew⟩
  · rw [hlookup] at h
    exact Or.inl h

/-- `Pool.ensure` registers a name only when it is free. -/
theorem NamesOnce.ensure (h : NamesOnce sid logs) (deployment : Deployment) (seeds : List Sid) :
    NamesOnce sid (logs.ensure deployment seeds).1 := by
  intro a ha b hb hasid hbsid horg
  rcases mem_ensure_cases ha with holda | ⟨hnone, hdepa, hpida⟩
  · rcases mem_ensure_cases hb with holdb | ⟨hnone, hdepb, _⟩
    · exact h a holda b holdb hasid hbsid horg
    · have hname : a.buffer.deployment.id = deployment.id := by rw [hasid, ← hbsid, hdepb]
      have horg' : a.buffer.deployment.orgId = deployment.orgId := by rw [horg, hdepb]
      exact absurd horg' (lookup_none hnone holda hname)
  · rcases mem_ensure_cases hb with holdb | ⟨_, _, hpidb⟩
    · have hname : b.buffer.deployment.id = deployment.id := by rw [hbsid, ← hasid, hdepa]
      have horg' : b.buffer.deployment.orgId = deployment.orgId := by rw [← horg, hdepa]
      exact absurd horg' (lookup_none hnone holdb hname)
    · rw [hpida, hpidb]

/-- An owner started for another deployment is none of this one's. -/
theorem shrinks_ensure {deployment : Deployment} (seeds : List Sid) (hother : deployment.id ≠ sid) :
    Shrinks sid logs (logs.ensure deployment seeds).1 := by
  intro owner howner hsid
  rcases mem_ensure_cases howner with hold | ⟨_, hdeployment, _⟩
  · exact ⟨owner, hold, rfl, rfl⟩
  · rw [hdeployment] at hsid
    exact absurd hsid hother

end Owners

section Histories

/-- A log with the latest entry first. -/
abbrev Trail := List (ℕ × LogTrace)

/-- What the event of process `i` says about the lock of the row. -/
def LogTrace.holder (sid : Sid) (i : ℕ) : LogTrace → Option (Option ℕ)
  | .locked id => if id = sid then some (some i) else none
  | .unlocked id => if id = sid then some none else none
  | _ => none

/-- The process whose transaction holds the lock of the row. -/
def holder (sid : Sid) : Trail → Option ℕ
  | [] => none
  | (i, e) :: earlier => (e.holder sid i).getD (holder sid earlier)

/-- What must have happened before an event: a chunk is accepted before the end, and
the garden hears of it from the process that had it accepted. -/
def LogTrace.After (sid : Sid) (i : ℕ) (earlier : Trail) : LogTrace → Prop
  | .appended id => id = sid → ∀ j, (j, .finished sid) ∉ earlier
  | .acknowledged id => id = sid → (i, .appended sid) ∈ earlier
  | _ => True

/-- Every event comes after what must have happened before it. -/
def Orderly (sid : Sid) : Trail → Prop
  | [] => True
  | (i, e) :: earlier => e.After sid i earlier ∧ Orderly sid earlier

theorem Orderly.after {sid : Sid} {i : ℕ} {e : LogTrace} {late early : Trail}
    (h : Orderly sid (late ++ (i, e) :: early)) : e.After sid i early := by
  induction late with
  | nil => exact h.1
  | cons entry rest ih => exact ih h.2

/-- The event is about another deployment's log. -/
def LogTrace.elsewhere (sid : Sid) : LogTrace → Prop
  | .locked id => id ≠ sid
  | .unlocked id => id ≠ sid
  | .finished id => id ≠ sid
  | .appended id => id ≠ sid
  | .acknowledged id => id ≠ sid

variable {sid : Sid} {i : ℕ} {es : List LogTrace} {trail : Trail}

/-- An event about another log says nothing about the lock. -/
theorem LogTrace.holder_of_elsewhere {e : LogTrace} (h : e.elsewhere sid) :
    e.holder sid i = none := by
  cases e with
  | locked id => exact if_neg h
  | unlocked id => exact if_neg h
  | _ => rfl

/-- An event about another log may come at any time. -/
theorem LogTrace.after_of_elsewhere {e : LogTrace} (h : e.elsewhere sid) (earlier : Trail) :
    e.After sid i earlier := by
  cases e with
  | appended id => exact fun hid => absurd hid h
  | acknowledged id => exact fun hid => absurd hid h
  | _ => trivial

/-- Events about other logs leave the lock where it is. -/
theorem holder_elsewhere (hes : ∀ e ∈ es, e.elsewhere sid) :
    holder sid (es.reverse.map (i, ·) ++ trail) = holder sid trail := by
  refine append_unchanged fun e he earlier => ?_
  rw [holder, LogTrace.holder_of_elsewhere (hes e (List.mem_reverse.mp he)), Option.getD_none]

/-- Events about other logs may come at any time. -/
theorem orderly_elsewhere (hes : ∀ e ∈ es, e.elsewhere sid) (h : Orderly sid trail) :
    Orderly sid (es.reverse.map (i, ·) ++ trail) := by
  have hall : ∀ e ∈ es.reverse, e.elsewhere sid := by simpa using hes
  generalize es.reverse = late at hall
  induction late with
  | nil => exact h
  | cons e rest ih =>
    obtain ⟨he, hrest⟩ := List.forall_mem_cons.mp hall
    exact ⟨LogTrace.after_of_elsewhere he _, ih hrest⟩

/-- None of them ends the log. -/
theorem finished_elsewhere (hes : ∀ e ∈ es, e.elsewhere sid) {j : ℕ}
    (h : (j, LogTrace.finished sid) ∈ es.reverse.map (i, ·) ++ trail) :
    (j, LogTrace.finished sid) ∈ trail := by
  rcases List.mem_append.mp h with hnew | hold
  · obtain ⟨e, he, heq⟩ := List.mem_map.mp hnew
    cases heq
    exact absurd rfl (hes _ (List.mem_reverse.mp he))
  · exact hold

/-- The log as `Orderly` reads it, after process `i` has added to it. -/
theorem trail_extend (w : World Node LogTrace) (i : ℕ) (es : List LogTrace) (node : Node) :
    (w.extend i es node).log.reverse = es.reverse.map (i, ·) ++ w.log.reverse := by
  rw [List.reverse_append, List.map_reverse]

end Histories

section Contracts

variable {sid : Sid} {i : ℕ} {w w' : World Node LogTrace}

/-- The row stays as it is, owners of its log only go, and the lock is where it was. -/
structure Untouched (sid : Sid) (node node' : Node) : Prop where
  row : node'.db.deployments.find? sid = node.db.deployments.find? sid
  owners : Shrinks sid node.logs node'.logs
  locks : node'.db.locks.count sid = node.db.locks.count sid

/-- All that a step of process `i` does about the deployment and its log. -/
inductive LogStep (sid : Sid) (i : ℕ) (w : World Node LogTrace) : World Node LogTrace → Prop
  /-- Something about other deployments, or an owner ends. -/
  | leaves {es : List LogTrace} {node : Node} (untouched : Untouched sid w.store node)
      (elsewhere : ∀ e ∈ es, e.elsewhere sid) : LogStep sid i w (w.extend i es node)
  /-- A live owner accepts a chunk. -/
  | appends {node : Node} (untouched : Untouched sid w.store node)
      (live : ∃ owner ∈ w.store.logs.live.rows, owner.buffer.deployment.id = sid) :
      LogStep sid i w (w.extend i [.appended sid] node)
  /-- The garden hears of a chunk that was accepted. -/
  | acknowledges (accepted : (i, .appended sid) ∈ w.log) :
      LogStep sid i w (w.extend i [.acknowledged sid] w.store)
  | locks {node : Node} (free : holder sid w.log.reverse = none)
      (row : node.db.deployments.find? sid = w.store.db.deployments.find? sid)
      (logs : node.logs = w.store.logs) (locked : node.db.locks.count sid = 1) :
      LogStep sid i w (w.extend i [.locked sid] node)
  | ends {node : Node} (held : holder sid w.log.reverse = some i)
      (row : node.db.deployments.find? sid = w.store.db.deployments.find? sid)
      (logs : node.logs = w.store.logs) (unlocked : node.db.locks.count sid = 0) :
      LogStep sid i w (w.extend i [.unlocked sid] node)
  /-- An owner is started under the lock of an unresolved row. -/
  | starts {logs : Logs} {deployment : Deployment}
      (row : w.store.db.deployments.find? sid = some deployment)
      (unresolved : deployment.state.terminal = false)
      (held : holder sid w.log.reverse = some i) (once : NamesOnce sid logs)
      (owners : ∀ owner ∈ logs.live.rows, owner.buffer.deployment.id = sid →
        owner ∈ w.store.logs.live.rows ∨ owner.buffer.deployment = deployment) :
      LogStep sid i w (w.extend i [] { w.store with logs := logs })
  /-- A row is committed; a final one when no owner is left. -/
  | commits {node : Node} {locked : Deployment} {attrs : Attrs}
      (held : holder sid w.log.reverse = some i)
      (row : w.store.db.deployments.find? sid = some locked)
      (updated : node.db.deployments.find? sid = some (locked.apply attrs))
      (kept : locked.state.terminal = true → attrs.state.terminal = true)
      (logs : node.logs = w.store.logs) (unlocked : node.db.locks.count sid = 0)
      (gone : attrs.state.terminal = true →
        ∀ owner ∈ w.store.logs.live.rows, owner.buffer.deployment.id ≠ sid) :
      LogStep sid i w (w.extend i
        (if attrs.state.terminal then [.finished sid, .unlocked sid] else [.unlocked sid]) node)

/-- What holds between two steps: owners belong to an unresolved row and have names of
their own, an end in the log stands for a final row, and the log is orderly. -/
structure LogInvariant (sid : Sid) (w : World Node LogTrace) : Prop where
  locks : w.store.db.locks.count sid = (holder sid w.log.reverse).toList.length
  once : NamesOnce sid w.store.logs
  unresolved : ∀ owner ∈ w.store.logs.live.rows, owner.buffer.deployment.id = sid →
    ∃ deployment, w.store.db.deployments.find? sid = some deployment ∧
      deployment.orgId = owner.buffer.deployment.orgId ∧ deployment.state.terminal = false
  ended : ∀ j, (j, .finished sid) ∈ w.log.reverse →
    ∃ deployment, w.store.db.deployments.find? sid = some deployment ∧
      deployment.state.terminal = true
  orderly : Orderly sid w.log.reverse

/-- While a process holds the lock, the others leave the row and start no owner. -/
structure LogRely (sid : Sid) (i : ℕ) (w w' : World Node LogTrace) : Prop where
  log : ∀ entry ∈ w.log, entry ∈ w'.log
  held : holder sid w.log.reverse = some i → holder sid w'.log.reverse = some i ∧
    w'.store.db.deployments.find? sid = w.store.db.deployments.find? sid ∧
      Shrinks sid w.store.logs w'.store.logs

/-- An owner that is left was there before, and its row has not changed. -/
theorem unresolved_of_untouched {node node' : Node} (hrow : node'.db.deployments.find? sid =
      node.db.deployments.find? sid) (howners : Shrinks sid node.logs node'.logs)
    (h : ∀ owner ∈ node.logs.live.rows, owner.buffer.deployment.id = sid →
      ∃ deployment, node.db.deployments.find? sid = some deployment ∧
        deployment.orgId = owner.buffer.deployment.orgId ∧ deployment.state.terminal = false) :
    ∀ owner ∈ node'.logs.live.rows, owner.buffer.deployment.id = sid →
      ∃ deployment, node'.db.deployments.find? sid = some deployment ∧
        deployment.orgId = owner.buffer.deployment.orgId ∧ deployment.state.terminal = false := by
  intro owner howner hsid
  obtain ⟨old, hold, _, hdeployment⟩ := howners owner howner hsid
  obtain ⟨deployment, hfind, horg, hopen⟩ := h old hold (by rw [hdeployment, hsid])
  refine ⟨deployment, ?_, ?_, hopen⟩
  · rw [hrow, hfind]
  · rw [horg, hdeployment]

/-- A step that adds an event which says nothing about locks and ends. -/
theorem LogInvariant.extend {node : Node} {e : LogTrace} (h : LogInvariant sid w)
    (huntouched : Untouched sid w.store node) (hholder : e.holder sid i = none)
    (hfinished : e ≠ .finished sid) (hafter : e.After sid i w.log.reverse) :
    LogInvariant sid (w.extend i [e] node) where
  locks := by
    rw [trail_extend]
    change node.db.locks.count sid = ((e.holder sid i).getD (holder sid w.log.reverse)).toList.length
    rw [hholder, Option.getD_none, huntouched.locks, h.locks]
  once := h.once.shrink huntouched.owners
  unresolved := unresolved_of_untouched huntouched.row huntouched.owners h.unresolved
  ended := by
    intro j hj
    rw [trail_extend] at hj
    have hold : (j, LogTrace.finished sid) ∈ w.log.reverse := by
      rcases List.mem_cons.mp hj with heq | hold
      · exact absurd (congrArg Prod.snd heq).symm hfinished
      · exact hold
    obtain ⟨deployment, hfind, hterminal⟩ := h.ended j hold
    exact ⟨deployment, huntouched.row.trans hfind, hterminal⟩
  orderly := by
    rw [trail_extend]
    exact ⟨hafter, h.orderly⟩

/-- A live owner's log has not ended. -/
theorem LogInvariant.not_ended (h : LogInvariant sid w)
    (hlive : ∃ owner ∈ w.store.logs.live.rows, owner.buffer.deployment.id = sid) (j : ℕ) :
    (j, LogTrace.finished sid) ∉ w.log.reverse := by
  intro hended
  obtain ⟨owner, howner, hsid⟩ := hlive
  obtain ⟨deployment, hfind, _, hopen⟩ := h.unresolved owner howner hsid
  obtain ⟨final, hfinal, hterminal⟩ := h.ended j hended
  rw [hfind, Option.some.injEq] at hfinal
  rw [hfinal, hterminal] at hopen
  cases hopen

/-- A row whose lock changes hands has the same owners. -/
theorem LogInvariant.relock {node : Node} {e : LogTrace} {holds : Option ℕ}
    (h : LogInvariant sid w) (hholder : e.holder sid i = some holds)
    (hrow : node.db.deployments.find? sid = w.store.db.deployments.find? sid)
    (hlogs : node.logs = w.store.logs) (hlocks : node.db.locks.count sid = holds.toList.length) :
    LogInvariant sid (w.extend i [e] node) := by
  have hplain : e ≠ .finished sid ∧ e.After sid i w.log.reverse := by
    cases e with
    | locked id => exact ⟨fun heq => (by cases heq), trivial⟩
    | unlocked id => exact ⟨fun heq => (by cases heq), trivial⟩
    | _ => cases hholder
  constructor
  · rw [trail_extend]
    change node.db.locks.count sid =
      ((e.holder sid i).getD (holder sid w.log.reverse)).toList.length
    rw [hholder, Option.getD_some, hlocks]
  · exact hlogs ▸ h.once
  · exact unresolved_of_untouched hrow (hlogs ▸ .refl sid _) h.unresolved
  · intro j hj
    rw [trail_extend] at hj
    have hold : (j, LogTrace.finished sid) ∈ w.log.reverse := by
      rcases List.mem_cons.mp hj with heq | hold
      · exact absurd (congrArg Prod.snd heq).symm hplain.1
      · exact hold
    obtain ⟨deployment, hfind, hterminal⟩ := h.ended j hold
    exact ⟨deployment, hrow.trans hfind, hterminal⟩
  · rw [trail_extend]
    exact ⟨hplain.2, h.orderly⟩

/-- A commit of a row: a final one has no owners, and neither has it afterwards. -/
theorem LogInvariant.commit {node : Node} {locked : Deployment} {attrs : Attrs}
    (h : LogInvariant sid w) (hrow : w.store.db.deployments.find? sid = some locked)
    (hupdated : node.db.deployments.find? sid = some (locked.apply attrs))
    (hkept : locked.state.terminal = true → attrs.state.terminal = true)
    (hlogs : node.logs = w.store.logs) (hunlocked : node.db.locks.count sid = 0)
    (hgone : attrs.state.terminal = true →
      ∀ owner ∈ w.store.logs.live.rows, owner.buffer.deployment.id ≠ sid) :
    LogInvariant sid (w.extend i
      (if attrs.state.terminal then [.finished sid, .unlocked sid] else [.unlocked sid]) node) := by
  have hholder : holder sid (w.extend i (if attrs.state.terminal then
      [.finished sid, .unlocked sid] else [.unlocked sid]) node).log.reverse = none := by
    rw [trail_extend]
    split <;> simp [holder, LogTrace.holder]
  constructor
  · rw [hholder]
    exact hunlocked
  · exact hlogs ▸ h.once
  · intro owner howner hsid
    rw [show (w.extend i _ node).store = node from rfl, hlogs] at howner
    obtain ⟨deployment, hfind, horg, hopen⟩ := h.unresolved owner howner hsid
    obtain rfl : locked = deployment := Option.some.inj (hrow.symm.trans hfind)
    refine ⟨locked.apply attrs, hupdated, horg, ?_⟩
    rw [Deployment.apply_state]
    by_contra hterminal
    exact hgone (by simpa using hterminal) owner howner hsid
  · intro j hj
    refine ⟨locked.apply attrs, hupdated, ?_⟩
    rw [Deployment.apply_state]
    by_contra hopen
    rw [trail_extend, if_neg hopen] at hj
    have hold : (j, LogTrace.finished sid) ∈ w.log.reverse := by simpa using hj
    obtain ⟨deployment, hfind, hterminal⟩ := h.ended j hold
    obtain rfl : locked = deployment := Option.some.inj (hrow.symm.trans hfind)
    exact hopen (hkept hterminal)
  · rw [trail_extend]
    split
    · exact ⟨trivial, trivial, h.orderly⟩
    · exact ⟨trivial, h.orderly⟩

/-- Every step keeps the invariant. -/
theorem LogStep.keeps (h : LogInvariant sid w) (hstep : LogStep sid i w w') :
    LogInvariant sid w' := by
  cases hstep with
  | @leaves es node untouched elsewhere =>
    constructor
    · rw [trail_extend, holder_elsewhere elsewhere]
      exact untouched.locks.trans h.locks
    · exact h.once.shrink untouched.owners
    · exact unresolved_of_untouched untouched.row untouched.owners h.unresolved
    · intro j hj
      rw [trail_extend] at hj
      obtain ⟨deployment, hfind, hterminal⟩ := h.ended j (finished_elsewhere elsewhere hj)
      exact ⟨deployment, untouched.row.trans hfind, hterminal⟩
    · rw [trail_extend]
      exact orderly_elsewhere elsewhere h.orderly
  | appends untouched live =>
    exact h.extend untouched rfl (fun heq => by cases heq) fun _ => h.not_ended live
  | acknowledges accepted =>
    have huntouched : Untouched sid w.store w.store := ⟨rfl, .refl sid _, rfl⟩
    refine h.extend huntouched rfl (fun heq => by cases heq) fun _ => ?_
    exact List.mem_reverse.mpr accepted
  | locks free row logs locked => exact h.relock (if_pos rfl) row logs locked
  | ends held row logs unlocked => exact h.relock (if_pos rfl) row logs unlocked
  | @starts logs deployment row unresolved held once owners =>
    constructor
    · simpa using h.locks
    · exact once
    · intro owner howner hsid
      rcases owners owner howner hsid with hold | hnew
      · exact h.unresolved owner hold hsid
      · exact ⟨deployment, row, by rw [hnew], unresolved⟩
    · simpa using h.ended
    · simpa using h.orderly
  | commits held row updated kept logs unlocked gone =>
    exact h.commit row updated kept logs unlocked gone

/-- What one process does the others tolerate. -/
theorem LogStep.compatible {j : ℕ} (hne : i ≠ j) (hstep : LogStep sid j w w') :
    LogRely sid i w w' := by
  have hmine (hmine : holder sid w.log.reverse = some i)
      (htheirs : holder sid w.log.reverse = some j) : False := by
    rw [hmine] at htheirs
    exact hne (Option.some.inj htheirs)
  have hlog (es : List LogTrace) (node : Node) : ∀ entry ∈ w.log, entry ∈ (w.extend j es node).log :=
    fun entry hentry => List.mem_append_left _ hentry
  cases hstep with
  | @leaves es node untouched elsewhere =>
    refine ⟨hlog es node, fun hheld => ⟨?_, untouched.row, untouched.owners⟩⟩
    rw [trail_extend, holder_elsewhere elsewhere]
    exact hheld
  | @appends node untouched live =>
    refine ⟨hlog _ node, fun hheld => ⟨?_, untouched.row, untouched.owners⟩⟩
    rw [trail_extend]
    exact hheld
  | acknowledges accepted =>
    refine ⟨hlog _ _, fun hheld => ⟨?_, rfl, .refl sid _⟩⟩
    rw [trail_extend]
    exact hheld
  | @locks node free row logs locked =>
    refine ⟨hlog _ node, fun hheld => ?_⟩
    rw [hheld] at free
    cases free
  | @ends node held row logs unlocked =>
    exact ⟨hlog _ node, fun hheld => (hmine hheld held).elim⟩
  | starts row unresolved held once owners =>
    exact ⟨hlog _ _, fun hheld => (hmine hheld held).elim⟩
  | @commits node locked attrs held row updated kept logs unlocked gone =>
    exact ⟨hlog _ node, fun hheld => (hmine hheld held).elim⟩

/-- The contract of the processes that work on the deployment and its log. -/
def logContract (sid : Sid) : Contract Node LogTrace where
  inv := LogInvariant sid
  rely := LogRely sid
  guar := LogStep sid
  keeps := LogStep.keeps
  compatible := LogStep.compatible

end Contracts

section Transactions

variable {α : Type} {sid : Sid} {i id : ℕ}

/-- What a process knows that holds the lock of the row: the row, and whatever it has
found out about the owners that cannot change while owners only go. -/
def Behind (sid : Sid) (i id : ℕ) (locked : Deployment) (known : Logs → Prop)
    (w : World Node LogTrace) : Prop :=
  id = sid → holder sid w.log.reverse = some i ∧
    w.store.db.deployments.find? sid = some locked ∧ known w.store.logs

theorem behind_stable {locked : Deployment} {known : Logs → Prop}
    (hknown : ∀ logs logs', Shrinks sid logs logs' → known logs → known logs') :
    (logContract sid).Stable i (Behind sid i id locked known) := by
  intro w w' hrely hbehind hid
  obtain ⟨hheld, hrow, hold⟩ := hbehind hid
  obtain ⟨hheld', hrow', hshrinks⟩ := hrely.held hheld
  exact ⟨hheld', hrow'.trans hrow, hknown _ _ hshrinks hold⟩

theorem behind_stable_true {locked : Deployment} :
    (logContract sid).Stable i (Behind sid i id locked fun _ => True) :=
  behind_stable fun _ _ _ _ => trivial

/-- A step that does nothing about the deployment and its log. -/
theorem leaves_extend {w : World Node LogTrace} {es : List LogTrace} {node : Node}
    (hrow : node.db.deployments.find? sid = w.store.db.deployments.find? sid)
    (howners : Shrinks sid w.store.logs node.logs)
    (hlocks : node.db.locks.count sid = w.store.db.locks.count sid)
    (hes : ∀ e ∈ es, e.elsewhere sid) : LogStep sid i w (w.extend i es node) :=
  .leaves ⟨hrow, howners, hlocks⟩ hes

/-- A read whose answer is remembered in a stable assertion. -/
theorem read_sat {f : Node → α} {P : World Node LogTrace → Prop}
    {Q : α → World Node LogTrace → Prop}
    (h : ∀ w, LogInvariant sid w → P w → Q (f w.store) w)
    (hQ : ∀ a, (logContract sid).Stable i (Q a)) :
    (logContract sid).Sat i (Proc.read f) P Q := by
  refine .atomic (fun w hinv hw => ?_) hQ
  have hsame : w.advance i (fun node => (node, ([] : List LogTrace))) = w := by
    simp [World.advance]
  refine ⟨leaves_extend rfl (.refl sid _) rfl (by simp), ?_⟩
  exact (congrArg (Q (f w.store)) hsame).mpr (h w hinv hw)

/-- The lock of a row is acquired while nobody holds it. -/
theorem lockRow_sat (id patience : ℕ) :
    (logContract sid).Sat i (lockRow id patience) (fun _ => True) fun answer w =>
      ∀ deployment, answer = .acquired deployment →
        Behind sid i id deployment (fun _ => True) w ∧ deployment.id = id := by
  induction patience with
  | zero => exact .done fun w _ deployment h => (by cases h)
  | succ patience ih =>
    have hlock : (logContract sid).Sat i (Proc.atomic (tryLockRow id))
        (fun _ => True) fun answer w => ∀ deployment, answer = .acquired deployment →
          Behind sid i id deployment (fun _ => True) w ∧ deployment.id = id := by
      refine .atomic ?_ ?_
      · intro w hinv _
        dsimp only [World.advance]
        rcases tryLockRow_cases id w.store with ⟨answer, h, hnot⟩ | ⟨deployment, hfind, hfree, h⟩
        · rw [h]
          refine ⟨leaves_extend rfl (.refl sid _) rfl (by simp), ?_⟩
          exact fun deployment heq => absurd heq (hnot _)
        · rw [h]
          by_cases hid : id = sid
          · subst hid
            have hheld : holder id (w.extend i [.locked id] (lockedNode w.store id)).log.reverse =
                some i := by
              rw [trail_extend]
              simp [holder, LogTrace.holder]
            have hnone : w.store.db.locks.count id = 0 := List.count_eq_zero.mpr hfree
            have hfree' : holder id w.log.reverse = none := by
              rcases hholder : holder id w.log.reverse with _ | j
              · rfl
              · have hlocks := hinv.locks
                rw [hnone, hholder] at hlocks
                cases hlocks
            refine ⟨.locks hfree' rfl rfl ?_, ?_⟩
            · change (id :: w.store.db.locks).count id = 1
              rw [List.count_cons_self, hnone]
            · rintro d ⟨⟩
              exact ⟨fun _ => ⟨hheld, hfind, trivial⟩, find?_id hfind⟩
          · refine ⟨leaves_extend rfl (.refl sid _) ?_ ?_, ?_⟩
            · exact List.count_cons_of_ne hid
            · simpa [LogTrace.elsewhere] using hid
            · rintro d ⟨⟩
              exact ⟨fun h => absurd h hid, find?_id hfind⟩
      · intro answer w w' hrely hw deployment h
        obtain ⟨hbehind, hid⟩ := hw deployment h
        exact ⟨behind_stable_true hrely hbehind, hid⟩
    refine hlock.bind fun answer => ?_
    cases answer with
    | held => exact ih.conseq (fun _ _ => trivial) fun _ _ hw => hw
    | missing => exact .done fun w hw => hw
    | acquired deployment => exact .done fun w hw => hw

/-- A transaction that gives its lock back without a change. -/
theorem endTransaction_sat {locked : Deployment} {known : Logs → Prop} (value : α) :
    (logContract sid).Sat i (endTransaction id value) (Behind sid i id locked known)
      fun _ _ => True := by
  refine .atomic (fun w hinv hw => ⟨?_, trivial⟩) fun _ _ _ _ _ => trivial
  by_cases hid : id = sid
  · subst hid
    obtain ⟨hheld, _⟩ := hw rfl
    refine .ends hheld rfl rfl ?_
    have hone := hinv.locks
    rw [hheld] at hone
    change (w.store.db.locks.erase id).count id = 0
    rw [List.count_erase_self, hone]
    rfl
  · refine leaves_extend rfl (.refl sid _) ?_ ?_
    · exact List.count_erase_of_ne (Ne.symm hid)
    · simpa [LogTrace.elsewhere] using hid

/-- An owner is started under the lock of an unresolved row. -/
theorem ensureOwner_sat {deployment : Deployment} (seeds : List Sid) (call : PoolCall)
    (hopen : deployment.state.terminal = false) :
    (logContract sid).Sat i (ensureOwner deployment seeds call)
      (Behind sid i deployment.id deployment fun _ => True)
      fun _ => Behind sid i deployment.id deployment fun _ => True := by
  have hlookup := @read_sat _ sid i
    (fun node : Node => node.logs.lookup deployment.orgId deployment.id)
    (Behind sid i deployment.id deployment fun _ => True)
    (fun _ => Behind sid i deployment.id deployment fun _ => True)
    (fun _ _ hw => hw) fun _ => behind_stable_true
  refine hlookup.bind fun found => ?_
  cases found with
  | some owner => exact .done fun _ hw => hw
  | none =>
    dsimp only
    split
    · exact .done fun _ hw => hw
    · refine .atomic (fun w hinv hw => ?_) fun _ => behind_stable_true
      by_cases hid : deployment.id = sid
      · obtain ⟨hheld, hrow, _⟩ := hw hid
        refine ⟨.starts hrow hopen hheld (hinv.once.ensure deployment seeds) ?_, ?_⟩
        · intro owner howner _
          rcases mem_ensure_cases howner with hold | ⟨_, hnew, _⟩
          · exact Or.inl hold
          · exact Or.inr hnew
        · intro _
          refine ⟨?_, hrow, trivial⟩
          simpa [World.advance] using hheld
      · refine ⟨leaves_extend rfl (shrinks_ensure seeds hid) rfl (by simp), ?_⟩
        exact fun h => absurd h hid

/-- A report that starts an owner releases its lock again. -/
theorem createOwner_sat (garden : Garden) (request : SeedDeploymentLog) (patience : ℕ)
    (call : PoolCall) (commits : Bool) :
    (logContract sid).Sat i (createOwner garden request patience call commits)
      (fun _ => True) fun _ _ => True := by
  refine (lockRow_sat request.deploymentSid patience).bind fun answer => ?_
  cases answer with
  | held => exact .done fun _ _ => trivial
  | missing => exact .done fun _ _ => trivial
  | acquired deployment =>
    have hlocked : (logContract sid).Sat i (do
          if deployment.gardenId ≠ garden.id then
            endTransaction request.deploymentSid (some (.error .unauthorized))
          else if deployment.state.terminal then
            endTransaction request.deploymentSid (some (.error .deploymentTerminal))
          else do
            let seeds ← Proc.read fun node : Node => node.db.storedSeeds deployment
            if request.seedSid ∈ seeds then do
              let answer ← ensureOwner deployment seeds call
              endTransaction request.deploymentSid (if commits then some answer else none)
            else endTransaction request.deploymentSid (some (.error .seedNotInDeployment)))
        (fun w => Behind sid i request.deploymentSid deployment (fun _ => True) w ∧
          deployment.id = request.deploymentSid) fun _ _ => True := by
      refine Sat.assume fun hid => ?_
      rw [← hid]
      split
      · exact endTransaction_sat _
      · split
        · exact endTransaction_sat _
        · rename_i hopen
          have hseeds := @read_sat _ sid i
            (fun node : Node => node.db.storedSeeds deployment)
            (Behind sid i deployment.id deployment fun _ => True)
            (fun _ => Behind sid i deployment.id deployment fun _ => True)
            (fun _ _ hw => hw) fun _ => behind_stable_true
          refine hseeds.bind fun seeds => ?_
          split
          · refine (ensureOwner_sat seeds call (by simpa using hopen)).bind fun answer => ?_
            exact endTransaction_sat _
          · exact endTransaction_sat _
    exact hlocked.conseq (fun w hw => hw deployment rfl) fun _ _ _ => trivial

theorem findOwner_sat (garden : Garden) (request : SeedDeploymentLog) (patience : ℕ)
    (call : PoolCall) (commits : Bool) :
    (logContract sid).Sat i (findOwner garden request patience call commits)
      (fun _ => True) fun _ _ => True := by
  have hlookup := @read_sat _ sid i
    (fun node : Node => node.logs.lookup node.db.orgId request.deploymentSid)
    (fun _ => True) (fun _ _ => True) (fun _ _ _ => trivial) fun _ _ _ _ _ => trivial
  refine hlookup.bind fun found => ?_
  cases found with
  | some owner => exact .done fun _ _ => trivial
  | none => exact createOwner_sat garden request patience call commits

/-- The process had its chunk for the deployment accepted. -/
def Accepted (sid : Sid) (i : ℕ) (request : SeedDeploymentLog) (w : World Node LogTrace) : Prop :=
  request.deploymentSid = sid → (i, .appended sid) ∈ w.log

theorem accepted_stable (request : SeedDeploymentLog) :
    (logContract sid).Stable i (Accepted sid i request) := by
  intro w w' hrely haccepted hsid
  exact hrely.log _ (haccepted hsid)

/-- An accepted chunk is in the log. -/
theorem appendChunk_sat (pid : ℕ) (garden : Garden) (request : SeedDeploymentLog) :
    (logContract sid).Sat i (appendChunk pid garden request) (fun _ => True) fun reply w =>
      ∀ u, reply = .ok u → Accepted sid i request w := by
  refine .atomic (fun w hinv _ => ?_) fun reply w w' hrely hw u hu =>
    accepted_stable request hrely (hw u hu)
  have hshrinks := shrinks_append sid w.store.logs pid w.store.db.orgId garden request
  dsimp only [World.advance]
  rcases happend : w.store.logs.append pid w.store.db.orgId garden request with
    ⟨⟨logs, sent⟩, reason | u⟩
  · rw [happend] at hshrinks
    refine ⟨leaves_extend rfl hshrinks rfl (by simp), ?_⟩
    exact fun u hu => by cases hu
  · rw [happend] at hshrinks
    by_cases hsid : request.deploymentSid = sid
    · have hok : (w.store.logs.append pid w.store.db.orgId garden request).2 = .ok u := by
        rw [happend]
      obtain ⟨owner, howner, hfor⟩ := live_of_append hok
      dsimp only
      rw [hsid]
      refine ⟨.appends ⟨rfl, hshrinks, rfl⟩ ⟨owner, howner, hfor.trans hsid⟩, ?_⟩
      intro _ _ _
      exact List.mem_append_right _ (List.mem_singleton_self _)
    · refine ⟨leaves_extend rfl hshrinks rfl ?_, ?_⟩
      · simpa [LogTrace.elsewhere] using hsid
      · exact fun _ _ h => absurd h hsid

/-- A report that succeeds had its chunk accepted. -/
theorem record_sat (garden : Garden) (request : SeedDeploymentLog) (patience : ℕ)
    (call : PoolCall) (commits answered : Bool) :
    (logContract sid).Sat i (record garden request patience call commits answered)
      (fun _ => True) fun reply w => ∀ u, reply = some (.ok u) → Accepted sid i request w := by
  unfold record
  split
  · exact .done fun _ _ u hu => (by cases hu)
  · refine (findOwner_sat garden request patience call commits).bind fun found => ?_
    rcases found with _ | reason | pid
    · exact .done fun _ _ u hu => (by cases hu)
    · exact .done fun _ _ u hu => (by cases hu)
    · dsimp only
      split
      · refine (appendChunk_sat pid garden request).bind fun reply => ?_
        refine .done fun w hw u hu => hw u ?_
        exact Option.some.inj hu
      · exact .done fun _ _ u hu => (by cases hu)

/-- The garden hears only of accepted chunks. -/
theorem reportLog_sat (garden : Garden) (request : SeedDeploymentLog) (patience : ℕ)
    (call : PoolCall) (commits answered : Bool) :
    (logContract sid).Sat i (reportLog garden request patience call commits answered)
      (fun _ => True) fun _ _ => True := by
  refine (record_sat garden request patience call commits answered).bind fun reply => ?_
  rcases reply with _ | reason | u
  · exact .done fun _ _ => trivial
  · exact .done fun _ _ => trivial
  · refine .atomic (fun w _ hw => ⟨?_, trivial⟩) fun _ _ _ _ _ => trivial
    by_cases hsid : request.deploymentSid = sid
    · have haccepted := hw u rfl hsid
      dsimp only [World.advance]
      rw [hsid]
      exact .acknowledges haccepted
    · refine leaves_extend rfl (.refl sid _) rfl ?_
      simpa [LogTrace.elsewhere] using hsid

/-- The deployment has no owner left. -/
def Unowned (sid : Sid) (logs : Logs) : Prop :=
  ∀ owner ∈ logs.live.rows, owner.buffer.deployment.id ≠ sid

theorem Unowned.shrink {logs logs' : Logs} (hshrinks : Shrinks sid logs logs')
    (h : Unowned sid logs) : Unowned sid logs' := by
  intro owner howner hsid
  obtain ⟨old, hold, _, hdeployment⟩ := hshrinks owner howner hsid
  exact h old hold (by rw [hdeployment, hsid])

/-- The one owner under the name of the deployment. -/
def OwnedBy (sid : Sid) (orgId pid : ℕ) (logs : Logs) : Prop :=
  ∀ owner ∈ logs.live.rows, owner.buffer.deployment.id = sid →
    owner.buffer.deployment.orgId = orgId → owner.pid = pid

theorem OwnedBy.shrink {orgId pid : ℕ} {logs logs' : Logs} (hshrinks : Shrinks sid logs logs')
    (h : OwnedBy sid orgId pid logs) : OwnedBy sid orgId pid logs' := by
  intro owner howner hsid horg
  obtain ⟨old, hold, hpid, hdeployment⟩ := hshrinks owner howner hsid
  rw [← hpid]
  exact h old hold (by rw [hdeployment, hsid]) (by rw [hdeployment, horg])

/-- Behind the lock, an owner of the deployment's log has the name of the row. -/
theorem org_of_behind {w : World Node LogTrace} {locked : Deployment} (hinv : LogInvariant sid w)
    (hrow : w.store.db.deployments.find? sid = some locked) {owner : Owner}
    (howner : owner ∈ w.store.logs.live.rows) (hsid : owner.buffer.deployment.id = sid) :
    owner.buffer.deployment.orgId = locked.orgId := by
  obtain ⟨deployment, hfind, horg, _⟩ := hinv.unresolved owner howner hsid
  rw [hrow, Option.some.injEq] at hfind
  rw [hfind, horg]

/-- The owner that is found and stopped under the lock is the last one. -/
theorem deleteForDeployment_sat (locked : Deployment) (attrs : Attrs) :
    (logContract sid).Sat i (deleteForDeployment (locked.apply attrs))
      (Behind sid i locked.id locked fun _ => True)
      fun _ => Behind sid i locked.id locked (Unowned sid) := by
  have hlookup := @read_sat _ sid i
    (fun node : Node => node.logs.lookup locked.orgId locked.id)
    (Behind sid i locked.id locked fun _ => True)
    (fun found => Behind sid i locked.id locked fun logs =>
      found.elim (Unowned sid logs) fun owner => OwnedBy sid locked.orgId owner.pid logs) ?_ ?_
  · refine hlookup.bind fun found => ?_
    cases found with
    | none => exact .done fun _ hw => hw
    | some running =>
      refine .atomic (fun w hinv hw => ?_) fun _ => behind_stable fun _ _ => Unowned.shrink
      refine ⟨leaves_extend rfl (shrinks_stop sid _ _) rfl (by simp), fun hid => ?_⟩
      obtain ⟨hheld, hrow, howned⟩ := hw hid
      refine ⟨by simpa [World.advance] using hheld, hrow, ?_⟩
      intro owner howner hsid
      obtain ⟨hmem, hpid⟩ := mem_stop howner
      exact hpid (howned owner hmem hsid (org_of_behind hinv hrow hmem hsid))
  · intro w hinv hw hid
    obtain ⟨hheld, hrow, _⟩ := hw hid
    refine ⟨hheld, hrow, ?_⟩
    rcases hfound : w.store.logs.lookup locked.orgId locked.id with _ | running
    · intro owner howner hsid
      exact lookup_none hfound howner (hsid.trans hid.symm) (org_of_behind hinv hrow howner hsid)
    · obtain ⟨hmem, horg, hfor⟩ := lookup_some hfound
      intro owner howner hsid howns
      exact hinv.once owner howner running hmem hsid (hfor.trans hid) (howns.trans horg.symm)
  · intro found
    cases found with
    | none => exact behind_stable fun _ _ => Unowned.shrink
    | some running => exact behind_stable fun _ _ => OwnedBy.shrink

/-- The commit of an update that may be made: a final one finds no owner. -/
theorem endUpdate_sat (locked : Deployment) (attrs : Attrs) (commits : Bool)
    (hkept : locked.state.terminal = true → attrs.state.terminal = true) :
    (logContract sid).Sat i (endUpdate locked attrs commits)
      (Behind sid i locked.id locked fun logs => attrs.state.terminal = true → Unowned sid logs)
      fun _ _ => True := by
  unfold endUpdate
  split
  · refine .atomic (fun w hinv hw => ⟨?_, trivial⟩) fun _ _ _ _ _ => trivial
    by_cases hid : locked.id = sid
    · obtain ⟨hheld, hrow, hgone⟩ := hw hid
      have hupdated : (commitRow locked.id attrs w.store).db.deployments.find? sid =
          some (locked.apply attrs) := by
        rw [hid]
        exact find?_setDeployment_self hrow
      have hunlocked : (commitRow locked.id attrs w.store).db.locks.count sid = 0 := by
        have hone := hinv.locks
        rw [hheld] at hone
        change (w.store.db.locks.erase locked.id).count sid = 0
        rw [hid, List.count_erase_self, hone]
        rfl
      dsimp only [World.advance]
      rw [hid] at hupdated hunlocked ⊢
      exact .commits hheld hrow hupdated hkept rfl hunlocked hgone
    · refine leaves_extend ?_ (.refl sid _) ?_ ?_
      · change ((w.store.db.setDeployment locked.id attrs).deployments.find? sid) = _
        rw [find?_setDeployment]
        rcases hfind : w.store.db.deployments.find? sid with _ | row
        · rfl
        · have hother : (row.id == locked.id) = false := by
            rw [find?_id hfind]
            simpa using Ne.symm hid
          rw [Option.map_some, hother]
          rfl
      · exact List.count_erase_of_ne (Ne.symm hid)
      · intro e he
        split at he
        · rcases List.mem_cons.mp he with rfl | hlast
          · exact hid
          · rw [List.mem_singleton.mp hlast]
            exact hid
        · rw [List.mem_singleton.mp he]
          exact hid
  · exact endTransaction_sat none

/-- An update keeps the contract: it ends no log behind the back of an owner. -/
theorem reportUpdate_sat (id : ℕ) (attrs : Attrs) (patience : ℕ) (commits : Bool) :
    (logContract sid).Sat i (reportUpdate id attrs patience commits)
      (fun _ => True) fun _ _ => True := by
  have hupdate : (logContract sid).Sat i (updateDeployment id attrs patience commits)
      (fun _ => True) fun _ _ => True := by
    refine (lockRow_sat id patience).bind fun answer => ?_
    cases answer with
    | held => exact .done fun _ _ => trivial
    | missing => exact .done fun _ _ => trivial
    | acquired locked =>
      have hlocked : (logContract sid).Sat i (do
            if locked.state.terminal && !attrs.state.terminal then
              endTransaction id (some (.error .deploymentTerminal))
            else if attrs.state.terminal then do
              deleteForDeployment (locked.apply attrs)
              endUpdate locked attrs commits
            else endUpdate locked attrs commits)
          (fun w => Behind sid i id locked (fun _ => True) w ∧ locked.id = id)
          fun _ _ => True := by
        refine Sat.assume fun hid => ?_
        rw [← hid]
        split
        · exact endTransaction_sat _
        · rename_i hreopened
          have hkept : locked.state.terminal = true → attrs.state.terminal = true := by
            intro hterminal
            simpa [hterminal] using hreopened
          split
          · refine (deleteForDeployment_sat locked attrs).bind fun _ => ?_
            refine (endUpdate_sat locked attrs commits hkept).conseq ?_ fun _ _ _ => trivial
            intro w hw hid
            obtain ⟨hheld, hrow, hgone⟩ := hw hid
            exact ⟨hheld, hrow, fun _ => hgone⟩
          · rename_i hopen
            refine (endUpdate_sat locked attrs commits hkept).conseq ?_ fun _ _ _ => trivial
            intro w hw hid
            obtain ⟨hheld, hrow, _⟩ := hw hid
            exact ⟨hheld, hrow, fun hterminal => absurd hterminal hopen⟩
      exact hlocked.conseq (fun w hw => hw locked rfl) fun _ _ _ => trivial
  exact hupdate.bind fun _ => .done fun _ _ => trivial

/-- All processes keep the contract. -/
theorem operates_sat {p : NodeProgram PUnit} (hp : Operates p) :
    (logContract sid).Sat i p (fun _ => True) fun _ _ => True := by
  cases hp with
  | reportLog garden request patience call commits answered =>
    exact reportLog_sat garden request patience call commits answered
  | reportUpdate id attrs patience commits => exact reportUpdate_sat id attrs patience commits
  | endOwner pid =>
    refine .atomic (fun w _ _ => ⟨?_, trivial⟩) fun _ _ _ _ _ => trivial
    exact leaves_extend rfl (shrinks_stop sid _ pid) rfl (by simp)
  | restartPool pool hpool =>
    refine .atomic (fun w _ _ => ⟨?_, trivial⟩) fun _ _ _ _ _ => trivial
    exact leaves_extend rfl (shrinks_delete sid _ _ pool hpool) rfl (by simp)
  | appendLate pid garden request =>
    exact (appendChunk_sat pid garden request).bind fun _ => .done fun _ _ => trivial

end Transactions

section Runs

/-- A server before any process works on logs: no row is locked, and the owners there
are belong to unresolved deployments and have names of their own. -/
structure Settled (node : Node) : Prop where
  locks : node.db.locks = []
  once : ∀ sid, NamesOnce sid node.logs
  unresolved : ∀ owner ∈ node.logs.live.rows, ∃ deployment,
    node.db.deployments.find? owner.buffer.deployment.id = some deployment ∧
      deployment.orgId = owner.buffer.deployment.orgId ∧ deployment.state.terminal = false

/-- A server without owners and open transactions. -/
theorem settled_of_empty {node : Node} (hlocks : node.db.locks = [])
    (hlive : node.logs.live.rows = []) : Settled node where
  locks := hlocks
  once := by
    intro sid a ha
    rw [hlive] at ha
    cases ha
  unresolved := by
    intro owner howner
    rw [hlive] at howner
    cases howner

/-- In every interleaving the owners, the rows and the log of each deployment agree. -/
theorem invariant_of_reachable {node : Node} (hnode : Settled node) {c : Pool Node LogTrace}
    (h : Reachable Operates (Pool.start node) c) (sid : Sid) : LogInvariant sid c.world := by
  have hstart : LogInvariant sid (⟨node, []⟩ : World Node LogTrace) := by
    constructor
    · change node.db.locks.count sid = 0
      rw [hnode.locks, List.count_nil]
    · exact hnode.once sid
    · intro owner howner hsid
      have hopen := hnode.unresolved owner howner
      rw [hsid] at hopen
      exact hopen
    · intro j hj
      cases hj
    · trivial
  have hholds : (logContract sid).Holds (fun _ _ => True) (Pool.start node) := by
    refine ⟨hstart, ?_⟩
    intro i p hp
    simp [Pool.start] at hp
  exact (holds_of_reachable (fun p hp i => operates_sat hp) hholds h).1

/-- A final row has no owner, and the log says so of every deployment: whatever was
accepted was accepted before the end, and the garden hears of nothing else. -/
structure QuietEnd (sid : Sid) (w : World Node LogTrace) : Prop where
  /-- No buffer is left once a final state is committed. -/
  unowned : ∀ deployment, w.store.db.deployments.find? sid = some deployment →
    deployment.state.terminal = true →
      ∀ owner ∈ w.store.logs.live.rows, owner.buffer.deployment.id ≠ sid
  /-- A committed end stands. -/
  final : ∀ j, (j, .finished sid) ∈ w.log →
    ∃ deployment, w.store.db.deployments.find? sid = some deployment ∧
      deployment.state.terminal = true
  /-- No owner accepts a chunk after the end. -/
  accepted : ∀ before after i, w.log = before ++ (i, .appended sid) :: after →
    ∀ j, (j, .finished sid) ∉ before
  /-- What the garden hears of was accepted earlier, in the same report. -/
  acknowledged : ∀ before after i, w.log = before ++ (i, .acknowledged sid) :: after →
    (i, .appended sid) ∈ before

/-- No log after the end: in every interleaving of reports and updates, with owners that
end and pools that start again at any time, a finished deployment has no buffer, and
every chunk that a garden is told of was accepted before the deployment was finished. -/
theorem no_log_after_end {node : Node} (hnode : Settled node) {c : Pool Node LogTrace}
    (h : Reachable Operates (Pool.start node) c) (sid : Sid) : QuietEnd sid c.world := by
  have hinv := invariant_of_reachable hnode h sid
  have hafter {before after : Trail} {i : ℕ} {e : LogTrace}
      (hlog : c.world.log = before ++ (i, e) :: after) : e.After sid i before.reverse := by
    have horderly := hinv.orderly
    rw [hlog, List.reverse_append, List.reverse_cons, List.append_assoc] at horderly
    exact horderly.after
  constructor
  · intro deployment hfind hterminal owner howner hsid
    obtain ⟨row, hrow, _, hopen⟩ := hinv.unresolved owner howner hsid
    rw [hfind, Option.some.injEq] at hrow
    rw [← hrow, hterminal] at hopen
    cases hopen
  · intro j hj
    exact hinv.ended j (List.mem_reverse.mpr hj)
  · intro before after i hlog j hj
    have haccepted := hafter hlog
    exact haccepted rfl j (List.mem_reverse.mpr hj)
  · intro before after i hlog
    have hacknowledged := hafter hlog
    exact List.mem_reverse.mp (hacknowledged rfl)

/-- A deployment on its way, without a log so far. -/
def sentNode : Node where
  db := builtSystem.insertDeployment sentDeployment
  logs := ⟨.empty, {}, consistent_new⟩

theorem settled_sentNode : Settled sentNode := settled_of_empty rfl rfl

/-- The machine's first output, and the report that its deployment is complete. -/
def outputAndEnd : List (NodeProgram PUnit) :=
  [reportLog ⟨1, [], none⟩ firstOutput 1 .answered true true,
    reportUpdate 1 { state := .completed } 1 true]

theorem operates_outputAndEnd : ∀ p ∈ outputAndEnd, Operates p := by
  intro p hp
  rcases List.mem_cons.mp hp with rfl | hlast
  · exact .reportLog _ _ _ _ _ _
  · rw [List.mem_singleton.mp hlast]
    exact .reportUpdate _ _ _ _

/-- The output is accepted and acknowledged, and then its deployment is finished. -/
theorem no_log_after_end_output :
    let run := started sentNode outputAndEnd [0, 0, 0, 0, 0, 0, 0, 0, 1, 1, 1, 1]
    run.world.log = [(0, .locked 1), (0, .unlocked 1), (0, .appended 1), (0, .acknowledged 1),
      (1, .locked 1), (1, .finished 1), (1, .unlocked 1)] ∧ QuietEnd 1 run.world :=
  ⟨by decide, no_log_after_end settled_sentNode (started_reachable operates_outputAndEnd) 1⟩

/-- The garden may hear of its output only after the deployment was finished: the owner
had accepted it, but the reply was still to be sent. -/
theorem acknowledged_after_end :
    ¬ ∀ (node : Node) (c : Pool Node LogTrace) (sid : Sid), Settled node →
      Reachable Operates (Pool.start node) c →
        (∀ before after i j, c.world.log = before ++ (i, .acknowledged sid) :: after →
          (j, .finished sid) ∉ before) ∧
        ∀ deployment, c.world.store.db.deployments.find? sid = some deployment →
          deployment.state.terminal = true →
            ∀ owner ∈ c.world.store.logs.live.rows, owner.buffer.deployment.id ≠ sid := by
  intro h
  let run := started sentNode outputAndEnd [0, 0, 0, 0, 0, 0, 0, 1, 1, 1, 1, 0]
  have hlog : run.world.log = [(0, .locked 1), (0, .unlocked 1), (0, .appended 1),
      (1, .locked 1), (1, .finished 1), (1, .unlocked 1)] ++ (0, .acknowledged 1) :: [] := by
    decide
  have hreached : Reachable Operates (Pool.start sentNode) run :=
    started_reachable operates_outputAndEnd
  have hnever := (h sentNode run 1 settled_sentNode hreached).1 _ _ _ 1 hlog
  exact hnever (by decide)

end Runs

end Sower.Server.Recording
