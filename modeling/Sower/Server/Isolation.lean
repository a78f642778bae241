import Sower.Server.Channel

/-!
# Isolation of gardens

What a report changes of other gardens. Reports about seeds and logs change nothing
of theirs, except that the pool of logs is shared: a full one drops its oldest buffer
for a new one. A report about a deployment is confined to that deployment and its log.
-/

namespace Sower.Server

open Sower.Wire Keyed

section Frames

/-- The row is about a seed of another garden's deployment. -/
def Node.Elsewhere (node : Node) (garden : Garden) (row : SeedDeploymentRow) : Prop :=
  ∃ deployment, node.db.deployments.find? row.deploymentId = some deployment ∧
    deployment.gardenId ≠ garden.id

/-- Whatever belongs to other gardens is the same in both states, exempted deployments
and stopped owners aside. -/
structure Spares (garden : Garden) (exempt : Sid → Prop) (stopped : ℕ → Prop)
    (node node' : Node) : Prop where
  deployments : ∀ row, row.gardenId ≠ garden.id → ¬ exempt row.id →
    (row ∈ node'.db.deployments.rows ↔ row ∈ node.db.deployments.rows)
  seedDeployments : ∀ row, node.Elsewhere garden row →
    (row ∈ node'.seedDeployments.rows ↔ row ∈ node.seedDeployments.rows)
  logs : ∀ owner, owner.buffer.deployment.gardenId ≠ garden.id →
    ¬ exempt owner.buffer.deployment.id →
      (owner ∈ node'.logs.live.rows ↔ owner ∈ node.logs.live.rows ∧ ¬ stopped owner.pid)

variable {node : Node} {garden : Garden} {exempt : Sid → Prop} {stopped : ℕ → Prop}

/-- Nothing happens. -/
theorem Spares.refl (hstopped : ∀ pid, ¬ stopped pid) : Spares garden exempt stopped node node where
  deployments _ _ _ := Iff.rfl
  seedDeployments _ _ := Iff.rfl
  logs owner _ _ := (and_iff_left (hstopped owner.pid)).symm

/-- Only the logs differ. -/
theorem Spares.of_logs {logs : Logs} (h : ∀ owner : Owner,
      owner.buffer.deployment.gardenId ≠ garden.id → ¬ exempt owner.buffer.deployment.id →
        (owner ∈ logs.live.rows ↔ owner ∈ node.logs.live.rows ∧ ¬ stopped owner.pid)) :
    Spares garden exempt stopped node { node with logs := logs } where
  deployments _ _ _ := Iff.rfl
  seedDeployments _ _ := Iff.rfl
  logs := h

end Frames

section Reports

variable {node : Node} {garden : Garden} {sid : Sid} {attrs : Attrs} {stopped : ℕ → Prop}

/-- The end of a deployment's log leaves the logs of other deployments. -/
theorem mem_deleteLog {logs : Logs} {orgId : ℕ} {owner : Owner}
    (hother : owner.buffer.deployment.id ≠ sid) :
    owner ∈ (logs.delete orgId sid).live.rows ↔ owner ∈ logs.live.rows := by
  unfold Logs.delete
  split
  · exact Iff.rfl
  · rename_i ended hended
    obtain ⟨hmem, hfor⟩ : ended ∈ logs.live.rows ∧ ended.isFor orgId sid = true :=
      ⟨List.mem_of_find?_eq_some hended, List.find?_some hended⟩
    unfold Logs.stop
    rw [Table.mem_delete]
    refine and_iff_left_of_imp fun howner => ?_
    rw [beq_eq_false_iff_ne]
    intro hpid
    obtain rfl := Table.eq_of_key howner hmem hpid
    have hid : owner.buffer.deployment.id = sid := by
      simpa using (Bool.and_eq_true_iff.mp hfor).2
    exact hother hid

/-- A report about a deployment changes that deployment and its log at most. -/
theorem recordReport_spares (hstopped : ∀ pid, ¬ stopped pid) :
    Spares garden (· = sid) stopped node (node.recordReport sid attrs).1 := by
  rcases recordReport_cases node sid attrs with ⟨reason, h⟩ | ⟨deployment, hfind, h⟩
  · rw [h]
    exact .refl hstopped
  · rw [h]
    constructor
    · intro row _ hother
      have hkept : ∀ old ∈ node.db.deployments.rows, (old.id == sid) = true →
          ¬ old.id ≠ sid ∧ ¬ (old.apply attrs).id ≠ sid := by
        intro old _ hkey
        have hold : old.id = sid := by simpa using hkey
        exact ⟨fun hne => hne hold, fun hne => hne hold⟩
      exact Table.mem_update_of_other (fun row => row.id ≠ sid) (Deployment.apply_id attrs)
        hkept hother
    · exact fun _ _ => Iff.rfl
    · intro owner _ hother
      rw [and_iff_left (hstopped owner.pid)]
      dsimp only
      split
      · exact mem_deleteLog hother
      · exact Iff.rfl

/-- A report about a seed changes rows of the garden's deployments only. -/
theorem recordSeed_spares {exempt : Sid → Prop} {seedSid : Sid}
    {change : SeedDeploymentRow → SeedDeploymentRow} (hchange : ∀ row, (change row).id = row.id)
    (hdeployment : ∀ row, (change row).deploymentId = row.deploymentId)
    (hstopped : ∀ pid, ¬ stopped pid) :
    Spares garden exempt stopped node (node.recordSeed garden sid seedSid change hchange).1 := by
  unfold Node.recordSeed
  rcases hfind : node.db.deployments.find? sid with _ | deployment
  · exact .refl hstopped
  · dsimp only
    split
    · exact .refl hstopped
    · rename_i hgarden
      have hown : deployment.gardenId = garden.id := not_not.mp hgarden
      rcases hfetch : node.fetchSeedDeployment deployment.id seedSid with reason | row
      · exact .refl hstopped
      · have hrow : row ∈ node.seedDeployments.rows ∧ row.deploymentId = deployment.id := by
          unfold Node.fetchSeedDeployment at hfetch
          split at hfetch
          · cases hfetch
          · rename_i found hfound
            cases hfetch
            obtain ⟨hmem, hcond⟩ := List.mem_filter.mp (hfound ▸ List.mem_singleton_self row)
            simp only [Bool.and_eq_true, decide_eq_true_eq] at hcond
            exact ⟨hmem, hcond.1.1⟩
          · cases hfetch
        have hhere (other : SeedDeploymentRow) (hsame : other.deploymentId = row.deploymentId) :
            ¬ node.Elsewhere garden other := by
          rintro ⟨elsewhere, hfound, hforeign⟩
          have hid : deployment.id = sid := find?_id hfind
          rw [hsame, hrow.2, hid, hfind, Option.some.injEq] at hfound
          subst hfound
          exact hforeign hown
        constructor
        · exact fun _ _ _ => Iff.rfl
        · intro other hother
          refine Table.mem_update_of_other (node.Elsewhere garden) hchange ?_ hother
          intro old hold hkey
          obtain rfl := Table.eq_of_key hold hrow.1 (by simpa using hkey)
          exact ⟨hhere old rfl, hhere (change old) (hdeployment old)⟩
        · intro owner _ _
          exact (and_iff_left (hstopped owner.pid)).symm

end Reports

section Logs

variable {logs : Logs} {garden : Garden} {request : SeedDeploymentLog} {orgId : ℕ}

/-- A chunk goes to a buffer of the garden, or nowhere. -/
theorem mem_append (logs : Logs) (request : SeedDeploymentLog) (orgId pid : ℕ) {owner : Owner}
    (hforeign : owner.buffer.deployment.gardenId ≠ garden.id) :
    owner ∈ (logs.append pid orgId garden request).1.1.live.rows ↔ owner ∈ logs.live.rows := by
  unfold Logs.append
  rcases hfind : logs.live.find? pid with _ | target
  · exact Iff.rfl
  · obtain ⟨htarget, hpid⟩ := Table.find?_eq_some_iff.mp hfind
    have hsame {other : Owner} (hmem : other ∈ logs.live.rows) (hkey : other.pid = pid) :
        other = target := Table.eq_of_key hmem htarget (hkey.trans hpid.symm)
    dsimp only
    by_cases hown : target.buffer.deployment.gardenId = garden.id
    · rcases happend : target.buffer.append orgId garden request with
        _ | ⟨⟨buffer, events⟩, reply⟩
      · -- The owner of the garden's buffer has crashed.
        change owner ∈ (logs.live.delete _).rows ↔ _
        rw [Table.mem_delete]
        refine and_iff_left_of_imp fun howner => ?_
        rw [beq_eq_false_iff_ne]
        intro hkey
        exact hforeign ((hsame howner hkey) ▸ hown)
      · have hown' : buffer.deployment.gardenId = garden.id := by
          rw [append_deployment happend, hown]
        have hkept : ∀ old ∈ logs.live.rows, (old.pid == pid) = true →
            ¬ old.buffer.deployment.gardenId ≠ garden.id ∧
              ¬ ({ old with buffer := buffer } : Owner).buffer.deployment.gardenId ≠ garden.id := by
          intro old hold hkey
          obtain rfl := hsame hold (by simpa using hkey)
          exact ⟨fun hne => hne hown, fun hne => hne hown'⟩
        exact Table.mem_update_of_other (f := fun owner : Owner => { owner with buffer := buffer })
          (fun owner => owner.buffer.deployment.gardenId ≠ garden.id) (fun _ => rfl) hkept hforeign
    · obtain ⟨reason, hrefused⟩ := append_foreign orgId request hown
      rw [hrefused]
      change owner ∈ (logs.live.update (·.pid == pid)
        (fun owner => { owner with buffer := target.buffer }) fun _ => rfl).rows ↔ _
      rw [Table.mem_update]
      constructor
      · rintro ⟨old, hold, rfl⟩
        split
        · rename_i hkey
          obtain rfl := hsame hold (by simpa using hkey)
          exact hold
        · exact hold
      · intro howner
        refine ⟨owner, howner, ?_⟩
        split
        · rename_i hkey
          obtain rfl := hsame howner (by simpa using hkey)
          rfl
        · rfl

/-- A new owner crowds the oldest one out of a full pool. -/
theorem mem_startOwner {deployment : Deployment} {seeds : List Sid} {owner : Owner}
    (hforeign : owner.buffer.deployment.gardenId ≠ deployment.gardenId) :
    owner ∈ (logs.startOwner deployment seeds).1.live.rows ↔
      owner ∈ logs.live.rows ∧ ¬ (logs.full ∧ logs.oldest = some owner.pid) := by
  unfold Logs.startOwner
  split
  · rename_i hcrashed
    have hroom := makeRoom_isSome (watched_consistent logs)
    rw [hcrashed] at hroom
    cases hroom
  · rename_i pool evicted hroom
    have hevicted : evicted = some owner.pid ↔ logs.full ∧ logs.oldest = some owner.pid :=
      makeRoom_evicts hroom owner.pid
    have hkept : owner ∈ (logs.live.delete fun owner => some owner.pid == evicted).rows ↔
        owner ∈ logs.live.rows ∧ ¬ (logs.full ∧ logs.oldest = some owner.pid) := by
      rw [Table.mem_delete, beq_eq_false_iff_ne, ← hevicted, ne_comm]
    dsimp only
    split
    · refine Iff.trans (Table.mem_insert_of_ne _ ?_) hkept
      rintro rfl
      exact hforeign rfl
    · exact hkept

/-- The message is a chunk for which an owner has to be started. -/
def Node.StartsOwner (node : Node) (garden : Garden) : ChannelMessage → Prop
  | .seedLog request => request.valid = true ∧
      node.logs.lookup node.db.orgId request.deploymentSid = none ∧
        ∃ deployment, node.checkOwner garden request = .ok deployment ∧
          node.logs.lookup deployment.orgId deployment.id = none
  | _ => False

/-- The message crowds the owner out of the pool. -/
def Node.CrowdsOut (node : Node) (garden : Garden) (message : ChannelMessage) (pid : ℕ) : Prop :=
  node.StartsOwner garden message ∧ node.logs.full ∧ node.logs.oldest = some pid

/-- Owners are started for deployments of the garden only. -/
theorem checkOwner_garden {node : Node} {deployment : Deployment}
    (h : node.checkOwner garden request = .ok deployment) : deployment.gardenId = garden.id := by
  unfold Node.checkOwner at h
  split at h
  · cases h
  · split at h
    · cases h
    · rename_i hgarden
      split at h
      · cases h
      · split at h
        · cases h
          exact not_not.mp hgarden
        · cases h

/-- Looking for an owner at most crowds another one out. -/
theorem mem_findOwner (node : Node) {owner : Owner} (hvalid : request.valid = true)
    (hforeign : owner.buffer.deployment.gardenId ≠ garden.id) :
    owner ∈ (node.findOwner garden request).1.live.rows ↔
      owner ∈ node.logs.live.rows ∧ ¬ node.CrowdsOut garden (.seedLog request) owner.pid := by
  unfold Node.findOwner
  rcases hlookup : node.logs.lookup node.db.orgId request.deploymentSid with _ | found
  · rcases hcheck : node.checkOwner garden request with reason | deployment
    · refine (and_iff_left ?_).symm
      rintro ⟨⟨_, _, deployment, hstarts, _⟩, _⟩
      rw [hcheck] at hstarts
      cases hstarts
    · dsimp only
      unfold Logs.ensure
      rcases hensure : node.logs.lookup deployment.orgId deployment.id with _ | running
      · have hstarts : node.StartsOwner garden (.seedLog request) :=
          ⟨hvalid, hlookup, deployment, hcheck, hensure⟩
        have hother : owner.buffer.deployment.gardenId ≠ deployment.gardenId := by
          rw [checkOwner_garden hcheck]
          exact hforeign
        refine (mem_startOwner hother).trans ?_
        unfold Node.CrowdsOut
        rw [and_iff_right hstarts]
      · refine (and_iff_left ?_).symm
        rintro ⟨⟨_, _, other, hstarts, hnone⟩, _⟩
        rw [hcheck, Except.ok.injEq] at hstarts
        rw [← hstarts, hensure] at hnone
        cases hnone
  · refine (and_iff_left ?_).symm
    rintro ⟨⟨_, hnone, _⟩, _⟩
    rw [hlookup] at hnone
    cases hnone

/-- A chunk changes logs of other gardens only by crowding one out. -/
theorem recordLog_spares (node : Node) (garden : Garden) (exempt : Sid → Prop)
    (request : SeedDeploymentLog) :
    Spares garden exempt (node.CrowdsOut garden (.seedLog request)) node
      (node.recordLog garden request).1 := by
  unfold Node.recordLog
  split
  · rename_i hinvalid
    refine .refl fun pid => ?_
    rintro ⟨⟨hvalid, _⟩, _⟩
    rw [hinvalid] at hvalid
    cases hvalid
  · rename_i hnot
    have hvalid : request.valid = true := by simpa using hnot
    have hfound (owner : Owner) (hforeign : owner.buffer.deployment.gardenId ≠ garden.id) :=
      mem_findOwner node hvalid hforeign
    split
    · rename_i logs reason hfind
      rw [hfind] at hfound
      exact .of_logs fun owner hforeign _ => hfound owner hforeign
    · rename_i logs pid hfind
      rw [hfind] at hfound
      have happended (owner : Owner) (hforeign : owner.buffer.deployment.gardenId ≠ garden.id) :=
        (mem_append logs request node.db.orgId pid hforeign).trans (hfound owner hforeign)
      split
      · rename_i happend
        rw [happend] at happended
        exact .of_logs fun owner hforeign _ => happended owner hforeign
      · rename_i happend
        rw [happend] at happended
        exact .of_logs fun owner hforeign _ => happended owner hforeign

end Logs

section Channel

/-- The deployment that a report is about. -/
def ChannelMessage.ReportsOn (sid : Sid) : ChannelMessage → Prop
  | .deploymentStatus deploymentSid => sid = deploymentSid
  | .deploymentResult deploymentSid _ _ => sid = deploymentSid
  | _ => False

/-- Whatever a garden sends changes nothing of other gardens, except that a chunk can
crowd the pool's oldest log out; what a report does to the deployment that it names,
and to its log, is left open. -/
theorem handle_spares (node : Node) (garden : Garden) (message : ChannelMessage) :
    Spares garden (message.ReportsOn ·) (node.CrowdsOut garden message) node
      (node.handle garden message).1 := by
  cases message with
  | deploymentStatus sid => exact recordReport_spares fun _ hcrowds => hcrowds.1
  | deploymentResult sid result deployedAt => exact recordReport_spares fun _ hcrowds => hcrowds.1
  | seedStatus sid seedSid status =>
    have hnone (pid : ℕ) : ¬ node.CrowdsOut garden (.seedStatus sid seedSid status) pid :=
      fun hcrowds => hcrowds.1
    refine recordSeed_spares ?_ ?_ hnone
    exact fun _ => rfl
  | seedResult sid seedSid result log =>
    have hnone (pid : ℕ) : ¬ node.CrowdsOut garden (.seedResult sid seedSid result log) pid :=
      fun hcrowds => hcrowds.1
    refine recordSeed_spares ?_ ?_ hnone
    exact fun _ => rfl
  | seedLog request => exact recordLog_spares node garden _ request

/-- The deployment that a machine was sent. -/
def sentDeployment : NewDeployment where
  gardenId := 1
  seeds := [1]
  subscriptions := []
  state := .dispatched
  lastDispatchedAt := none
  contentHash := "1"

/-- The store with the machine's system. -/
def builtSystem : Db where
  seeds := Table.empty.insert (fun id => ⟨id, "host", "nixos", "/nix/store/a", [], 0⟩) fun _ => rfl
  clock := fun n => n

/-- An owner for a deployment of another garden. -/
def foreignOwner (pid : ℕ) : Owner where
  pid := pid
  buffer :=
    { deployment := builtSystem.newRow { sentDeployment with gardenId := 2 } (pid + 2)
      seeds := [] }

/-- As many of them as the pool takes. -/
def crowdedLogs : Logs where
  live :=
    { next := 64
      rows := (List.range 64).map foreignOwner
      ordered := List.pairwise_map.mpr List.pairwise_lt_range
      fresh := by
        intro owner howner
        obtain ⟨pid, hpid, rfl⟩ := List.mem_map.mp howner
        exact List.mem_range.mp hpid }
  pool := { owners := List.range 64, order := List.range 64 }
  consistent := ⟨by decide, .refl _⟩

/-- The first output of the machine. -/
def firstOutput : SeedDeploymentLog := ⟨1, 1, 1, "building".toUTF8⟩

/-- It costs another garden its oldest log. -/
theorem handle_fails_to_spare :
    ¬ ∀ (garden : Garden) (message : ChannelMessage) (node : Node),
      Spares garden (fun _ => False) (fun _ => False) node (node.handle garden message).1 := by
  intro h
  let node : Node := { db := builtSystem.insertDeployment sentDeployment, logs := crowdedLogs }
  let machine : Garden := ⟨1, [], none⟩
  have hvalid : firstOutput.valid = true := by decide
  have hunknown : node.logs.lookup node.db.orgId 1 = none := by
    rw [← Option.isNone_iff_eq_none]
    decide
  have hstarts : node.StartsOwner machine (.seedLog firstOutput) :=
    ⟨hvalid, hunknown, builtSystem.newRow sentDeployment 1, rfl, hunknown⟩
  have hfull : node.logs.full ∧ node.logs.oldest = some 0 := by
    unfold Logs.full
    decide
  have hlive : foreignOwner 0 ∈ node.logs.live.rows :=
    List.mem_map.mpr ⟨0, by simp, rfl⟩
  have hforeign : (foreignOwner 0).buffer.deployment.gardenId ≠ machine.id := by decide
  have hspared := ((h machine (.seedLog firstOutput) node).logs (foreignOwner 0) hforeign not_false).mpr
    ⟨hlive, not_false⟩
  have hcrowded := ((recordLog_spares node machine (fun _ => False) firstOutput).logs (foreignOwner 0)
    hforeign not_false).mp hspared
  exact hcrowded.2 ⟨hstarts, hfull⟩

end Channel

end Sower.Server
