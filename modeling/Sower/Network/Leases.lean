import Sower.Network.LeaseRequests
import Sower.Network.ListedHost

/-!
# Network leases in every interleaving

Any number of requests, root hooks and processes of the host run in any order,
and each operation may be killed at any of its steps. Whatever they do, no two
leases share a slot, a token or an execution; a lease that has gone, or whose
revocation has begun, does not come back; and an active lease of a live owner is
left to that owner.
-/

namespace Sower.Network

open Process Interleaving Contract

variable {η : Type} {env : Environment η} {m₀ : Machine η} {c c' : Pool (Machine η) LeaseEvent}

section Runs

/-- What the operations find when the first of them starts. -/
structure Machine.Orderly (env : Environment η) (m : Machine η) : Prop where
  /-- No two leases share a slot. -/
  slots : (m.files.map Lease.slot).Nodup
  /-- No two leases share a token. -/
  tokens : (m.files.map Lease.token).Nodup
  /-- No two leases belong to one execution of an instance. -/
  executions : (m.files.map fun l => (l.instanceName, l.executionId)).Nodup
  /-- The instances are those of the policy. -/
  units : ∀ l ∈ m.files, l.instanceName ∈ env.policy.gardenUnits
  /-- No operation is under way. -/
  free : ∀ name, m.locks name = none
  /-- Recorded owners started in the past. -/
  recorded : ∀ l ∈ m.files, l.ownerStarttime < m.clock
  /-- Running processes started in the past. -/
  started : ∀ pid info, m.processes pid = some info → info.starttime < m.clock

theorem consistent_start (h : m₀.Orderly env) : Consistent env m₀.files ⟨m₀, []⟩ where
  slots := h.slots
  tokens := h.tokens
  executions := h.executions
  units := h.units
  seen l hl := Or.inl (List.mem_map_of_mem hl)
  drawn token hseen := by
    rcases hseen with hinitial | ⟨j, l, hcreated, -⟩
    · exact Or.inl hinitial
    · cases hcreated
  revoked token hrevoked := by
    obtain ⟨j, hmem⟩ := hrevoked
    cases hmem
  sessions i j s c c' hi := by cases hi
  single i s s' c c' hi := by cases hi
  numbered i s c hi := by cases hi
  held name s hs := by
    rw [h.free name] at hs
    cases hs
  recorded := h.recorded
  started := h.started

/-- Every reachable pool keeps the discipline. -/
theorem disciplined (hstart : m₀.Orderly env) (hdistinct : DrawsDistinct env m₀.files)
    (h : Reachable (OnHost env) (Pool.start m₀) c) :
    (leaseContract env m₀.files).HoldsFrom (fun _ _ => True) c :=
  holdsFrom_of_reachable (fun _ => firm_silent) (fun _ hp => sat_onHost hdistinct hp)
    (holdsFrom_start (consistent_start hstart)) h

/-- What holds along every step of the discipline holds along every run. -/
theorem along_run {R : Site η → Site η → Prop} (hstart : m₀.Orderly env)
    (hdistinct : DrawsDistinct env m₀.files) (hrefl : ∀ w, R w w)
    (htrans : ∀ {w w' w''}, R w w' → R w' w'' → R w w'')
    (hstep : ∀ {i w w'}, Consistent env m₀.files w → Step env m₀.files i w w' → R w w')
    (hc : Reachable (OnHost env) (Pool.start m₀) c) (hc' : Reachable (OnHost env) c c') :
    R c.world c'.world :=
  along_of_reachable (fun _ => firm_silent) (fun _ hp => sat_onHost hdistinct hp) hrefl htrans
    (fun h => hstep h.1 h.2.2) (disciplined hstart hdistinct hc) hc'

/-- What every step of the discipline keeps, every run keeps. -/
theorem kept_run {P : Site η → Prop} (hstart : m₀.Orderly env)
    (hdistinct : DrawsDistinct env m₀.files)
    (hkeep : ∀ {i w w'}, Step env m₀.files i w w' → P w → P w')
    (hc : Reachable (OnHost env) (Pool.start m₀) c) (hc' : Reachable (OnHost env) c c') :
    P c.world → P c'.world :=
  @along_run η env m₀ c c' (fun w w' => P w → P w') hstart hdistinct (fun _ h => h)
    (fun h h' hw => h' (h hw)) (fun _ hstep => hkeep hstep) hc hc'

end Runs

namespace ListedHost

/-- What the operations of the host run in. -/
def sample : Environment ListedHost := environment policy random

theorem orderly : machine.Orderly sample where
  slots := List.nodup_nil
  tokens := List.nodup_nil
  executions := List.nodup_nil
  units l hl := by cases hl
  free _ := rfl
  recorded l hl := by cases hl
  started pid info hpid := by
    dsimp only [machine] at hpid
    split at hpid
    · cases hpid
      decide
    · cases hpid

theorem drawsDistinct : DrawsDistinct sample machine.files where
  injective j k first second hfirst hsecond htoken := by
    have hdiffer : tokenOf (fun _ => 0) ≠ tokenOf (fun _ => 1) := by decide +kernel
    rcases random_cases hfirst with ⟨rfl, rfl⟩ | ⟨rfl, rfl⟩
    · rcases random_cases hsecond with ⟨rfl, -⟩ | ⟨-, rfl⟩
      · rfl
      · exact absurd htoken hdiffer
    · rcases random_cases hsecond with ⟨-, rfl⟩ | ⟨rfl, -⟩
      · exact absurd htoken.symm hdiffer
      · rfl
  fresh _ _ _ := List.not_mem_nil

/-- The process of a request of the garden for the network of an execution. -/
def provisioning (execution : String) : HostProcess ListedHost Unit :=
  requestProcess sample 1 none garden (provisionRequest execution)

/-- Two requests, in some interleaving. -/
def twoRequests (steps : List ℕ) : Pool (Machine ListedHost) LeaseEvent :=
  started machine [provisioning "build-1", provisioning "build-2"] steps

theorem reachable_twoRequests (steps : List ℕ) :
    Reachable (OnHost sample) (Pool.start machine) (twoRequests steps) := by
  refine started_reachable fun p hp => ?_
  rcases List.mem_cons.mp hp with rfl | hp
  · exact .request 1 none garden _
  · rw [List.mem_singleton.mp hp]
    exact .request 1 none garden _

theorem reachable_append (steps rest : List ℕ) :
    Reachable (OnHost sample) (twoRequests steps) (twoRequests (steps ++ rest)) := by
  have hexec : twoRequests (steps ++ rest) = (twoRequests steps).exec (rest.map .act) := by
    simp only [twoRequests, started, Pool.exec, List.map_append, List.foldl_append]
  rw [hexec]
  refine reachable_exec .refl fun m hm => ?_
  obtain ⟨i, -, rfl⟩ := List.mem_map.mp hm
  trivial

end ListedHost

section Uniqueness

/-- No two leases in the journal share a slot, a token, or an instance together with an
execution. -/
theorem leases_distinct (hstart : m₀.Orderly env) (hdistinct : DrawsDistinct env m₀.files)
    (hc : Reachable (OnHost env) (Pool.start m₀) c) :
    (c.world.store.files.map Lease.slot).Nodup ∧
      (c.world.store.files.map Lease.token).Nodup ∧
      (c.world.store.files.map fun l => (l.instanceName, l.executionId)).Nodup := by
  obtain ⟨⟨hinv, -⟩, -⟩ := disciplined hstart hdistinct hc
  exact ⟨hinv.slots, hinv.tokens, hinv.executions⟩

/-- Two requests that were both served. -/
theorem leases_distinct_twoRequests :
    ((ListedHost.twoRequests (List.replicate 60 0 ++ List.replicate 60 1)).world.store.files.map
      Lease.slot).length = 2 ∧
    ((ListedHost.twoRequests (List.replicate 60 0 ++ List.replicate 60 1)).world.store.files.map
      Lease.slot).Nodup :=
  ⟨by decide +kernel, (leases_distinct ListedHost.orderly ListedHost.drawsDistinct
    (ListedHost.reachable_twoRequests (List.replicate 60 0 ++ List.replicate 60 1))).1⟩

end Uniqueness

section Resurrection

/-- The token has named a lease, and names none any more. -/
def Departed (initial : List Lease) (token : String) (w : Site η) : Prop :=
  Seen initial w token ∧ ∀ l ∈ w.store.files, l.token ≠ token

/-- The token has named a lease, and if it still does the lease is settled. -/
def Retired (initial : List Lease) (token : String) (w : Site η) : Prop :=
  Seen initial w token ∧ ∀ l ∈ w.store.files, l.token = token → l.phase.Settled

theorem Step.departed {initial : List Lease} {i : ℕ} {w w' : Site η}
    (h : Step env initial i w w') {token : String} (hw : Departed initial token w) :
    Departed initial token w' := by
  refine ⟨seen_mono (fun _ => h.log_mono) hw.1, fun l hl htoken => ?_⟩
  rcases h.fresh l hl with ⟨f, hf, hcore⟩ | hfresh
  · exact hw.2 f hf ((eq_of_core hcore).1.trans htoken)
  · exact hfresh (htoken ▸ hw.1)

theorem Step.retired {initial : List Lease} {i : ℕ} {w w' : Site η}
    (h : Step env initial i w w') {token : String} (hw : Retired initial token w) :
    Retired initial token w' := by
  refine ⟨seen_mono (fun _ => h.log_mono) hw.1, fun l hl htoken => ?_⟩
  rcases h.fresh l hl with ⟨f, hf, hcore⟩ | hfresh
  · have hsame : f.token = l.token := (eq_of_core hcore).1
    exact h.settled f hf l hl hsame (hw.2 f hf (hsame.trans htoken))
  · exact absurd (htoken ▸ hw.1) hfresh

/-- A lease that is active after its revocation has begun is as it was then. -/
def NotReactivated (w w' : Site η) : Prop :=
  (∀ token, Revoking w token → Revoking w' token) ∧
    ∀ l ∈ w'.store.files, Revoking w l.token → l.phase = .active → l ∈ w.store.files

theorem Step.notReactivated {initial : List Lease} {i : ℕ} {w w' : Site η}
    (h : Step env initial i w w') : NotReactivated w w' := by
  refine ⟨fun token => revoking_mono fun _ => h.log_mono, fun l hl hrevoking hactive => ?_⟩
  rcases h.activates l hl hactive with hold | hfresh
  · exact hold
  · exact absurd hrevoking hfresh

theorem NotReactivated.trans {w w' w'' : Site η} (h : NotReactivated w w')
    (h' : NotReactivated w' w'') : NotReactivated w w'' :=
  ⟨fun token htoken => h'.1 token (h.1 token htoken), fun l hl hrevoking hactive =>
    h.2 l (h'.2 l hl (h.1 _ hrevoking) hactive) hrevoking hactive⟩

/-- A lease that has left the journal does not return to it; a lease whose revocation has
begun, or that the journal has as revoked or quarantined, does not become active again; and
provision returns only what the journal then has as active for its caller. -/
theorem leases_not_resurrected (hstart : m₀.Orderly env) (hdistinct : DrawsDistinct env m₀.files)
    (hc : Reachable (OnHost env) (Pool.start m₀) c) (hc' : Reachable (OnHost env) c c') :
    (∀ l ∈ c.world.store.files, ∀ c'', Reachable (OnHost env) c' c'' →
      (∀ f ∈ c'.world.store.files, f.token ≠ l.token) →
        ∀ f ∈ c''.world.store.files, f.token ≠ l.token) ∧
    (∀ l ∈ c.world.store.files, l.phase = .revoked ∨ l.phase = .quarantined →
      ∀ f ∈ c'.world.store.files, f.token = l.token →
        f.phase = .revoked ∨ f.phase = .quarantined) ∧
    (∀ f ∈ c'.world.store.files, (∃ i, (i, .revoking f.token) ∈ c.world.log) →
      f.phase = .active → f ∈ c.world.store.files) ∧
    (∀ i owner l, (i, .provisioned owner l) ∈ (c'.move (.act i)).world.log →
      (i, .provisioned owner l) ∈ c'.world.log ∨
        l ∈ c'.world.store.files ∧ l.phase = .active ∧ l.OwnedBy owner) := by
  have hreach : Reachable (OnHost env) (Pool.start m₀) c' := hc.trans hc'
  have hinv := (disciplined hstart hdistinct hc).1.1
  refine ⟨?_, ?_, ?_, ?_⟩
  · intro l hl c'' hc'' hgone
    have hseen : Seen m₀.files c'.world l.token :=
      kept_run hstart hdistinct (fun hstep => seen_mono fun _ => hstep.log_mono) hc hc'
        (hinv.seen l hl)
    have hdeparted : Departed m₀.files l.token c'.world := ⟨hseen, hgone⟩
    exact (kept_run hstart hdistinct (fun hstep => hstep.departed) hreach hc'' hdeparted).2
  · intro l hl hsettled
    have hretired : Retired m₀.files l.token c.world := by
      refine ⟨hinv.seen l hl, fun f hf htoken => ?_⟩
      rw [hinv.eq_of_token hf hl htoken]
      exact hsettled
    exact (kept_run hstart hdistinct (fun hstep => hstep.retired) hc hc' hretired).2
  · intro f hf hrevoking hactive
    have hkept : NotReactivated c.world c'.world :=
      along_run hstart hdistinct (fun w => ⟨fun _ h => h, fun _ hl _ _ => hl⟩)
        NotReactivated.trans (fun _ hstep => hstep.notReactivated) hc hc'
    exact hkept.2 f hf hrevoking hactive
  · intro i owner l hreturned
    rcases (disciplined hstart hdistinct hreach).guar i with hsame | ⟨-, -, hstep⟩
    · exact Or.inl (hsame ▸ hreturned)
    · rcases hstep.returned owner l hreturned with hold | ⟨hl, hactive, howned, -⟩
      · exact Or.inl hold
      · exact Or.inr ⟨hl, hactive, howned⟩

/-- What is settled when the second of two requests begins stays settled in it, and nothing
that is being revoked then is made active by it. -/
theorem leases_not_resurrected_twoRequests :
    (∀ l ∈ (ListedHost.twoRequests (List.replicate 60 0)).world.store.files,
      l.phase = .revoked ∨ l.phase = .quarantined →
        ∀ f ∈ (ListedHost.twoRequests
          (List.replicate 60 0 ++ List.replicate 60 1)).world.store.files,
          f.token = l.token → f.phase = .revoked ∨ f.phase = .quarantined) ∧
    ∀ f ∈ (ListedHost.twoRequests
        (List.replicate 60 0 ++ List.replicate 60 1)).world.store.files,
      (∃ i, (i, .revoking f.token) ∈
        (ListedHost.twoRequests (List.replicate 60 0)).world.log) →
        f.phase = .active →
          f ∈ (ListedHost.twoRequests (List.replicate 60 0)).world.store.files := by
  obtain ⟨-, hsettled, hrevoked, -⟩ :=
    leases_not_resurrected ListedHost.orderly ListedHost.drawsDistinct
      (ListedHost.reachable_twoRequests (List.replicate 60 0))
      (ListedHost.reachable_append (List.replicate 60 0) (List.replicate 60 1))
  exact ⟨hsettled, hrevoked⟩

end Resurrection

section Ownership

/-- An active lease of a live owner is changed and removed only by the process of a root
hook, or by one that serves a request of its owner other than a cleanup; it is returned only
to its owner. A process serves one caller. -/
theorem active_lease_left_to_owner (hstart : m₀.Orderly env)
    (hdistinct : DrawsDistinct env m₀.files)
    (hc : Reachable (OnHost env) (Pool.start m₀) c) (i : ℕ) :
    (∀ l ∈ c.world.store.files, l.phase = .active → Alive c.world.store l →
      (l ∉ (c.move (.act i)).world.store.files →
        (∃ s, (i, .opened s .rootHook) ∈ c.world.log) ∨
        ∃ s owner req, (i, .opened s (.request owner req)) ∈ c.world.log ∧ l.OwnedBy owner ∧
          req.networkAction ≠ some "cleanup") ∧
      ∀ owner, (i, .provisioned owner l) ∈ (c.move (.act i)).world.log →
        (i, .provisioned owner l) ∈ c.world.log ∨
        l.OwnedBy owner ∧ ∃ s req, (i, .opened s (.request owner req)) ∈ c.world.log) ∧
    ∀ s s' caller caller', (i, .opened s caller) ∈ c.world.log →
      (i, .opened s' caller') ∈ c.world.log → caller = caller' := by
  have hholds := disciplined hstart hdistinct hc
  refine ⟨fun l hl hactive halive => ⟨fun hgone => ?_, fun owner hreturned => ?_⟩, ?_⟩
  · rcases hholds.guar i with hsame | ⟨-, -, hstep⟩
    · exact absurd (hsame ▸ hl) hgone
    · obtain ⟨s, caller, hopened, hentitled⟩ := hstep.entitled l hl hactive halive hgone
      cases caller with
      | request owner req => exact Or.inr ⟨s, owner, req, hopened, hentitled⟩
      | rootHook => exact Or.inl ⟨s, hopened⟩
  · rcases hholds.guar i with hsame | ⟨-, -, hstep⟩
    · exact Or.inl (hsame ▸ hreturned)
    · rcases hstep.returned owner l hreturned with hold | ⟨-, -, howned, hopened⟩
      · exact Or.inl hold
      · exact Or.inr ⟨howned, hopened⟩
  · intro s s' caller caller' hs hs'
    exact (hholds.1.1.single i s s' caller caller' hs hs').2

/-- The process of the second request, which waits for the lock, leaves the lease of the
first one alone and serves one caller. -/
theorem active_lease_left_twoRequests :
    (∀ l ∈ (ListedHost.twoRequests (List.replicate 60 0)).world.store.files,
      l.phase = .active → Alive (ListedHost.twoRequests (List.replicate 60 0)).world.store l →
      ∀ owner, (1, .provisioned owner l) ∈
        ((ListedHost.twoRequests (List.replicate 60 0)).move (.act 1)).world.log →
        (1, .provisioned owner l) ∈ (ListedHost.twoRequests (List.replicate 60 0)).world.log ∨
        l.OwnedBy owner ∧ ∃ s req, (1, .opened s (.request owner req)) ∈
          (ListedHost.twoRequests (List.replicate 60 0)).world.log) ∧
    ∀ s s' caller caller',
      (1, .opened s caller) ∈ (ListedHost.twoRequests (List.replicate 60 0)).world.log →
      (1, .opened s' caller') ∈ (ListedHost.twoRequests (List.replicate 60 0)).world.log →
        caller = caller' := by
  obtain ⟨hleft, hsingle⟩ := active_lease_left_to_owner ListedHost.orderly
    ListedHost.drawsDistinct (ListedHost.reachable_twoRequests (List.replicate 60 0)) 1
  exact ⟨fun l hl hactive halive => (hleft l hl hactive halive).2, hsingle⟩

end Ownership

end Sower.Network
