import Sower.Network.Scripts

/-!
# Confinement of executions

A packet from the interface of a lease meets the guard of that lease before
anything is routed. The guard first denies what no lease may do, then permits
what an active lease may do and finally denies the rest, so whatever is
forwarded is one of the permitted kinds of packets.
-/

namespace Sower.Network

open PacketFilter

section Sets

variable {policy : Policy} {lease : Lease} {p : Packet}

/-- The interval set of a policy matches the addresses that its ranges contain. -/
theorem blocked_matches {address : Ipv4Addr} :
    (Address.member "blocked").matches (guardTable policy lease) address =
      policy.protectedRanges.any (·.contains address) := by
  have hlookup : ((guardTable policy lease).addressSets.lookup "blocked").getD [] =
      policy.protectedRanges := rfl
  have hcovers : ∀ subnet : Subnet, subnet.covers address = subnet.contains address := by
    intro subnet
    rw [Bool.eq_iff_iff, contains_iff]
    exact decide_eq_true_iff
  simp only [Address.matches, hlookup, hcovers]

/-- The interface set of a guard has the one interface of its lease. -/
theorem taps_matches {name : String} :
    (Interface.member "taps").matches (guardTable policy lease) name =
      decide (name = lease.tap) := by
  have hlookup : ((guardTable policy lease).interfaceSets.lookup "taps").getD [] =
      [lease.tap] := rfl
  simp [Interface.matches, hlookup]

end Sets

section Guard

variable {policy : Policy} {lease : Lease} {p : Packet}

/-- What the guard of a lease lets through of a packet that entered from its interface. -/
structure Confined (policy : Policy) (lease : Lease) (p : Packet) : Prop where
  active : lease.phase = .active
  remote : p.daddrLocal = false
  permitted : ∃ daddr transport, p.payload = .ipv4 lease.address daddr transport ∧
    (∀ subnet ∈ policy.protectedRanges, subnet.contains daddr = false) ∧
      (daddr = policy.dns ∧ (transport = .udp 53 ∨ transport = .tcp 53) ∨
        transport = .tcp 80 ∨ transport = .tcp 443)

/-- A condition on the source address holds of IPv4 packets from that address only. -/
theorem payload_of_ipSaddr {table : TableDefinition} {address : Ipv4Addr}
    (h : (Condition.ipSaddr (.literal address)).holds table p = true) :
    ∃ daddr transport, p.payload = .ipv4 address daddr transport := by
  cases hpayload : p.payload with
  | ipv4 saddr daddr transport =>
    have hsaddr : saddr = address := by
      simpa [Condition.holds, hpayload, Address.matches] using h
    exact ⟨daddr, transport, by rw [hsaddr]⟩
  | _ => simp [Condition.holds, hpayload] at h

/-- What the permissions before routing permit. -/
theorem permitted_of_originalAccepts {statement : Statement}
    (hmem : statement ∈ originalAccepts policy lease)
    (happlies : (statement.rule (guardTable policy lease)).applies p = true) :
    ∃ daddr transport, p.payload = .ipv4 lease.address daddr transport ∧
      (daddr = policy.dns ∧ (transport = .udp 53 ∨ transport = .tcp 53) ∨
        transport = .tcp 80 ∨ transport = .tcp 443) := by
  have hall : ∀ condition ∈ statement.conditions,
      condition.holds (guardTable policy lease) p = true := List.all_eq_true.mp happlies
  have hsource : (Condition.ipSaddr (.literal lease.address)).holds (guardTable policy lease) p =
      true := by
    simp only [originalAccepts, List.mem_cons, List.not_mem_nil, or_false] at hmem
    rcases hmem with rfl | rfl | rfl <;> exact hall _ (by simp)
  obtain ⟨daddr, transport, hpayload⟩ := payload_of_ipSaddr hsource
  have htransport : p.transport = transport := by simp only [Packet.transport, hpayload]
  refine ⟨daddr, transport, hpayload, ?_⟩
  simp only [originalAccepts, List.mem_cons, List.not_mem_nil, or_false] at hmem
  rcases hmem with rfl | rfl | rfl
  · have hdns := hall (.ipDaddr (.literal policy.dns)) (by simp)
    have hport := hall (.udpDport 53) (by simp)
    simp only [Condition.holds, hpayload, Address.matches, htransport, beq_iff_eq] at hdns hport
    exact Or.inl ⟨hdns, Or.inl hport⟩
  · have hdns := hall (.ipDaddr (.literal policy.dns)) (by simp)
    have hport := hall (.tcpDport 53) (by simp)
    simp only [Condition.holds, hpayload, Address.matches, htransport, beq_iff_eq] at hdns hport
    exact Or.inl ⟨hdns, Or.inr hport⟩
  · have hport := hall (.tcpDportIn [80, 443]) (by simp)
    simp only [Condition.holds, htransport, List.any_cons, List.any_nil, Bool.or_false,
      Bool.or_eq_true, beq_iff_eq] at hport
    exact Or.inr hport

/-- A packet from the interface that the chain before routing accepts is confined. -/
theorem confined_of_original (hfrom : p.iifname = lease.tap)
    (h : ((originalChain policy lease).chain (guardTable policy lease)).verdict p = .accept) :
    Confined policy lease p := by
  have htaps : fromTaps.holds (guardTable policy lease) p = true := by
    simp only [Condition.holds, taps_matches, hfrom, decide_true]
  have hdrop : ∀ rule ∈ originalDenials.map (·.rule (guardTable policy lease)),
      rule.verdict = .drop := by
    intro rule hrule
    obtain ⟨statement, hmem, rfl⟩ := List.mem_map.mp hrule
    simp only [originalDenials, List.mem_cons, List.not_mem_nil, or_false] at hmem
    rcases hmem with rfl | rfl | rfl <;> rfl
  unfold Chain.verdict ChainDefinition.chain originalChain at h
  simp only [List.map_append, List.map_cons, List.map_nil] at h
  obtain ⟨hdenied, rule, hrule, happlies, _⟩ :=
    accepted_of_guarded hdrop rfl (by simpa [Statement.rule] using htaps) h
  obtain ⟨statement, hmem, rfl⟩ := List.mem_map.mp hrule
  have hactive : lease.phase = .active := by
    by_contra hinactive
    simp only [whenActive, if_neg hinactive, List.not_mem_nil] at hmem
  rw [whenActive, if_pos hactive] at hmem
  obtain ⟨daddr, transport, hpayload, hkind⟩ := permitted_of_originalAccepts hmem happlies
  have hlocal := hdenied _ (List.mem_map_of_mem (List.mem_cons_of_mem _ List.mem_cons_self))
  have hblocked := hdenied _ (List.mem_map_of_mem
    (List.mem_cons_of_mem _ (List.mem_cons_of_mem _ List.mem_cons_self)))
  simp only [Statement.rule, List.all_cons, List.all_nil, htaps, Bool.true_and,
    Bool.and_true] at hlocal hblocked
  simp only [Condition.holds, hpayload, blocked_matches] at hlocal hblocked
  refine ⟨hactive, hlocal, daddr, transport, hpayload, ?_, hkind⟩
  simpa only [List.any_eq_false, Bool.not_eq_true] using hblocked

end Guard

section Host

variable {policy : Policy} {lease : Lease} {p : Packet} {tables : List TableDefinition}

/-- Among any tables that include its guard, a lease is confined. -/
theorem confined_of_forwarded (hguard : guardTable policy lease ∈ tables)
    (hfrom : p.iifname = lease.tap) (h : forwarded tables p = true) : Confined policy lease p := by
  unfold forwarded at h
  simp only [Bool.and_eq_true] at h
  obtain ⟨⟨⟨_, hprerouting⟩, _⟩, _⟩ := h
  refine confined_of_original hfrom (verdict_of_passes hprerouting ?_ rfl)
  refine List.mem_flatMap.mpr ⟨_, hguard, ?_⟩
  exact List.mem_map_of_mem List.mem_cons_self

/-- Whatever leases the journal holds, in whatever phases, a packet from the interface of
one of them is forwarded only while that lease is active, from its address, to no
protected and no local destination, and only to the resolver or to the web. -/
theorem forwarded_confined {file : PolicyFile} (hpolicy : Policy.validate file = .ok policy)
    {leases : List Lease} (hlease : lease ∈ leases) (hfrom : p.iifname = lease.tap)
    (h : forwarded (leases.flatMap (·.tables policy)) p = true) :
    lease.phase = .active ∧ p.daddrLocal = false ∧
      ∃ daddr transport, p.payload = .ipv4 lease.address daddr transport ∧
        (∀ subnet ∈ policy.protectedRanges, subnet.contains daddr = false) ∧
        (∀ cidr ∈ special ++ file.protectedDestinations,
          ∃ subnet, Subnet.fromStr cidr = .ok subnet ∧ subnet.contains daddr = false) ∧
        (daddr = file.dnsResolver ∧ (transport = .udp 53 ∨ transport = .tcp 53) ∨
          transport = .tcp 80 ∨ transport = .tcp 443) := by
  have hsound := sound_of_validate hpolicy
  have hguard : guardTable policy lease ∈ leases.flatMap (·.tables policy) :=
    List.mem_flatMap.mpr ⟨lease, hlease, List.mem_cons_self⟩
  obtain ⟨hactive, hremote, daddr, transport, hpayload, hranges, hkind⟩ :=
    confined_of_forwarded hguard hfrom h
  refine ⟨hactive, hremote, daddr, transport, hpayload, hranges, ?_, ?_⟩
  · intro cidr hcidr
    obtain ⟨subnet, hsubnet, hparse⟩ := hsound.protects cidr hcidr
    exact ⟨subnet, hparse, hranges subnet hsubnet⟩
  · rwa [hsound.resolver] at hkind

/-- A request to the web by the execution in slot 0 is forwarded and confined. -/
theorem forwarded_confined_web :
    let file : PolicyFile := { addressPool := "10.254.0.0/16", dnsResolver := 0x01010101#32 }
    let lease : Lease :=
      { token := "aaaaaaaaaaaaaaaaaaaaaaaaaaaaaaaa", slot := 0, tap := "swnt0000"
        mac := "02:00:00:00:00:01", hostMac := some "4a:00:00:00:00:01", address := 0x0afe0002#32
        gateway := 0x0afe0001#32, instanceName := "sower-garden.service", ownerUid := 990
        ownerPid := 4711, ownerStarttime := 12, executionId := "7", phase := .active }
    let p : Packet :=
      { iifname := "swnt0000", oifname := "eth0", etherSaddr := "02:00:00:00:00:01"
        etherDaddr := "4a:00:00:00:00:01", payload := .ipv4 0x0afe0002#32 0x5db8d822#32 (.tcp 443)
        daddrLocal := false, ctState := .new, ctSnat := false }
    ∃ policy, Policy.validate file = .ok policy ∧
      forwarded ([lease].flatMap (·.tables policy)) p = true ∧ lease.phase = .active := by
  intro file lease p
  have hrun : (Policy.validate file).map
      (fun policy => forwarded ([lease].flatMap (·.tables policy)) p) = .ok true := by decide +kernel
  rcases hpolicy : Policy.validate file with message | policy
  · rw [hpolicy] at hrun
    cases hrun
  · rw [hpolicy] at hrun
    have hforwarded : forwarded ([lease].flatMap (·.tables policy)) p = true := by
      simpa [Except.map] using hrun
    exact ⟨policy, rfl, hforwarded,
      (forwarded_confined hpolicy List.mem_cons_self rfl hforwarded).1⟩

end Host

end Sower.Network
