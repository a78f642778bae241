import Sower.Network.Journal

/-!
# The address pool and the leases made from it

A slot stands for four addresses of the pool. Validation puts the pool inside a
private network with a prefix that leaves room for whole slots, so the sums that
give a slot its addresses stay inside the pool and below the last address there
is. The lease made of such a slot passes every check of a journal file.
-/

namespace Sower.Network

section Private

/-- Addresses by their two leading octets, as the private check reads them. -/
theorem isPrivate_of_bounds {address : Ipv4Addr}
    (h : 10 * 2 ^ 24 ≤ address.toNat ∧ address.toNat < 11 * 2 ^ 24 ∨
      172 * 2 ^ 24 + 16 * 2 ^ 16 ≤ address.toNat ∧ address.toNat < 172 * 2 ^ 24 + 32 * 2 ^ 16 ∨
      192 * 2 ^ 24 + 168 * 2 ^ 16 ≤ address.toNat ∧ address.toNat < 192 * 2 ^ 24 + 169 * 2 ^ 16) :
    address.isPrivate = true := by
  have hfirst : (address >>> 24).toNat = address.toNat / 2 ^ 24 := by
    rw [BitVec.toNat_ushiftRight, Nat.shiftRight_eq_div_pow]
  have hsecond : (address >>> 16).toNat = address.toNat / 2 ^ 16 := by
    rw [BitVec.toNat_ushiftRight, Nat.shiftRight_eq_div_pow]
  simp only [Ipv4Addr.isPrivate, hfirst, hsecond, Bool.or_eq_true, Bool.and_eq_true, beq_iff_eq,
    decide_eq_true_eq]
  rcases h with h | h | h
  · exact Or.inl (Or.inl (by omega))
  · exact Or.inl (Or.inr (by omega))
  · exact Or.inr (by omega)

/-- A private network and the private addresses that it holds. -/
theorem parse_private {cidr : String} (hcidr : cidr ∈ privateNetworks) :
    ∃ subnet, Subnet.fromStr cidr = .ok subnet ∧ subnet.network.toNat + subnet.size ≤ 2 ^ 32 ∧
      ∀ address, subnet.contains address = true → address.isPrivate = true := by
  simp only [privateNetworks, List.mem_cons, List.not_mem_nil, or_false] at hcidr
  rcases hcidr with rfl | rfl | rfl
  · refine ⟨⟨0x0a000000#32, 8, by decide, by decide⟩, rfl, by decide, fun address h => ?_⟩
    have hbounds := contains_iff.mp h
    exact isPrivate_of_bounds (Or.inl hbounds)
  · refine ⟨⟨0xac100000#32, 12, by decide, by decide⟩, rfl, by decide, fun address h => ?_⟩
    have hbounds := contains_iff.mp h
    exact isPrivate_of_bounds (Or.inr (Or.inl hbounds))
  · refine ⟨⟨0xc0a80000#32, 16, by decide, by decide⟩, rfl, by decide, fun address h => ?_⟩
    have hbounds := contains_iff.mp h
    exact isPrivate_of_bounds (Or.inr (Or.inr hbounds))

/-- A range is a whole number of ranges of its size away from zero. -/
theorem size_dvd_network (subnet : Subnet) : subnet.size ∣ subnet.network.toNat := by
  have haligned := congrArg BitVec.toNat subnet.aligned
  rw [toNat_and_mask] at haligned
  rw [← haligned]
  exact Nat.dvd_mul_left _ _

/-- A range with a longer prefix that starts in another one ends in it. -/
theorem subnet_within {outer inner : Subnet} (hlength : outer.prefixLength ≤ inner.prefixLength)
    (hstart : outer.contains inner.network = true) :
    outer.network.toNat ≤ inner.network.toNat ∧
      inner.network.toNat + inner.size ≤ outer.network.toNat + outer.size := by
  obtain ⟨hlow, hhigh⟩ := contains_iff.mp hstart
  have hsizes : inner.size ∣ outer.size := pow_dvd_pow 2 (by omega)
  obtain ⟨a, ha⟩ := size_dvd_network inner
  obtain ⟨b, hb⟩ := Nat.dvd_add (hsizes.trans (size_dvd_network outer)) hsizes
  refine ⟨hlow, ?_⟩
  rw [ha, hb] at hhigh ⊢
  have hlt : a < b := Nat.lt_of_mul_lt_mul_left hhigh
  calc inner.size * a + inner.size = inner.size * (a + 1) := (Nat.mul_succ _ _).symm
    _ ≤ inner.size * b := Nat.mul_le_mul_left _ hlt

/-- The pool ends below the last address there is and holds private addresses only. -/
theorem pool_private {pool : Subnet} (h : containedInPrivate pool = true) :
    pool.network.toNat + pool.size ≤ 2 ^ 32 ∧
      ∀ address, pool.contains address = true → address.isPrivate = true := by
  obtain ⟨cidr, hcidr, hinside⟩ := List.any_eq_true.mp h
  obtain ⟨outer, hparse, hend, hprivate⟩ := parse_private hcidr
  simp only [hparse, Bool.and_eq_true, decide_eq_true_eq] at hinside
  obtain ⟨hlow, hhigh⟩ := subnet_within hinside.2 hinside.1
  refine ⟨hhigh.trans hend, fun address hpool => hprivate address (contains_iff.mpr ?_)⟩
  have hbounds := contains_iff.mp hpool
  omega

end Private

section Slots

variable {file : PolicyFile} {policy : Policy} {slot slot' : ℕ}

/-- Lowest of the four addresses of a slot, computed without a bound. -/
def Policy.base (policy : Policy) (slot : ℕ) : ℕ := policy.pool.network.toNat + slot * 4

/-- The slots fill the pool. -/
theorem slots_fill (hsound : policy.Sound file) : policy.slots * 4 = policy.pool.size := by
  have hlength := hsound.poolPrefix
  have hsplit : 32 - policy.pool.prefixLength = 30 - policy.pool.prefixLength + 2 := by omega
  rw [Policy.slots, Subnet.size, hsplit, Nat.pow_add]

/-- The four addresses of a slot lie in the pool, and their numbers fit 32 bits. -/
theorem base_within (hsound : policy.Sound file) (hslot : slot < policy.slots) :
    policy.base slot + 4 ≤ policy.pool.network.toNat + policy.pool.size ∧
      policy.base slot + 4 ≤ 2 ^ 32 := by
  have hfill := slots_fill hsound
  have hend := (pool_private hsound.poolPrivate).1
  unfold Policy.base
  omega

/-- The sums that give a slot its addresses do not wrap. -/
theorem addresses_ok (hsound : policy.Sound file) (hslot : slot < policy.slots) :
    ∃ gateway address, policy.addresses slot = .ok (gateway, address) ∧
      gateway.toNat = policy.base slot + 1 ∧ address.toNat = policy.base slot + 2 := by
  have hbase := (base_within hsound hslot).2
  have hin : ensure (decide (slot < policy.slots)) "allocation outside address pool" = .ok () :=
    ensure_ok.mpr (decide_eq_true hslot)
  have hone : (1 : Ipv4Addr).toNat = 1 := rfl
  have htwo : (2 : Ipv4Addr).toNat = 2 := rfl
  unfold Policy.base at hbase ⊢
  refine ⟨_, _, by rw [Policy.addresses, hin]; rfl, ?_, ?_⟩
  · simp only [BitVec.toNat_add, BitVec.toNat_ofNat, hone]
    omega
  · simp only [BitVec.toNat_add, BitVec.toNat_ofNat, htwo]
    omega

/-- The base of a slot is a multiple of four. -/
theorem four_dvd_base (hsound : policy.Sound file) (slot : ℕ) : 4 ∣ policy.base slot := by
  have hfill := slots_fill hsound
  have hpool := size_dvd_network policy.pool
  have hfour : 4 ∣ policy.pool.size := ⟨policy.slots, by omega⟩
  exact Nat.dvd_add (hfour.trans hpool) (Nat.dvd_mul_left 4 slot)

/-- Different slots have no address in common. -/
theorem base_apart (h : slot ≠ slot') :
    policy.base slot + 4 ≤ policy.base slot' ∨ policy.base slot' + 4 ≤ policy.base slot := by
  unfold Policy.base
  omega

end Slots

section NewLeases

theorem hexPadded_byte (byte : Fin 256) :
    (hexPadded 2 byte.val).length = 2 ∧ (hexPadded 2 byte.val).all isLowerHex = true := by
  revert byte
  decide +kernel

/-- A lower-case digit separates nothing. -/
theorem colon_not_mem {digits : List Char} (h : digits.all isLowerHex = true) : ':' ∉ digits := by
  intro hmem
  have hcolon := List.all_eq_true.mp h _ hmem
  exact absurd hcolon (by decide)

theorem validToken_tokenOf (random : Entropy) : validToken (tokenOf random) = true := by
  have hbytes : ∀ i : Fin 16, (hexPadded 2 (random i).val).length = 2 :=
    fun i => (hexPadded_byte (random i)).1
  simp only [validToken, tokenOf, String.toList_ofList, Bool.and_eq_true, beq_iff_eq]
  constructor
  · rw [List.length_flatMap]
    simp only [hbytes]
    rfl
  · refine List.all_eq_true.mpr fun c hc => ?_
    obtain ⟨i, -, hdigit⟩ := List.mem_flatMap.mp hc
    exact List.all_eq_true.mp (hexPadded_byte (random i)).2 c hdigit

/-- The address of a guest consists of its octets. -/
theorem toList_guestMac (random : Entropy) :
    (guestMac random).toList = [':'].intercalate (['0', '2'] ::
      [random 0, random 1, random 2, random 3, random 4].map fun byte => hexPadded 2 byte.val) := by
  rw [guestMac, String.toList_intercalate]
  simp

theorem validMac_guestMac (random : Entropy) :
    validMac (guestMac random) = true ∧ "02:".toList.isPrefixOf (guestMac random).toList = true := by
  have hoctets : ∀ octet ∈ ['0', '2'] ::
      [random 0, random 1, random 2, random 3, random 4].map fun byte => hexPadded 2 byte.val,
      octet.length = 2 ∧ octet.all isLowerHex = true := by
    intro octet hoctet
    rcases List.mem_cons.mp hoctet with rfl | hoctet
    · decide
    · obtain ⟨byte, -, rfl⟩ := List.mem_map.mp hoctet
      exact hexPadded_byte byte
  have hsplit := List.splitOn_intercalate ':'
    (fun octet hoctet => colon_not_mem (hoctets octet hoctet).2) (List.cons_ne_nil _ _)
  have hbytes : ∀ byte : Fin 256, (hexPadded 2 byte.val).length = 2 :=
    fun byte => (hexPadded_byte byte).1
  constructor
  · simp only [validMac, toList_guestMac, hsplit, Bool.and_eq_true, beq_iff_eq, List.all_eq_true]
    refine ⟨⟨?_, rfl⟩, fun octet hoctet => ?_⟩
    · simp [List.intercalate, hbytes]
    · obtain ⟨hlength, hdigits⟩ := hoctets octet hoctet
      exact ⟨hlength, List.all_eq_true.mp hdigits⟩
  · rw [toList_guestMac]
    simp [List.intercalate]

/-- A peer that a garden of this policy can be: what authentication finds out of it, with
the process number and the start time that the kernel gives to such a process. -/
structure Owner.Genuine (policy : Policy) (owner : Owner) : Prop where
  unit : owner.instanceName ∈ policy.gardenUnits
  pid : 0 < owner.peer.pid
  starttime : 0 < owner.starttime

/-- A lease as the policy's own operations write it. -/
structure Lease.Pooled (policy : Policy) (lease : Lease) : Prop where
  /-- It passes every check when it is read back. -/
  valid : lease.validate = .ok ()
  /-- Its slot is one of the pool. -/
  slot : lease.slot < policy.slots
  /-- Its addresses are those of the slot. -/
  addresses : policy.addresses lease.slot = .ok (lease.gateway, lease.address)
  /-- Its instance is one of the policy. -/
  unit : lease.instanceName ∈ policy.gardenUnits

variable {file : PolicyFile} {policy : Policy} {owner : Owner} {execution : String} {slot : ℕ}
  {gateway address : Ipv4Addr} {lease : Lease}

/-- A check that comes first has to pass. -/
theorem ensure_bind_ok {β : Type} {condition : Bool} {message : String}
    {rest : Unit → Except String β} {value : β} :
    (ensure condition message >>= rest) = .ok value ↔ condition = true ∧ rest () = .ok value := by
  rw [bind_ok]
  constructor
  · rintro ⟨_, hfirst, hrest⟩
    exact ⟨ensure_ok.mp hfirst, hrest⟩
  · rintro ⟨hfirst, hrest⟩
    exact ⟨(), ensure_ok.mpr hfirst, hrest⟩

/-- All checks of a journal file, one by one. -/
theorem validate_ok : lease.validate = .ok () ↔
    validToken lease.token = true ∧ (lease.slot < 16384 ∧ lease.tap = tapName lease.slot) ∧
    (validMac lease.mac = true ∧ "02:".toList.isPrefixOf lease.mac.toList = true) ∧
    lease.hostMac.all validMac = true ∧
    (lease.gateway.toNat % 4 = 1 ∧ lease.address.toNat = lease.gateway.toNat + 1) ∧
    (lease.address.isPrivate = true ∧ lease.gateway.isPrivate = true) ∧
    validUnit lease.instanceName = true ∧ (0 < lease.ownerPid ∧ 0 < lease.ownerStarttime) ∧
    validateExecution lease.executionId = .ok () := by
  simp only [Lease.validate, ensure_bind_ok, Bool.and_eq_true, beq_iff_eq, decide_eq_true_eq]

/-- The lease that is made of a slot of the pool for a genuine owner is one of the policy's. -/
theorem pooled_newLease (hsound : policy.Sound file) (howner : owner.Genuine policy)
    (hexecution : validateExecution execution = .ok ()) (hslot : slot < policy.slots)
    (haddresses : policy.addresses slot = .ok (gateway, address)) (random : Entropy) :
    (newLease owner execution slot gateway address random).Pooled policy := by
  obtain ⟨gateway', address', hsame, hgateway, haddress⟩ := addresses_ok hsound hslot
  rw [haddresses] at hsame
  cases hsame
  have hwithin := base_within hsound hslot
  have hfour := four_dvd_base hsound slot
  have hlow : policy.pool.network.toNat ≤ policy.base slot := Nat.le_add_right _ _
  have hprivate : ∀ a : Ipv4Addr, policy.base slot ≤ a.toNat → a.toNat < policy.base slot + 4 →
      a.isPrivate = true := by
    intro a hstart hend
    exact (pool_private hsound.poolPrivate).2 a (contains_iff.mpr (by omega))
  have hslots : policy.slots ≤ 16384 := by
    have hlength := hsound.poolPrefix
    exact Nat.pow_le_pow_right (n := 2) (by omega) (by omega : 30 - policy.pool.prefixLength ≤ 14)
  refine ⟨validate_ok.mpr ⟨validToken_tokenOf random, ⟨hslot.trans_le hslots, rfl⟩,
    validMac_guestMac random, rfl, ⟨?_, ?_⟩, ⟨?_, ?_⟩, hsound.units.2 _ howner.unit,
    ⟨howner.pid, howner.starttime⟩, hexecution⟩, hslot, haddresses, howner.unit⟩
  · change gateway.toNat % 4 = 1
    omega
  · change address.toNat = gateway.toNat + 1
    omega
  · exact hprivate address (by omega) (by omega)
  · exact hprivate gateway (by omega) (by omega)

/-- The phase of a lease and the address of its interface may change. -/
theorem Lease.Pooled.update (h : lease.Pooled policy) {phase : Phase} {hostMac : Option String}
    (hmac : hostMac.all validMac = true) :
    ({ lease with phase := phase, hostMac := hostMac } : Lease).Pooled policy := by
  have hchecks := validate_ok.mp h.valid
  refine ⟨validate_ok.mpr ?_, h.slot, h.addresses, h.unit⟩
  tauto

theorem Lease.Pooled.hostMac (h : lease.Pooled policy) : lease.hostMac.all validMac = true :=
  (validate_ok.mp h.valid).2.2.2.1

end NewLeases

end Sower.Network
