import Mathlib.Data.BitVec
import Mathlib.Data.List.Basic

/-!
# The network policy of a host

The operator's policy file names an address pool, a resolver and further
destinations to protect. Validation parses the ranges, keeps the pool inside
the private networks and adds the special-purpose ranges, which the operator
can extend but not weaken. A subnet carries the proof that its network address
has no host bits, so containment is an interval of addresses.
-/

namespace Sower.Network

/-- An IPv4 address as the number the source converts it to. -/
abbrev Ipv4Addr := BitVec 32

section Parsing

/-- Value of a nonempty string of decimal digits. -/
def decimal? (text : List Char) : Option ℕ :=
  if text ≠ [] ∧ text.all Char.isDigit then
    some (text.foldl (fun value c => 10 * value + (c.toNat - '0'.toNat)) 0)
  else none

/-- `u8::from_str`: one leading plus sign is accepted. -/
def parseU8 (text : List Char) : Option ℕ :=
  let digits := match text with
    | '+' :: rest => rest
    | _ => text
  (decimal? digits).filter (· < 256)

/-- One octet of a dotted address: at most three digits, no leading zero. -/
def octet? (text : List Char) : Option ℕ :=
  if text.length ≤ 3 ∧ (text.head? = some '0' → text.length = 1) then
    (decimal? text).filter (· < 256)
  else none

/-- `Ipv4Addr::from_str`. -/
def Ipv4Addr.fromStr (text : List Char) : Option Ipv4Addr :=
  match text.splitOn '.' with
  | [a, b, c, d] => do
    let a ← octet? a
    let b ← octet? b
    let c ← octet? c
    let d ← octet? d
    return BitVec.ofNat 32 (((a * 256 + b) * 256 + c) * 256 + d)
  | _ => none

/-- `Display` of an address. -/
def Ipv4Addr.display (address : Ipv4Addr) : String :=
  let octet (shift : ℕ) := toString ((address >>> shift).toNat % 256)
  octet 24 ++ "." ++ octet 16 ++ "." ++ octet 8 ++ "." ++ octet 0

/-- `str::split_once`. -/
def splitOnce (separator : Char) : List Char → Option (List Char × List Char)
  | [] => none
  | c :: rest =>
    if c = separator then some ([], rest)
    else (splitOnce separator rest).map fun (before, after) => (c :: before, after)

end Parsing

section Subnets

/-- `u32::MAX.checked_shl(32 - prefix).unwrap_or(0)`. -/
def mask (prefixLength : ℕ) : Ipv4Addr :=
  if 32 - prefixLength < 32 then BitVec.allOnes 32 <<< (32 - prefixLength) else 0

/-- A range of addresses in CIDR form. -/
structure Subnet where
  /-- Lowest address of the range. -/
  network : Ipv4Addr
  /-- `prefix`: the number of leading bits all addresses share. -/
  prefixLength : ℕ
  /-- The prefix is one of an IPv4 address. -/
  bounded : prefixLength ≤ 32
  /-- The network address has no host bits. -/
  aligned : network &&& mask prefixLength = network
  deriving DecidableEq

/-- `Subnet::from_str`. -/
def Subnet.fromStr (value : String) : Except String Subnet :=
  match splitOnce '/' value.toList with
  | none => .error "expected IPv4 CIDR"
  | some (address, suffix) =>
    match parseU8 suffix with
    | none => .error "invalid IPv4 prefix"
    | some prefixLength =>
      if hbounded : prefixLength ≤ 32 then
        match Ipv4Addr.fromStr address with
        | none => .error "invalid IPv4 address"
        | some network =>
          if haligned : network &&& mask prefixLength = network then
            .ok ⟨network, prefixLength, hbounded, haligned⟩
          else .error "CIDR must use its network address"
      else .error "invalid IPv4 prefix"

/-- `Subnet::contains`. -/
def Subnet.contains (subnet : Subnet) (address : Ipv4Addr) : Bool :=
  address &&& mask subnet.prefixLength == subnet.network

/-- `Subnet::canonical`: the form written into firewall scripts. -/
def Subnet.canonical (subnet : Subnet) : String :=
  subnet.network.display ++ "/" ++ toString subnet.prefixLength

/-- Number of addresses in the range. -/
def Subnet.size (subnet : Subnet) : ℕ := 2 ^ (32 - subnet.prefixLength)

/-- Masking clears the host bits. -/
theorem toNat_and_mask (address : Ipv4Addr) (prefixLength : ℕ) :
    (address &&& mask prefixLength).toNat =
      address.toNat / 2 ^ (32 - prefixLength) * 2 ^ (32 - prefixLength) := by
  have hlt := address.isLt
  unfold mask
  split
  · rename_i hshift
    have hsplit : address &&& BitVec.allOnes 32 <<< (32 - prefixLength) =
        (address >>> (32 - prefixLength)) <<< (32 - prefixLength) := by
      ext i hi
      simp only [BitVec.getElem_and, BitVec.getElem_shiftLeft, BitVec.getElem_ushiftRight,
        BitVec.getElem_allOnes]
      by_cases h : i < 32 - prefixLength
      · simp [h]
      · have hback : 32 - prefixLength + (i - (32 - prefixLength)) = i := by omega
        simp [h, hback, BitVec.getLsbD_eq_getElem hi]
    rw [hsplit, BitVec.toNat_shiftLeft, BitVec.toNat_ushiftRight, Nat.shiftRight_eq_div_pow,
      Nat.shiftLeft_eq]
    exact Nat.mod_eq_of_lt ((Nat.div_mul_le_self _ _).trans_lt hlt)
  · rename_i hshift
    have hwhole : 32 - prefixLength = 32 := by omega
    simp only [hwhole, Nat.div_eq_of_lt hlt]
    simp

/-- The addresses of a range are an interval that starts at its network address. -/
theorem contains_iff {subnet : Subnet} {address : Ipv4Addr} :
    subnet.contains address = true ↔
      subnet.network.toNat ≤ address.toNat ∧
        address.toNat < subnet.network.toNat + subnet.size := by
  have haligned := congrArg BitVec.toNat subnet.aligned
  rw [toNat_and_mask] at haligned
  have hpos : 0 < subnet.size := Nat.two_pow_pos _
  unfold Subnet.contains
  rw [beq_iff_eq, ← BitVec.toNat_inj, toNat_and_mask]
  change address.toNat / subnet.size * subnet.size = _ ↔ _
  change subnet.network.toNat / subnet.size * subnet.size = _ at haligned
  constructor
  · intro h
    have hmod := Nat.div_add_mod address.toNat subnet.size
    have hrest := Nat.mod_lt address.toNat hpos
    rw [Nat.mul_comm] at hmod
    omega
  · rintro ⟨hlow, hhigh⟩
    rw [← haligned] at hlow hhigh ⊢
    have hdiv : address.toNat / subnet.size = subnet.network.toNat / subnet.size := by
      refine Nat.div_eq_of_lt_le hlow ?_
      rw [Nat.add_mul, Nat.one_mul]
      exact hhigh
    rw [hdiv]

end Subnets

section Files

/-- `SPECIAL`: special-purpose ranges, which every policy protects. -/
def special : List String :=
  ["0.0.0.0/8", "10.0.0.0/8", "100.64.0.0/10", "127.0.0.0/8", "169.254.0.0/16", "172.16.0.0/12",
    "192.0.0.0/24", "192.0.2.0/24", "192.31.196.0/24", "192.52.193.0/24", "192.175.48.0/24",
    "192.88.99.0/24", "192.168.0.0/16", "198.18.0.0/15", "198.51.100.0/24", "203.0.113.0/24",
    "224.0.0.0/4", "240.0.0.0/4"]

/-- The private networks one of which contains the address pool. -/
def privateNetworks : List String := ["10.0.0.0/8", "172.16.0.0/12", "192.168.0.0/16"]

/-- The policy file as it is deserialized, with the defaults of its fields. -/
structure PolicyFile where
  addressPool : String
  dnsResolver : Ipv4Addr
  protectedDestinations : List String := []
  stateDirectory : String := "/run/sower-network"
  gardenUnits : List String := ["sower-garden.service"]

/-- `b"_.@:-\\x".contains(&byte)`. -/
def unitPunctuation : List Char := ['_', '.', '@', ':', '-', '\\', 'x']

/-- `valid_unit`. Only ASCII passes, so characters and bytes have the same number. -/
def validUnit (unit : String) : Bool :=
  let text := unit.toList
  let ending := ".service".toList
  ending.isSuffixOf text && decide (text.length ≤ 255) && decide (ending.length < text.length) &&
    text.all fun c => c.isAlphanum || unitPunctuation.contains c

/-- A validated policy. -/
structure Policy where
  /-- Range the execution subnets are taken from. -/
  pool : Subnet
  /-- Resolver the executions may ask. -/
  dns : Ipv4Addr
  /-- `protected`: ranges that no execution may reach. -/
  protectedRanges : List Subnet
  /-- Directory of the journal. -/
  stateDirectory : String
  /-- Units of the garden instances. -/
  gardenUnits : List String

/-- `ensure!`. -/
def ensure (condition : Bool) (message : String) : Except String Unit :=
  if condition then .ok () else .error message

/-- `context`: another message in front of a failure. -/
def context {α : Type} (message : String) (result : Except String α) : Except String α :=
  match result with
  | .error _ => .error message
  | .ok value => .ok value

/-- The pool lies inside one of the private networks. -/
def containedInPrivate (pool : Subnet) : Bool :=
  privateNetworks.any fun cidr =>
    match Subnet.fromStr cidr with
    | .error _ => false
    | .ok subnet => subnet.contains pool.network && decide (subnet.prefixLength ≤ pool.prefixLength)

/-- `Policy::validate`. -/
def Policy.validate (file : PolicyFile) : Except String Policy := do
  ensure (!file.gardenUnits.isEmpty && file.gardenUnits.all validUnit)
    "garden_units must contain configured system service names"
  let pool ← Subnet.fromStr file.addressPool
  ensure (decide (16 ≤ pool.prefixLength ∧ pool.prefixLength ≤ 30))
    "address pool must have prefix /16 through /30"
  ensure (containedInPrivate pool) "address pool must be contained in an RFC1918 network"
  let reserved ← special.mapM Subnet.fromStr
  let protectedRanges ← file.protectedDestinations.mapM fun cidr =>
    context "invalid protected destination" (Subnet.fromStr cidr)
  ensure (!(reserved ++ protectedRanges).any (·.contains file.dnsResolver))
    "DNS resolver must be public and outside protected destinations"
  ensure (file.stateDirectory.toList.head? == some '/') "state directory must be absolute"
  ensure (!(file.stateDirectory.toList.splitOn '/').contains ['.', '.'])
    "state directory must not contain parent traversal"
  return ⟨pool, file.dnsResolver, reserved ++ protectedRanges, file.stateDirectory, file.gardenUnits⟩

/-- `Policy::slots`: the number of execution subnets in the pool. -/
def Policy.slots (policy : Policy) : ℕ := 2 ^ (30 - policy.pool.prefixLength)

/-- `Policy::addresses`: gateway and guest address of a slot. -/
def Policy.addresses (policy : Policy) (slot : ℕ) : Except String (Ipv4Addr × Ipv4Addr) := do
  ensure (decide (slot < policy.slots)) "allocation outside address pool"
  let base := policy.pool.network + BitVec.ofNat 32 (slot * 4)
  return (base + 1, base + 2)

end Files

section Soundness

/-- What validation promises of a policy. -/
structure Policy.Sound (file : PolicyFile) (policy : Policy) : Prop where
  /-- The pool has room for at least one and at most 16384 executions. -/
  poolPrefix : 16 ≤ policy.pool.prefixLength ∧ policy.pool.prefixLength ≤ 30
  /-- The pool is private. -/
  poolPrivate : containedInPrivate policy.pool = true
  /-- Every special-purpose and every configured range is protected. -/
  protects : ∀ cidr ∈ special ++ file.protectedDestinations,
    ∃ subnet ∈ policy.protectedRanges, Subnet.fromStr cidr = .ok subnet
  /-- The resolver is the configured one. -/
  resolver : policy.dns = file.dnsResolver
  /-- The resolver lies in no protected range. -/
  resolverPublic : ∀ subnet ∈ policy.protectedRanges, subnet.contains policy.dns = false
  /-- The configured units are valid service names, and there is one. -/
  units : policy.gardenUnits ≠ [] ∧ ∀ unit ∈ policy.gardenUnits, validUnit unit = true

theorem ensure_ok {condition : Bool} {message : String} :
    ensure condition message = .ok () ↔ condition = true := by
  cases condition <;> simp [ensure]

/-- Every element of a list that was parsed as a whole has its result. -/
theorem exists_of_mapM_ok {α β : Type} {f : α → Except String β} {xs : List α} {ys : List β}
    (h : xs.mapM f = .ok ys) : ∀ x ∈ xs, ∃ y ∈ ys, f x = .ok y := by
  induction xs generalizing ys with
  | nil => simp
  | cons x rest ih =>
    rw [List.mapM_cons] at h
    rcases hx : f x with message | y
    · rw [hx] at h
      cases h
    · rcases hrest : rest.mapM f with message | ys'
      · rw [hx, hrest] at h
        cases h
      · rw [hx, hrest] at h
        cases h
        intro x' hx'
        rcases List.mem_cons.mp hx' with rfl | hx'
        · exact ⟨y, List.mem_cons_self, hx⟩
        · obtain ⟨y', hy', hparse⟩ := ih hrest x' hx'
          exact ⟨y', List.mem_cons_of_mem y hy', hparse⟩

/-- A context changes only the message of a failure. -/
theorem context_ok {α : Type} {message : String} {result : Except String α} {value : α} :
    context message result = .ok value ↔ result = .ok value := by
  cases result <;> simp [context]

/-- A computation that succeeds after a first part has a value of that part. -/
theorem bind_ok {α β : Type} {first : Except String α} {rest : α → Except String β} {value : β} :
    (first >>= rest) = .ok value ↔ ∃ a, first = .ok a ∧ rest a = .ok value := by
  rcases first with message | a
  · constructor
    · intro h
      cases h
    · rintro ⟨a, h, _⟩
      cases h
  · constructor
    · intro h
      exact ⟨a, rfl, h⟩
    · rintro ⟨a', h, hrest⟩
      cases h
      exact hrest

/-- A policy that validation accepts keeps all of its promises. -/
theorem sound_of_validate {file : PolicyFile} {policy : Policy}
    (h : Policy.validate file = .ok policy) : policy.Sound file := by
  simp only [Policy.validate, bind_ok] at h
  obtain ⟨_, hunits, pool, hpool, _, hbegins, _, hprivate, reserved, hreserved, protectedRanges,
    hprotected, _, hdns, _, _, _, _, hpolicy⟩ := h
  cases hpolicy
  rw [ensure_ok] at hunits hbegins hprivate hdns
  have hpublic : ∀ subnet ∈ reserved ++ protectedRanges,
      subnet.contains file.dnsResolver = false := by
    simpa only [Bool.not_eq_true', List.any_eq_false, Bool.not_eq_true] using hdns
  refine ⟨by simpa using hbegins, hprivate, ?_, rfl, hpublic, ?_⟩
  · intro cidr hcidr
    rcases List.mem_append.mp hcidr with hspecial | hconfigured
    · obtain ⟨subnet, hmem, hparse⟩ := exists_of_mapM_ok hreserved cidr hspecial
      exact ⟨subnet, List.mem_append_left _ hmem, hparse⟩
    · obtain ⟨subnet, hmem, hparse⟩ := exists_of_mapM_ok hprotected cidr hconfigured
      exact ⟨subnet, List.mem_append_right _ hmem, context_ok.mp hparse⟩
  · simpa using hunits

end Soundness

end Sower.Network
