import Sower.Network.Policy

/-!
# Routes that an execution subnet would replace

Before an execution gets its subnet, the routes of the host are checked: none of them,
apart from default routes, may lead to an address of that subnet.
-/

namespace Sower.Network

section Check

/-- A route of `ip --json route show`, with its destination if there is one. -/
structure Route where
  dst : Option String
  deriving DecidableEq, Repr

/-- `u32::from(gateway) & !3`. -/
def executionNetwork (gateway : Ipv4Addr) : Ipv4Addr := gateway &&& ~~~3

/-- A single address as a range. -/
def Subnet.host (address : Ipv4Addr) : Subnet where
  network := address
  prefixLength := 32
  bounded := le_refl 32
  aligned := by
    have hmask : mask 32 = BitVec.allOnes 32 := by decide
    rw [hmask, BitVec.and_allOnes]

/-- Destination of a route that is no default route. -/
def destination (text : String) : Except String Subnet :=
  if text.toList.contains '/' then Subnet.fromStr text
  else match Ipv4Addr.fromStr text.toList with
    | some address => .ok (.host address)
    | none => .error "invalid IPv4 address syntax"

/-- The range and the execution network have an address in common. The end of the network
is computed in 32 bits. -/
def overlaps (network : Ipv4Addr) (subnet : Subnet) : Bool :=
  subnet.contains network || (decide (network ≤ subnet.network) && decide (subnet.network < network + 4))

/-- One turn of the loop in `check_routes`. -/
def checkRoute (network : Ipv4Addr) (route : Route) : Except String Unit :=
  match route.dst with
  | none => .error "route lacks destination"
  | some text =>
    if text = "default" then .ok ()
    else do
      let subnet ← destination text
      ensure (subnet.prefixLength == 0 || !overlaps network subnet)
        ("execution subnet " ++ network.display ++ "/30 overlaps existing host route " ++ text)

/-- `check_routes`. -/
def checkRoutes (gateway : Ipv4Addr) (routes : List Route) : Except String Unit :=
  routes.forM (checkRoute (executionNetwork gateway))

end Check

section Meaning

/-- The range a route leads to. -/
inductive LeadsTo (route : Route) : Subnet → Prop
  | default (subnet : Subnet) (listed : route.dst = some "default")
      (everything : subnet.prefixLength = 0) : LeadsTo route subnet
  | range {text : String} {subnet : Subnet} (listed : route.dst = some text)
      (specific : text ≠ "default") (parsed : destination text = .ok subnet) : LeadsTo route subnet

/-- The address lies in the /30 network of the gateway. -/
def InExecution (gateway address : Ipv4Addr) : Prop := address.toNat / 4 = gateway.toNat / 4

/-- Some address of the gateway's network is one the range covers. -/
def Conflicts (gateway : Ipv4Addr) (subnet : Subnet) : Prop :=
  ∃ address, InExecution gateway address ∧ subnet.contains address = true

variable {gateway : Ipv4Addr} {subnet : Subnet} {route : Route}

theorem executionNetwork_toNat (gateway : Ipv4Addr) :
    (executionNetwork gateway).toNat = gateway.toNat / 4 * 4 := by
  have hmask : ~~~(3 : Ipv4Addr) = mask 30 := by decide
  unfold executionNetwork
  rw [hmask]
  exact toNat_and_mask gateway 30

/-- Two intervals meet exactly when one begins in the other. -/
theorem intervals_meet {a b m n : ℕ} (hm : 0 < m) (hn : 0 < n) :
    (∃ x, a ≤ x ∧ x < a + m ∧ b ≤ x ∧ x < b + n) ↔
      (b ≤ a ∧ a < b + n) ∨ (a ≤ b ∧ b < a + m) := by
  constructor
  · intro h
    obtain ⟨x, hax, hxa, hbx, hxb⟩ := h
    rcases Nat.le_total a b with hab | hba
    · exact Or.inr ⟨hab, by omega⟩
    · exact Or.inl ⟨hba, by omega⟩
  · intro h
    rcases h with ⟨hba, hab⟩ | ⟨hab, hba⟩
    · exact ⟨a, le_refl a, by omega, hba, hab⟩
    · exact ⟨b, hab, hba, le_refl b, by omega⟩

/-- The test finds every common address, unless the network is the last one there is. -/
theorem overlaps_iff (hend : gateway.toNat / 4 * 4 + 4 < 2 ^ 32) :
    overlaps (executionNetwork gateway) subnet = true ↔ Conflicts gateway subnet := by
  have hnetwork := executionNetwork_toNat gateway
  have hpos : 0 < subnet.size := Nat.two_pow_pos _
  have hmeet := intervals_meet (a := (executionNetwork gateway).toNat) (b := subnet.network.toNat)
    (m := 4) (by omega) hpos
  have hsum : (executionNetwork gateway + 4).toNat = (executionNetwork gateway).toNat + 4 := by
    rw [BitVec.toNat_add]
    change ((executionNetwork gateway).toNat + 4) % 2 ^ 32 = _
    rw [hnetwork, Nat.mod_eq_of_lt hend]
  have htest : overlaps (executionNetwork gateway) subnet = true ↔
      (subnet.network.toNat ≤ (executionNetwork gateway).toNat ∧
        (executionNetwork gateway).toNat < subnet.network.toNat + subnet.size) ∨
      ((executionNetwork gateway).toNat ≤ subnet.network.toNat ∧
        subnet.network.toNat < (executionNetwork gateway).toNat + 4) := by
    unfold overlaps
    rw [Bool.or_eq_true, contains_iff, Bool.and_eq_true, decide_eq_true_eq, decide_eq_true_eq,
      BitVec.le_def, BitVec.lt_def, hsum]
  rw [htest, ← hmeet]
  unfold Conflicts InExecution
  constructor
  · intro h
    obtain ⟨x, hlow, hhigh, hin, hin'⟩ := h
    have hx : (BitVec.ofNat 32 x).toNat = x := by
      rw [BitVec.toNat_ofNat, Nat.mod_eq_of_lt]
      omega
    refine ⟨BitVec.ofNat 32 x, ?_, contains_iff.mpr ?_⟩
    · rw [hx]
      omega
    · rw [hx]
      exact ⟨hin, hin'⟩
  · intro h
    obtain ⟨address, haddress, hcontains⟩ := h
    obtain ⟨hin, hin'⟩ := contains_iff.mp hcontains
    exact ⟨address.toNat, by omega, by omega, hin, hin'⟩

/-- One route is accepted exactly when its range, if it is none of all addresses, has
nothing in common with the gateway's network. -/
theorem checkRoute_ok (hend : gateway.toNat / 4 * 4 + 4 < 2 ^ 32) (hleads : LeadsTo route subnet) :
    checkRoute (executionNetwork gateway) route = .ok () ↔
      (subnet.prefixLength ≠ 0 → ¬ Conflicts gateway subnet) := by
  unfold checkRoute
  cases hleads with
  | default subnet listed everything =>
    rw [listed]
    dsimp only
    rw [if_pos rfl]
    exact ⟨fun _ hne => absurd everything hne, fun _ => rfl⟩
  | range listed specific parsed =>
    rw [listed]
    dsimp only
    rw [if_neg specific, bind_ok]
    have hiff : overlaps (executionNetwork gateway) subnet = true ↔ Conflicts gateway subnet :=
      overlaps_iff hend
    constructor
    · intro h hne hconflicts
      obtain ⟨found, hfound, hensure⟩ := h
      rw [parsed] at hfound
      cases hfound
      rw [ensure_ok, hiff.mpr hconflicts] at hensure
      simp [hne] at hensure
    · intro h
      refine ⟨subnet, parsed, ensure_ok.mpr ?_⟩
      by_cases hzero : subnet.prefixLength = 0
      · simp [hzero]
      · have hnot : overlaps (executionNetwork gateway) subnet = false := by
          rw [← Bool.not_eq_true, hiff]
          exact h hzero
        simp [hnot]

/-- The check succeeds exactly when no route but a default route has an address in common
with the gateway's network. -/
theorem check_routes_iff (gateway : Ipv4Addr) (routes : List Route)
    (hformed : ∀ route ∈ routes, ∃ subnet, LeadsTo route subnet)
    (hend : gateway.toNat / 4 * 4 + 4 < 2 ^ 32) :
    checkRoutes gateway routes = .ok () ↔
      ∀ route ∈ routes, ∀ subnet, LeadsTo route subnet → subnet.prefixLength ≠ 0 →
        ¬ Conflicts gateway subnet := by
  have hloop : checkRoutes gateway routes = .ok () ↔
      ∀ route ∈ routes, checkRoute (executionNetwork gateway) route = .ok () := by
    unfold checkRoutes
    clear hformed
    induction routes with
    | nil => simp [pure, Except.pure]
    | cons route rest ih =>
      rw [List.forall_mem_cons, ← ih]
      change (checkRoute _ route >>= fun _ => rest.forM _) = .ok () ↔ _
      rw [bind_ok]
      constructor
      · intro h
        obtain ⟨_, hfirst, hrest⟩ := h
        exact ⟨hfirst, hrest⟩
      · intro h
        exact ⟨(), h⟩
  rw [hloop]
  constructor
  · intro h route hroute subnet hleads
    exact (checkRoute_ok hend hleads).mp (h route hroute)
  · intro h route hroute
    obtain ⟨subnet, hleads⟩ := hformed route hroute
    exact (checkRoute_ok hend hleads).mpr (h route hroute subnet hleads)

theorem check_routes_listed :
    checkRoutes 0x0afe0001 [⟨some "default"⟩, ⟨some "10.254.0.4/30"⟩] = .ok () ↔
      ∀ route ∈ [⟨some "default"⟩, ⟨some "10.254.0.4/30"⟩], ∀ subnet, LeadsTo route subnet →
        subnet.prefixLength ≠ 0 → ¬ Conflicts 0x0afe0001 subnet := by
  refine check_routes_iff 0x0afe0001 _ ?_ (by decide)
  intro route hroute
  rcases List.mem_cons.mp hroute with rfl | hrest
  · exact ⟨⟨0, 0, by decide, by decide⟩, .default _ rfl rfl⟩
  · rw [List.mem_singleton.mp hrest]
    exact ⟨⟨0x0afe0004, 30, by decide, by decide⟩,
      .range rfl (by decide) (by decide +kernel)⟩

/-- At the end of the address space the bound of the network wraps to zero, and a route to
one of its addresses is not seen. -/
theorem check_routes_last_network :
    checkRoutes 0xfffffffd [⟨some "255.255.255.254"⟩] = .ok () ∧
      LeadsTo ⟨some "255.255.255.254"⟩ (.host 0xfffffffe) ∧
      Conflicts 0xfffffffd (.host 0xfffffffe) := by
  refine ⟨by decide +kernel, .range rfl (by decide) (by decide +kernel), 0xfffffffe, rfl, ?_⟩
  decide

end Meaning

end Sower.Network
