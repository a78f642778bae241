import Sower.Network.Policy

/-!
# Network leases

A lease gives one execution of a garden instance a slot of the address pool
together with the names derived from it. The journal holds one file for each
lease. A file that was read is checked field by field before it is used, and
most operations insist on the peer that the lease was made for.
-/

namespace Sower.Network

section Texts

/-- `c.is_ascii_hexdigit() && !c.is_ascii_uppercase()`. -/
def isLowerHex (c : Char) : Bool := c.isDigit || ('a' ≤ c && c ≤ 'f')

/-- `{:0width$x}`. -/
def hexPadded (width value : ℕ) : List Char :=
  let digits := Nat.toDigits 16 value
  List.replicate (width - digits.length) '0' ++ digits

/-- `valid_token`. -/
def validToken (token : String) : Bool :=
  token.toList.length == 32 && token.toList.all isLowerHex

/-- `valid_mac`. -/
def validMac (mac : String) : Bool :=
  let bytes := mac.toList.splitOn ':'
  mac.toList.length == 17 && bytes.length == 6 &&
    bytes.all fun byte => byte.length == 2 && byte.all isLowerHex

/-- `validate_execution`. -/
def validateExecution (execution : String) : Except String Unit :=
  ensure (execution ≠ "" && decide (execution.utf8ByteSize ≤ 256))
    "execution_id must contain 1 through 256 bytes"

/-- `MARKER`: how the host's tables and interfaces of leases are marked. -/
def marker : String := "sower-network"

/-- `TAP_PREFIX`. -/
def tapPrefix : String := "swnt"

/-- Name of the interface of a slot. -/
def tapName (slot : ℕ) : String := tapPrefix ++ String.ofList (hexPadded 4 slot)

/-- `Ipv4Addr::is_private`. -/
def Ipv4Addr.isPrivate (address : Ipv4Addr) : Bool :=
  let first := (address >>> 24).toNat
  let second := (address >>> 16).toNat % 256
  first == 10 || (first == 172 && decide (16 ≤ second ∧ second ≤ 31)) || (first == 192 && second == 168)

end Texts

/-- `Phase`: how far a lease has come. -/
inductive Phase where
  /-- Only the slot is taken. -/
  | reserved
  /-- Host resources are being set up. -/
  | allocated
  /-- The execution may use the network. -/
  | active
  /-- The execution may no longer use the network. -/
  | revoked
  /-- Its resources could not be removed. -/
  | quarantined
  deriving DecidableEq, Repr

/-- One lease as its journal file holds it. -/
structure Lease where
  /-- `lease`: the random token that names the file. -/
  token : String
  slot : ℕ
  tap : String
  mac : String
  hostMac : Option String
  address : Ipv4Addr
  gateway : Ipv4Addr
  instanceName : String
  ownerUid : ℕ
  ownerPid : ℤ
  ownerStarttime : ℕ
  executionId : String
  phase : Phase
  deriving DecidableEq

/-- `Lease::validate`. -/
def Lease.validate (lease : Lease) : Except String Unit := do
  ensure (validToken lease.token) "invalid journal lease token"
  ensure (decide (lease.slot < 16384) && lease.tap == tapName lease.slot) "invalid journal TAP name"
  ensure (validMac lease.mac && "02:".toList.isPrefixOf lease.mac.toList) "invalid journal guest MAC"
  ensure (lease.hostMac.all validMac) "invalid journal host MAC"
  ensure (lease.gateway.toNat % 4 == 1 && lease.address.toNat == lease.gateway.toNat + 1)
    "invalid journal /30 addresses"
  ensure (lease.address.isPrivate && lease.gateway.isPrivate) "journal addresses must be RFC1918"
  ensure (validUnit lease.instanceName) "invalid journal instance"
  ensure (decide (0 < lease.ownerPid) && decide (0 < lease.ownerStarttime))
    "invalid journal peer identity"
  validateExecution lease.executionId

/-- `PeerCredentials`: who is at the other end of the socket. -/
structure PeerCredentials where
  pid : ℤ
  uid : ℕ
  deriving DecidableEq

/-- `Owner`: an authenticated peer. Its start time tells it from a later process
with the same number. -/
structure Owner where
  instanceName : String
  peer : PeerCredentials
  starttime : ℕ
  deriving DecidableEq

/-- `Lease::require_owner`. -/
def Lease.requireOwner (lease : Lease) (owner : Owner) : Except String Unit :=
  ensure (lease.instanceName == owner.instanceName && lease.ownerUid == owner.peer.uid &&
    lease.ownerPid == owner.peer.pid && lease.ownerStarttime == owner.starttime)
    "lease belongs to another owner"

/-- The lease was made for this peer. -/
def Lease.OwnedBy (lease : Lease) (owner : Owner) : Prop :=
  lease.instanceName = owner.instanceName ∧ lease.ownerUid = owner.peer.uid ∧
    lease.ownerPid = owner.peer.pid ∧ lease.ownerStarttime = owner.starttime

theorem requireOwner_ok {lease : Lease} {owner : Owner} :
    lease.requireOwner owner = .ok () ↔ lease.OwnedBy owner := by
  simp [Lease.requireOwner, ensure_ok, Lease.OwnedBy, and_assoc]

end Sower.Network
