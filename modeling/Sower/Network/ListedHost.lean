import Sower.Network.HostLaws

/-!
# A host that is what its listings show

On this host every command succeeds and does what its tool is documented to do.
The laws that recovery relies on hold of it, so they do not contradict each
other.
-/

namespace Sower.Network

/-- Routes, interfaces, tables and connections. -/
structure ListedHost where
  routes : List Route := []
  links : List Link := []
  tables : List TableEntry := []
  connections : Selector → Ipv4Addr → List String := fun _ _ => []

namespace ListedHost

variable {lease : Lease} {h : ListedHost}

/-- The Ethernet address that the kernel gives to a new interface. -/
def newMac : String := "02:00:00:00:00:01"

/-- Change the interface of a name. -/
def editLink (tap : String) (edit : Link → Link) (h : ListedHost) : ListedHost :=
  { h with links := h.links.map fun link => if link.ifname == tap then edit link else link }

/-- What each command prints, and what it makes of the host. -/
def run : Command → ListedHost → Except String Output × ListedHost
  | .routes, h => (.ok (.routes h.routes), h)
  | .links, h => (.ok (.links h.links), h)
  | .tuntapAdd tap _, h =>
    (.ok (.lines []), { h with links := h.links ++ [{ ifname := tap, address := some newMac }] })
  | .setAlias tap ifalias, h =>
    (.ok (.lines []), h.editLink tap fun link => { link with ifalias := some ifalias })
  | .udevWait _, h => (.ok (.lines []), h)
  | .addressAdd _ _, h => (.ok (.lines []), h)
  | .setUp _, h => (.ok (.lines []), h)
  | .setDown _, h => (.ok (.lines []), h)
  | .tuntapDel tap, h =>
    (.ok (.lines []), { h with links := h.links.filter fun link => !(link.ifname == tap) })
  | .conntrackDump selector address, h => (.ok (.lines (h.connections selector address)), h)
  | .conntrackDelete selector address, h => (.ok (.lines []), { h with
      connections := fun s a => if s = selector ∧ a = address then [] else h.connections s a })
  | .listTables, h => (.ok (.tables h.tables), h)
  | .listTable family name, h =>
    (.ok (.tables (h.tables.filter fun t => t.family == family && t.name == name)), h)
  | .nft transaction, h =>
    (.ok (.lines []), { h with tables := transaction.foldl NftStatement.apply h.tables })

/-- The host as its listings show it. Commands never fail on it. -/
def view : HostView ListedHost where
  links := links
  tables := tables
  connections := connections
  sound _ := True

/-- The environment of such a host, with the tokens that are drawn and no other failures. -/
def environment (policy : Policy) (random : ℕ → Option Entropy) : Environment ListedHost where
  policy := policy
  digest _ := 0
  command := run
  random := random
  faults _ := false
  listing _ names := names
  listing_perm _ _ := List.Perm.refl _

/-- The policy file of a host with two slots. -/
def policyFile : PolicyFile where
  addressPool := "10.0.0.0/29"
  dnsResolver := 0x01010101#32
  protectedDestinations := []
  stateDirectory := "/run/sower-network"
  gardenUnits := ["sower-garden.service"]

/-- The policy that the file states. -/
def policy : Policy where
  pool := ⟨0x0a000000#32, 29, by decide, by decide⟩
  dns := 0x01010101#32
  protectedRanges := special.filterMap fun cidr => (Subnet.fromStr cidr).toOption
  stateDirectory := "/run/sower-network"
  gardenUnits := ["sower-garden.service"]

theorem validate_policyFile : Policy.validate policyFile = .ok policy := by rfl

/-- Two reads of `/dev/urandom` succeed. -/
def random : ℕ → Option Entropy
  | 0 => some fun _ => 0
  | 1 => some fun _ => 1
  | _ => none

theorem random_cases {k : ℕ} {bytes : Entropy} (hdrawn : random k = some bytes) :
    k = 0 ∧ bytes = (fun _ => 0) ∨ k = 1 ∧ bytes = fun _ => 1 := by
  rcases k with _ | _ | k
  · exact Or.inl ⟨rfl, (Option.some.inj hdrawn).symm⟩
  · exact Or.inr ⟨rfl, (Option.some.inj hdrawn).symm⟩
  · cases hdrawn

/-- The process that serves the garden. -/
def garden : PeerCredentials := ⟨7, 1000⟩

/-- A host on which nothing has been provisioned yet. -/
def machine : Machine ListedHost where
  files := []
  temporaries := []
  locks _ := none
  processes pid :=
    if pid = garden.pid then
      some ⟨3, garden.uid, "0::/system.slice/sower-garden.service"⟩
    else none
  clock := 4
  sessions := 0
  draws := 0
  ticks := 0
  host := {}

/-- A request for the network of an execution. -/
def provisionRequest (execution : String) : NetworkRequest := ⟨some "provision", some execution, none⟩

end ListedHost

end Sower.Network
