import Sower.Network.Machine

/-!
# Host resources of a lease

The interface of a lease carries an alias and its firewall tables a comment, so
that operations recognise what they own and refuse to touch anything else under
the same names.
-/

namespace Sower.Network

open Process

variable {η α : Type} (env : Environment η)

/-- `ensure!` within an operation. -/
def require (condition : Bool) (message : String) : Op η Unit :=
  Fallible.lift (ensure condition message)

section Tables

/-- Tables of a listing. -/
def tableEntries (c : Command) : Op η (List TableEntry) := do
  match ← command env c with
  | .tables entries => pure entries
  | _ => throw "nft table listing"

/-- `table_exists`: a table under a name, which has to carry the marker. -/
def tableExists (family name : String) : Op η Bool := do
  let tables ← tableEntries env .listTables
  if tables.any fun entry => entry.family == family && entry.name == name then do
    let entries ← tableEntries env (.listTable family name)
    require (entries.any fun entry =>
      entry.family == family && entry.name == name && entry.comment == some marker)
      ("refusing to change unowned nft table " ++ family ++ " " ++ name)
    pure true
  else pure false

/-- `nft`: one transaction. -/
def nft (transaction : List NftStatement) : Op η Unit := do
  let _ ← command env (.nft transaction)

/-- The transaction whose text is the guard script. -/
def guardTransaction (policy : Policy) (lease : Lease) (existing : Bool) : List NftStatement :=
  (if existing then [.delete "inet" (inetTable lease)] else []) ++ [.add (guardTable policy lease)]

/-- `install_guard`. -/
def installGuard (lease : Lease) : Op η Unit := do
  require (validToken lease.token) "invalid execution lease token"
  let existing ← tableExists env "inet" (inetTable lease)
  nft env (guardTransaction env.policy lease existing)

/-- The transaction whose text is the ingress script. -/
def ingressTransaction (lease : Lease) (hostMac : String) (existing : Bool) : List NftStatement :=
  (if existing then [.delete "netdev" (netdevTable lease)] else []) ++
    [.add (ingressTable lease hostMac)]

/-- `install_ingress`. -/
def installIngress (lease : Lease) : Op η Unit := do
  let existing ← tableExists env "netdev" (netdevTable lease)
  match lease.hostMac with
  | none => throw "missing TAP MAC"
  | some hostMac => nft env (ingressTransaction lease hostMac existing)

end Tables

section Links

/-- `links`. -/
def links : Op η (List Link) := do
  match ← command env .links with
  | .links links => pure links
  | _ => throw "parse interface listing"

/-- The alias that marks the interface of a lease. -/
def linkAlias (lease : Lease) : String := marker ++ ":" ++ lease.token

/-- `owned_link`: the interface of a lease, which has to carry its alias. -/
def ownedLink (lease : Lease) (links : List Link) : Except String (Option Link) :=
  match links.find? (·.ifname == lease.tap) with
  | none => .ok none
  | some link =>
    if link.ifalias == some (linkAlias lease) then .ok (some link)
    else .error ("refusing to change unowned interface " ++ lease.tap)

/-- No interface has the name yet. -/
def requireUnoccupied (tap : String) : Op η Unit := do
  let current ← links env
  require (!current.any (·.ifname == tap)) "interface name is already occupied"

/-- `require_available_subnet`. -/
def requireAvailableSubnet (gateway : Ipv4Addr) : Op η Unit := do
  match ← command env .routes with
  | .routes routes => Fallible.lift (checkRoutes gateway routes)
  | _ => throw "route listing"

/-- The steps of a change to a lease in memory. What was assigned before a step fails
stays assigned. -/
def stage (lease : Lease) (p : Op η α) (next : α → Op η (Lease × Except String Unit)) :
    Op η (Lease × Except String Unit) := do
  match ← Fallible.attempt p with
  | .error message => pure (lease, .error message)
  | .ok value => next value

/-- Add the interface, mark it and read the address that it has been given. -/
def addTap (lease : Lease) : Op η String := do
  requireUnoccupied env lease.tap
  let _ ← command env (.tuntapAdd lease.tap lease.ownerUid)
  let _ ← command env (.setAlias lease.tap (linkAlias lease))
  let _ ← command env (.udevWait lease.tap)
  let current ← links env
  match ← Fallible.lift (ownedLink lease current) with
  | none => throw "created TAP disappeared"
  | some link =>
    match link.address with
    | none => throw "TAP lacks Ethernet address"
    | some mac => do
      require (validMac mac) "TAP has an invalid Ethernet address"
      pure mac

/-- `create_tap`. -/
def createTap (lease : Lease) : Op η (Lease × Except String Unit) :=
  stage lease (addTap env lease) fun mac =>
    let lease := { lease with hostMac := some mac }
    stage lease (command env (.addressAdd lease.gateway lease.tap)) fun _ => pure (lease, .ok ())

/-- `set_up`. -/
def setUp (lease : Lease) : Op η Unit := do
  let current ← links env
  match ← Fallible.lift (ownedLink lease current) with
  | none => throw "TAP disappeared"
  | some _ => do
    let _ ← command env (.setUp lease.tap)

/-- `set_down`. -/
def setDown (lease : Lease) : Op η Unit := do
  let current ← links env
  match ← Fallible.lift (ownedLink lease current) with
  | none => pure ()
  | some _ => do
    let _ ← command env (.setDown lease.tap)

end Links

section Removal

/-- Lines of a dump of the connection table. -/
def conntrackDump (selector : Selector) (address : Ipv4Addr) : Op η (List String) := do
  match ← command env (.conntrackDump selector address) with
  | .lines lines => pure lines
  | _ => throw "conntrack dump"

/-- One round of `purge_connections`. -/
def purgeSelector (address : Ipv4Addr) (selector : Selector) : Op η Unit := do
  let before ← conntrackDump env selector address
  if before ≠ [] then do
    let _ ← command env (.conntrackDelete selector address)
  let after ← conntrackDump env selector address
  require after.isEmpty ("stale conntrack entries for " ++ address.display)

/-- `purge_connections`. -/
def purgeConnections (lease : Lease) : Op η Unit :=
  [Selector.origSrc, .origDst, .replySrc, .replyDst].forM (purgeSelector env lease.address)

/-- Remove the interface unless something is still attached to it. -/
def removeTap (lease : Lease) : Op η Unit := do
  let current ← links env
  match ← Fallible.lift (ownedLink lease current) with
  | none => pure ()
  | some _ => do
    let _ ← command env (.tuntapDel lease.tap)
    let current ← links env
    let remaining ← Fallible.lift (ownedLink lease current)
    require remaining.isNone "TAP remains attached; allocation quarantined"

/-- Delete the tables that exist, in one transaction. -/
def removeTables (lease : Lease) : Op η Unit := do
  let guard ← tableExists env "inet" (inetTable lease)
  let ingress ← tableExists env "netdev" (netdevTable lease)
  let transaction := (if guard then [NftStatement.delete "inet" (inetTable lease)] else []) ++
    if ingress then [NftStatement.delete "netdev" (netdevTable lease)] else []
  if transaction.isEmpty then pure () else nft env transaction

/-- `remove_resources`. -/
def removeResources (lease : Lease) : Op η Unit := do
  setDown env lease
  removeTap env lease
  purgeConnections env lease
  removeTables env lease

end Removal

section Concerns

/-- The table is one of the lease's own. -/
def Lease.OwnTable (lease : Lease) (family name : String) : Prop :=
  family = "inet" ∧ name = inetTable lease ∨ family = "netdev" ∧ name = netdevTable lease

/-- The statement changes a table of the lease. -/
def NftStatement.Concerns (lease : Lease) : NftStatement → Prop
  | .delete family name => lease.OwnTable family name
  | .add table => lease.OwnTable table.family table.name

/-- The command reads, or changes what belongs to the lease. -/
def Command.Concerns (lease : Lease) : Command → Prop
  | .routes | .links | .conntrackDump _ _ | .conntrackDelete _ _ | .listTables | .listTable _ _ => True
  | .tuntapAdd tap _ | .setAlias tap _ | .udevWait tap | .addressAdd _ tap | .setUp tap
  | .setDown tap | .tuntapDel tap => tap = lease.tap
  | .nft transaction => ∀ statement ∈ transaction, statement.Concerns lease

/-- Every step runs a command that concerns the lease. -/
def Issues (lease : Lease) (p : Op η α) : Prop :=
  p.Follows fun m es m' => ∃ c : Command, c.Concerns lease ∧ es = [] ∧
    m' = { m with host := (env.command c m.host).2 }

variable {env} {lease : Lease}

theorem issues_command {c : Command} (h : c.Concerns lease) : Issues env lease (command env c) :=
  follows_atomic fun _ => ⟨c, h, rfl, rfl⟩

theorem issues_require (condition : Bool) (message : String) :
    Issues env lease (require condition message) := follows_lift _

theorem issues_tableEntries {c : Command} (h : c.Concerns lease) :
    Issues env lease (tableEntries env c) := by
  refine (issues_command h).bind fun out => ?_
  cases out with
  | tables entries => exact follows_pure _
  | _ => exact follows_throw _

theorem issues_tableExists (family name : String) :
    Issues env lease (tableExists env family name) := by
  refine (issues_tableEntries (by trivial)).bind fun tables => ?_
  split
  · exact (issues_tableEntries (by trivial)).bind fun _ => (issues_require _ _).bind fun _ =>
      follows_pure _
  · exact follows_pure _

theorem issues_nft {transaction : List NftStatement}
    (h : ∀ statement ∈ transaction, statement.Concerns lease) :
    Issues env lease (nft env transaction) :=
  Fallible.Follows.bind (issues_command h) fun _ => follows_pure _

theorem issues_installGuard : Issues env lease (installGuard env lease) := by
  refine (issues_require _ _).bind fun _ => (issues_tableExists _ _).bind fun existing =>
    issues_nft fun statement hmem => ?_
  rcases List.mem_append.mp hmem with hdelete | hadd
  · cases existing with
    | true =>
      rw [List.mem_singleton.mp hdelete]
      exact Or.inl ⟨rfl, rfl⟩
    | false => cases hdelete
  · rw [List.mem_singleton.mp hadd]
    exact Or.inl ⟨rfl, rfl⟩

theorem issues_installIngress : Issues env lease (installIngress env lease) := by
  refine (issues_tableExists _ _).bind fun existing => ?_
  cases lease.hostMac with
  | none => exact follows_throw _
  | some hostMac =>
    refine issues_nft fun statement hmem => ?_
    rcases List.mem_append.mp hmem with hdelete | hadd
    · cases existing with
      | true =>
        rw [List.mem_singleton.mp hdelete]
        exact Or.inr ⟨rfl, rfl⟩
      | false => cases hdelete
    · rw [List.mem_singleton.mp hadd]
      exact Or.inr ⟨rfl, rfl⟩

theorem issues_links : Issues env lease (links env) := by
  refine Fallible.Follows.bind (issues_command (by trivial)) fun out => ?_
  cases out with
  | links links => exact follows_pure _
  | _ => exact follows_throw _

theorem issues_requireUnoccupied (tap : String) :
    Issues env lease (requireUnoccupied env tap) :=
  issues_links.bind fun _ => issues_require _ _

theorem issues_requireAvailableSubnet (gateway : Ipv4Addr) :
    Issues env lease (requireAvailableSubnet env gateway) := by
  refine Fallible.Follows.bind (issues_command (by trivial)) fun out => ?_
  cases out with
  | routes routes => exact follows_lift _
  | _ => exact follows_throw _

theorem issues_addTap : Issues env lease (addTap env lease) := by
  refine (issues_requireUnoccupied _).bind fun _ => (issues_command (by exact rfl)).bind fun _ =>
    (issues_command (by exact rfl)).bind fun _ => (issues_command (by exact rfl)).bind fun _ =>
    issues_links.bind fun current => Fallible.Follows.bind (follows_lift _) fun found => ?_
  cases found with
  | none => exact follows_throw _
  | some link =>
    dsimp only
    cases link.address with
    | none => exact follows_throw _
    | some mac => exact (issues_require _ _).bind fun _ => follows_pure _

/-- A command that is run when the interface is there and carries its alias. -/
theorem issues_owned {p : Op η Unit} {q : Link → Op η Unit} (hp : Issues env lease p)
    (hq : ∀ link, Issues env lease (q link)) : Issues env lease (do
      let current ← links env
      match ← Fallible.lift (ownedLink lease current) with
      | none => p
      | some link => q link) := by
  refine issues_links.bind fun current => Fallible.Follows.bind (follows_lift _) fun found => ?_
  cases found with
  | none => exact hp
  | some link => exact hq link

theorem issues_setUp : Issues env lease (setUp env lease) :=
  issues_owned (follows_throw _) fun _ => (issues_command (by exact rfl)).bind fun _ => follows_pure _

theorem issues_setDown : Issues env lease (setDown env lease) :=
  issues_owned (follows_pure _) fun _ => (issues_command (by exact rfl)).bind fun _ => follows_pure _

theorem issues_conntrackDump (selector : Selector) (address : Ipv4Addr) :
    Issues env lease (conntrackDump env selector address) := by
  refine Fallible.Follows.bind (issues_command (by trivial)) fun out => ?_
  cases out with
  | lines lines => exact follows_pure _
  | _ => exact follows_throw _

theorem issues_purgeConnections : Issues env lease (purgeConnections env lease) := by
  refine follows_forM fun selector _ => (issues_conntrackDump _ _).bind fun before => ?_
  have hafter : Issues env lease (do
      let after ← conntrackDump env selector lease.address
      require after.isEmpty ("stale conntrack entries for " ++ lease.address.display)) :=
    (issues_conntrackDump _ _).bind fun _ => issues_require _ _
  split
  · exact Fallible.Follows.bind (issues_command (by trivial)) fun _ => hafter
  · exact hafter

theorem issues_removeTap : Issues env lease (removeTap env lease) :=
  issues_owned (follows_pure _) fun _ => (issues_command (by exact rfl)).bind fun _ =>
    issues_links.bind fun _ => Fallible.Follows.bind (follows_lift _) fun _ => issues_require _ _

theorem issues_removeTables : Issues env lease (removeTables env lease) := by
  have hdelete : ∀ transaction : List NftStatement,
      (∀ statement ∈ transaction, statement.Concerns lease) →
      Issues env lease (if transaction.isEmpty then pure () else nft env transaction) := by
    intro transaction h
    split
    · exact follows_pure _
    · exact issues_nft h
  refine (issues_tableExists _ _).bind fun guard => (issues_tableExists _ _).bind fun ingress =>
    hdelete _ fun statement hmem => ?_
  rcases List.mem_append.mp hmem with hguard | hingress
  · cases guard with
    | true =>
      rw [List.mem_singleton.mp hguard]
      exact Or.inl ⟨rfl, rfl⟩
    | false => cases hguard
  · cases ingress with
    | true =>
      rw [List.mem_singleton.mp hingress]
      exact Or.inr ⟨rfl, rfl⟩
    | false => cases hingress

theorem issues_removeResources : Issues env lease (removeResources env lease) :=
  issues_setDown.bind fun _ => issues_removeTap.bind fun _ =>
    issues_purgeConnections.bind fun _ => issues_removeTables

end Concerns

end Sower.Network
