import Sower.Network.Host

/-!
# A host on which every command succeeds

The tools that the activator runs are not part of it. As long as they succeed
they do what they are documented to do: they list what there is, change what
they name and leave everything else alone. On such a host the resources of a
lease are removed exactly when what bears its names carries its marks.
-/

namespace Sower.Network

open Process

variable {η α β : Type}

section Laws

/-- What a transaction makes of the tables. -/
def NftStatement.apply (tables : List TableEntry) : NftStatement → List TableEntry
  | .delete family name => tables.filter fun t => !(t.family == family && t.name == name)
  | .add table =>
    if tables.any fun t => t.family == table.family && t.name == table.name then tables
    else tables ++ [⟨table.family, table.name, some table.comment⟩]

/-- What there is on a host, as its listings show it. -/
structure HostView (η : Type) where
  links : η → List Link
  tables : η → List TableEntry
  connections : η → Selector → Ipv4Addr → List String
  /-- Every command succeeds from here on. -/
  sound : η → Prop

variable (view : HostView η)

/-- Interfaces and tables are the same, and commands still succeed. -/
structure HostView.Same (h h' : η) : Prop where
  sound : view.sound h'
  links : view.links h' = view.links h
  tables : view.tables h' = view.tables h

/-- Interfaces and tables other than those of the lease are the same. -/
structure HostView.Elsewhere (lease : Lease) (h h' : η) : Prop where
  sound : view.sound h'
  links : ∀ tap ≠ lease.tap,
    (view.links h').filter (·.ifname == tap) = (view.links h).filter (·.ifname == tap)
  tables : ∀ family name, ¬ lease.OwnTable family name →
    (view.tables h').filter (fun t => t.family == family && t.name == name) =
      (view.tables h).filter fun t => t.family == family && t.name == name

end Laws

section Runs

/-- The operation acts on nothing but the host, which it takes from `h` to `h'`. -/
def Does (p : Op η α) (h : η) (outcome : Except String α) (h' : η) : Prop :=
  ∀ m : Machine η, m.host = h → p.run.run m = (outcome, { m with host := h' }, [])

theorem Does.bind {p : Op η α} {k : α → Op η β} {h h' h'' : η} {value : α}
    {outcome : Except String β} (hp : Does p h (.ok value) h')
    (hk : Does (k value) h' outcome h'') : Does (p >>= k) h outcome h'' := by
  rintro m rfl
  have hthen := hk { m with host := h' } rfl
  simp only [Fallible.run_bind, Proc.run_bind, hp m rfl, hthen, List.append_nil]

theorem Does.bind_error {p : Op η α} {k : α → Op η β} {h h' : η} {message : String}
    (hp : Does p h (.error message) h') : Does (p >>= k) h (.error message) h' := by
  rintro m rfl
  simp only [Fallible.run_bind, Proc.run_bind, hp m rfl]
  rfl

end Runs

section Resources

variable {env : Environment η} {view : HostView η} {lease : Lease} {h : η}

theorem HostView.Same.trans {h h' h'' : η} (hfirst : view.Same h h') (hsecond : view.Same h' h'') :
    view.Same h h'' :=
  ⟨hsecond.sound, hsecond.links.trans hfirst.links, hsecond.tables.trans hfirst.tables⟩

/-- The table of a name, if it carries the marker. -/
def ownedTable (family name : String) (tables : List TableEntry) : Except String Bool :=
  if tables.any fun t => t.family == family && t.name == name then
    if tables.any fun t => t.family == family && t.name == name && t.comment == some marker then
      .ok true
    else .error ("refusing to change unowned nft table " ++ family ++ " " ++ name)
  else .ok false

/-- Only the entries under a name matter for who owns it. -/
theorem ownedTable_congr {family name : String} {tables tables' : List TableEntry}
    (hsame : (tables'.filter fun t => t.family == family && t.name == name) =
      tables.filter fun t => t.family == family && t.name == name) :
    ownedTable family name tables' = ownedTable family name tables := by
  have hany : ∀ entries : List TableEntry,
      (entries.any fun t => t.family == family && t.name == name) =
        (entries.filter fun t => t.family == family && t.name == name).any fun _ => true := by
    intro entries
    rw [List.any_filter]
    simp only [Bool.and_true]
  have hmarked : ∀ entries : List TableEntry,
      (entries.any fun t => t.family == family && t.name == name && t.comment == some marker) =
        (entries.filter fun t => t.family == family && t.name == name).any
          fun t => t.comment == some marker := by
    intro entries
    rw [List.any_filter]
  simp only [ownedTable, hany, hmarked, hsame]

/-- What bears the names of a lease carries its marks. -/
def Marked (view : HostView η) (lease : Lease) (h : η) : Prop :=
  (∃ found, ownedLink lease (view.links h) = .ok found) ∧
    (∃ guard, ownedTable "inet" (inetTable lease) (view.tables h) = .ok guard) ∧
    ∃ ingress, ownedTable "netdev" (netdevTable lease) (view.tables h) = .ok ingress

/-- Nothing on the host carries the marks of the lease. -/
def Unused (view : HostView η) (lease : Lease) (h : η) : Prop :=
  (∀ link ∈ view.links h, link.ifname = lease.tap → link.ifalias ≠ some (linkAlias lease)) ∧
    ∀ t ∈ view.tables h, lease.OwnTable t.family t.name → t.comment ≠ some marker

end Resources

end Sower.Network
