import Sower.Lib.PacketFilter
import Sower.Network.Lease

/-!
# The firewall of a lease

Two nftables tables are generated for a lease: the guard, which decides what may
be forwarded, and the ingress table of its interface. Rules are conditions on
packets in the order in which the source writes them, and a table stands for
the chains of a packet filter. Blanks are part of the syntax because the text
of the scripts is reproduced from it.
-/

namespace Sower.Network

open PacketFilter

section Packets

/-- Connection tracking states that the rules mention, and the remaining ones. -/
inductive CtState where
  | new
  | established
  | other
  deriving DecidableEq, Repr

/-- Transport header, as far as the rules look at it. -/
inductive Transport where
  | tcp (dport : ℕ)
  | udp (dport : ℕ)
  | other
  deriving DecidableEq, Repr

/-- Operations of ARP that the rules mention, and the remaining ones. -/
inductive ArpOperation where
  | request
  | reply
  | other
  deriving DecidableEq, Repr

/-- What a frame carries. -/
inductive Payload where
  | ipv4 (saddr daddr : Ipv4Addr) (transport : Transport)
  | ipv6 (transport : Transport)
  | arp (operation : ArpOperation) (saddrEther : String) (saddrIp : Ipv4Addr) (daddrEther : String)
      (daddrIp : Ipv4Addr)
  | other
  deriving DecidableEq

/-- A packet together with what the kernel knows about it. -/
structure Packet where
  /-- Interface it entered from. -/
  iifname : String
  /-- Interface it is routed to. -/
  oifname : String
  etherSaddr : String
  etherDaddr : String
  payload : Payload
  /-- `fib daddr type local`: its destination is an address of the host. -/
  daddrLocal : Bool
  ctState : CtState
  /-- `ct status snat`. -/
  ctSnat : Bool
  deriving DecidableEq

end Packets

section Syntax

/-- An interface name, or a set of them by its name. -/
inductive Interface where
  | name (name : String)
  | member (set : String)

/-- An address, or a set of them by its name. -/
inductive Address where
  | literal (address : Ipv4Addr)
  | member (set : String)

/-- Conditions of rules. -/
inductive Condition where
  | iifname (interface : Interface)
  | oifname (interface : Interface)
  | nfprotoIpv6
  | fibDaddrLocal
  | ipSaddr (address : Address)
  | ipDaddr (address : Address)
  | udpDport (port : ℕ)
  | tcpDport (port : ℕ)
  | tcpDportIn (ports : List ℕ)
  | ctStateIn (states : List CtState)
  | ctState (state : CtState)
  | ctStatusSnat
  | etherSaddr (mac : String)
  | etherDaddr (mac : String)
  | etherDaddrIn (macs : List String)
  | etherTypeIp
  | etherTypeArp
  | arpOperation (operation : ArpOperation)
  | arpSaddrEther (mac : String)
  | arpSaddrIp (address : Ipv4Addr)
  | arpDaddrEther (mac : String)
  | arpDaddrIp (address : Ipv4Addr)

/-- What a rule does with a packet that meets its conditions. -/
inductive Action where
  | accept
  | drop
  | masquerade

/-- A rule and the blanks around it. -/
structure Statement where
  lead : String := ""
  conditions : List Condition
  action : Action
  trail : String := "\n"

/-- Hooks that the chains are attached to. -/
inductive Hook where
  | ingress (device : String)
  | prerouting
  | input
  | forward
  | output
  | postrouting
  deriving DecidableEq

/-- Priority of a chain, as a number or by its name. -/
inductive Priority where
  | number (value : ℤ)
  | srcnat

/-- A base chain and the blanks around its parts. -/
structure ChainDefinition where
  lead : String := ""
  name : String
  kind : String := "filter"
  hook : Hook
  priority : Priority
  policy : Verdict := .accept
  trail : String := "\n"
  statements : List Statement
  closing : String := "\x7d\n"

/-- A table with its sets and chains. -/
structure TableDefinition where
  family : String
  name : String
  comment : String
  interfaceSets : List (String × List String) := []
  addressSets : List (String × List Subnet) := []
  chains : List ChainDefinition

end Syntax

section Meaning

/-- The interfaces that an operand stands for. -/
def Interface.matches (table : TableDefinition) (name : String) : Interface → Bool
  | .name expected => name == expected
  | .member set => ((table.interfaceSets.lookup set).getD []).contains name

/-- A range of an interval set covers the addresses from its first to its last. -/
def Subnet.covers (subnet : Subnet) (address : Ipv4Addr) : Bool :=
  decide (subnet.network.toNat ≤ address.toNat ∧ address.toNat < subnet.network.toNat + subnet.size)

/-- The addresses that an operand stands for. -/
def Address.matches (table : TableDefinition) (address : Ipv4Addr) : Address → Bool
  | .literal expected => address == expected
  | .member set => ((table.addressSets.lookup set).getD []).any (·.covers address)

/-- Transport header of a packet of either protocol. -/
def Packet.transport (p : Packet) : Transport :=
  match p.payload with
  | .ipv4 _ _ transport => transport
  | .ipv6 transport => transport
  | _ => .other

/-- A packet meets a condition. -/
def Condition.holds (table : TableDefinition) (p : Packet) : Condition → Bool
  | .iifname interface => interface.matches table p.iifname
  | .oifname interface => interface.matches table p.oifname
  | .nfprotoIpv6 => match p.payload with
    | .ipv6 _ => true
    | _ => false
  | .fibDaddrLocal => p.daddrLocal
  | .ipSaddr address => match p.payload with
    | .ipv4 saddr _ _ => address.matches table saddr
    | _ => false
  | .ipDaddr address => match p.payload with
    | .ipv4 _ daddr _ => address.matches table daddr
    | _ => false
  | .udpDport port => p.transport == .udp port
  | .tcpDport port => p.transport == .tcp port
  | .tcpDportIn ports => ports.any fun port => p.transport == .tcp port
  | .ctStateIn states => states.contains p.ctState
  | .ctState state => p.ctState == state
  | .ctStatusSnat => p.ctSnat
  | .etherSaddr mac => p.etherSaddr == mac
  | .etherDaddr mac => p.etherDaddr == mac
  | .etherDaddrIn macs => macs.contains p.etherDaddr
  | .etherTypeIp => match p.payload with
    | .ipv4 _ _ _ => true
    | _ => false
  | .etherTypeArp => match p.payload with
    | .arp _ _ _ _ _ => true
    | _ => false
  | .arpOperation operation => match p.payload with
    | .arp actual _ _ _ _ => actual == operation
    | _ => false
  | .arpSaddrEther mac => match p.payload with
    | .arp _ actual _ _ _ => actual == mac
    | _ => false
  | .arpSaddrIp address => match p.payload with
    | .arp _ _ actual _ _ => actual == address
    | _ => false
  | .arpDaddrEther mac => match p.payload with
    | .arp _ _ _ actual _ => actual == mac
    | _ => false
  | .arpDaddrIp address => match p.payload with
    | .arp _ _ _ _ actual => actual == address
    | _ => false

/-- A masqueraded packet goes on its way like an accepted one. -/
def Action.verdict : Action → Verdict
  | .accept => .accept
  | .drop => .drop
  | .masquerade => .accept

/-- A statement as a rule: all of its conditions have to hold. -/
def Statement.rule (table : TableDefinition) (statement : Statement) : Rule Packet where
  applies p := statement.conditions.all (·.holds table p)
  verdict := statement.action.verdict

/-- Numeric value of a priority; source NAT stands at 100. -/
def Priority.value : Priority → ℤ
  | .number value => value
  | .srcnat => 100

/-- The chain that a definition adds to the filter. -/
def ChainDefinition.chain (table : TableDefinition) (definition : ChainDefinition) :
    Chain Packet Hook where
  hook := definition.hook
  priority := definition.priority.value
  policy := definition.policy
  rules := definition.statements.map (·.rule table)

/-- The chains that a table adds to the filter. -/
def TableDefinition.meaning (table : TableDefinition) : List (Chain Packet Hook) :=
  table.chains.map (·.chain table)

/-- The packet gets from the interface it enters from to the one it is routed to. -/
def forwarded (tables : List TableDefinition) (p : Packet) : Bool :=
  let chains := tables.flatMap (·.meaning)
  passes chains (.ingress p.iifname) p && passes chains .prerouting p &&
    passes chains .forward p && passes chains .postrouting p

end Meaning

section Tables

/-- `inet_table`. -/
def inetTable (lease : Lease) : String := "sower_network_" ++ lease.token

/-- `netdev_table`. -/
def netdevTable (lease : Lease) : String := "sower_netdev_" ++ lease.token

/-- Statements that only an active lease has. -/
def whenActive (lease : Lease) (statements : List Statement) : List Statement :=
  if lease.phase = .active then statements else []

/-- Packets from the interface, and packets to it. -/
abbrev fromTaps : Condition := .iifname (.member "taps")

abbrev toTaps : Condition := .oifname (.member "taps")

/-- What no packet from the interface may do, whatever the phase of the lease. -/
def originalDenials : List Statement :=
  [{ conditions := [fromTaps, .nfprotoIpv6], action := .drop },
    { conditions := [fromTaps, .fibDaddrLocal], action := .drop },
    { conditions := [fromTaps, .ipDaddr (.member "blocked")], action := .drop }]

/-- The permissions before routing. -/
def originalAccepts (policy : Policy) (lease : Lease) : List Statement :=
  [{ lead := " ", action := .accept
     conditions := [.iifname (.name lease.tap), .ipSaddr (.literal lease.address),
      .ipDaddr (.literal policy.dns), .udpDport 53] },
    { action := .accept
      conditions := [.iifname (.name lease.tap), .ipSaddr (.literal lease.address),
        .ipDaddr (.literal policy.dns), .tcpDport 53] },
    { action := .accept
      conditions := [.iifname (.name lease.tap), .ipSaddr (.literal lease.address),
        .tcpDportIn [80, 443]] }]

/-- The chain before connection tracking and address translation. -/
def originalChain (policy : Policy) (lease : Lease) : ChainDefinition where
  lead := " "
  name := "original"
  hook := .prerouting
  priority := .number (-310)
  statements := originalDenials ++ whenActive lease (originalAccepts policy lease) ++
    [{ lead := " ", conditions := [fromTaps], action := .drop }]
  closing := " \x7d\n"

def inputChain : ChainDefinition where
  lead := " "
  name := "input"
  hook := .input
  priority := .number (-50)
  trail := " "
  statements := [{ conditions := [fromTaps], action := .drop, trail := " " }]

def outputChain : ChainDefinition where
  name := "output"
  hook := .output
  priority := .number (-50)
  trail := " "
  statements := [{ conditions := [toTaps], action := .drop, trail := " " }]

/-- What no packet from or to the interface may do on its way through the host. -/
def forwardDenials : List Statement :=
  [{ conditions := [fromTaps, toTaps], action := .drop },
    { conditions := [fromTaps, .nfprotoIpv6], action := .drop },
    { conditions := [toTaps, .nfprotoIpv6], action := .drop },
    { conditions := [fromTaps, .fibDaddrLocal], action := .drop },
    { conditions := [fromTaps, .ipDaddr (.member "blocked")], action := .drop },
    { conditions := [toTaps, .ipSaddr (.member "blocked")], action := .drop }]

/-- The permissions on the way through the host. -/
def forwardAccepts (policy : Policy) (lease : Lease) : List Statement :=
  [{ lead := " ", action := .accept
     conditions := [.iifname (.name lease.tap), .ipSaddr (.literal lease.address),
      .ipDaddr (.literal policy.dns), .udpDport 53, .ctStateIn [.new, .established]] },
    { action := .accept
      conditions := [.iifname (.name lease.tap), .ipSaddr (.literal lease.address),
        .ipDaddr (.literal policy.dns), .tcpDport 53, .ctStateIn [.new, .established]] },
    { action := .accept
      conditions := [.iifname (.name lease.tap), .ipSaddr (.literal lease.address),
        .tcpDportIn [80, 443], .ctStateIn [.new, .established]] },
    { action := .accept
      conditions := [.oifname (.name lease.tap), .ipDaddr (.literal lease.address),
        .ctState .established, .ctStatusSnat] }]

def forwardChain (policy : Policy) (lease : Lease) : ChainDefinition where
  name := "forward"
  hook := .forward
  priority := .number (-50)
  statements := forwardDenials ++ whenActive lease (forwardAccepts policy lease) ++
    [{ lead := " ", conditions := [fromTaps], action := .drop, trail := " " },
      { conditions := [toTaps], action := .drop }]
  closing := " \x7d\n"

def natChain (lease : Lease) : ChainDefinition where
  lead := " "
  name := "nat"
  kind := "nat"
  hook := .postrouting
  priority := .srcnat
  statements := whenActive lease
    [{ lead := " ", action := .masquerade
       conditions := [.iifname (.name lease.tap), .ipSaddr (.literal lease.address)] }]
  closing := " \x7d\n"

/-- The table that `guard_script` describes. -/
def guardTable (policy : Policy) (lease : Lease) : TableDefinition where
  family := "inet"
  name := inetTable lease
  comment := marker
  interfaceSets := [("taps", [lease.tap])]
  addressSets := [("blocked", policy.protectedRanges)]
  chains := [originalChain policy lease, inputChain, outputChain, forwardChain policy lease,
    natChain lease]

/-- What the guest may send: its own address in packets, requests and replies. -/
def ingressAccepts (lease : Lease) (hostMac : String) : List Statement :=
  [{ action := .accept
     conditions := [.etherSaddr lease.mac, .etherDaddr hostMac, .etherTypeIp,
      .ipSaddr (.literal lease.address)] },
    { action := .accept
      conditions := [.etherSaddr lease.mac, .etherDaddrIn ["ff:ff:ff:ff:ff:ff", hostMac],
        .etherTypeArp, .arpOperation .request, .arpSaddrEther lease.mac,
        .arpSaddrIp lease.address, .arpDaddrEther "00:00:00:00:00:00", .arpDaddrIp lease.gateway] },
    { action := .accept
      conditions := [.etherSaddr lease.mac, .etherDaddr hostMac, .etherTypeArp,
        .arpOperation .reply, .arpSaddrEther lease.mac, .arpSaddrIp lease.address,
        .arpDaddrEther hostMac, .arpDaddrIp lease.gateway] }]

def ingressChain (lease : Lease) (hostMac : String) : ChainDefinition where
  name := "ingress"
  hook := .ingress lease.tap
  priority := .number (-500)
  policy := .drop
  statements := ingressAccepts lease hostMac

/-- The table that `install_ingress` describes. -/
def ingressTable (lease : Lease) (hostMac : String) : TableDefinition where
  family := "netdev"
  name := netdevTable lease
  comment := marker
  chains := [ingressChain lease hostMac]

/-- The tables that are generated for a lease. The ingress table needs the address
that the kernel gave the interface. -/
def Lease.tables (policy : Policy) (lease : Lease) : List TableDefinition :=
  guardTable policy lease :: (lease.hostMac.map (ingressTable lease)).toList

end Tables

end Sower.Network
