import Sower.Network.Firewall

/-!
# The firewall scripts

The source builds the scripts of a lease by appending text. Here they are built
in the same way, line by line, and each one is shown to be the text of its
table. What holds of the tables as packet filters thus holds of the scripts.
-/

namespace Sower.Network

open PacketFilter

section Text

/-- `{ a, b }`. -/
def braced (elements : List String) : String := "\x7b " ++ String.intercalate ", " elements ++ " \x7d"

/-- An interface name in quotation marks. -/
def quoted (name : String) : String := "\"" ++ name ++ "\""

def Interface.text : Interface → String
  | .name value => quoted value
  | .member set => "@" ++ set

def Address.text : Address → String
  | .literal address => address.display
  | .member set => "@" ++ set

def CtState.text : CtState → String
  | .new => "new"
  | .established => "established"
  | .other => "invalid"

def ArpOperation.text : ArpOperation → String
  | .request => "request"
  | .reply => "reply"
  | .other => "rrequest"

def Condition.text : Condition → String
  | .iifname interface => "iifname " ++ interface.text
  | .oifname interface => "oifname " ++ interface.text
  | .nfprotoIpv6 => "meta nfproto ipv6"
  | .fibDaddrLocal => "fib daddr type local"
  | .ipSaddr address => "ip saddr " ++ address.text
  | .ipDaddr address => "ip daddr " ++ address.text
  | .udpDport port => "udp dport " ++ toString port
  | .tcpDport port => "tcp dport " ++ toString port
  | .tcpDportIn ports => "tcp dport " ++ braced (ports.map toString)
  | .ctStateIn states => "ct state " ++ braced (states.map CtState.text)
  | .ctState state => "ct state " ++ state.text
  | .ctStatusSnat => "ct status snat"
  | .etherSaddr mac => "ether saddr " ++ mac
  | .etherDaddr mac => "ether daddr " ++ mac
  | .etherDaddrIn macs => "ether daddr " ++ braced macs
  | .etherTypeIp => "ether type ip"
  | .etherTypeArp => "ether type arp"
  | .arpOperation operation => "arp operation " ++ operation.text
  | .arpSaddrEther mac => "arp saddr ether " ++ mac
  | .arpSaddrIp address => "arp saddr ip " ++ address.display
  | .arpDaddrEther mac => "arp daddr ether " ++ mac
  | .arpDaddrIp address => "arp daddr ip " ++ address.display

def Action.text : Action → String
  | .accept => "accept"
  | .drop => "drop"
  | .masquerade => "masquerade"

def Statement.text (statement : Statement) : String :=
  statement.lead ++
    String.intercalate " " (statement.conditions.map Condition.text ++ [statement.action.text]) ++
      ";" ++ statement.trail

def Hook.text : Hook → String
  | .ingress device => "ingress device " ++ quoted device
  | .prerouting => "prerouting"
  | .input => "input"
  | .forward => "forward"
  | .output => "output"
  | .postrouting => "postrouting"

def Priority.text : Priority → String
  | .number value => toString value
  | .srcnat => "srcnat"

def policyText : Verdict → String
  | .accept => "accept"
  | .drop => "drop"

/-- The first line of a chain. -/
def ChainDefinition.header (chain : ChainDefinition) : String :=
  chain.lead ++ "chain " ++ chain.name ++ " \x7b type " ++ chain.kind ++ " hook " ++
    chain.hook.text ++ " priority " ++ chain.priority.text ++ "; policy " ++
      policyText chain.policy ++ ";" ++ chain.trail

def ChainDefinition.text (chain : ChainDefinition) : String :=
  chain.header ++ (String.join (chain.statements.map Statement.text) ++ chain.closing)

def interfaceSetText (set : String × List String) : String :=
  "set " ++ set.1 ++ " \x7b type ifname; elements = " ++ braced (set.2.map quoted) ++ "; \x7d\n"

def addressSetText (set : String × List Subnet) : String :=
  " set " ++ set.1 ++ " \x7b type ipv4_addr; flags interval; auto-merge; elements = " ++
    braced (set.2.map Subnet.canonical) ++ "; \x7d\n"

/-- A table as it stands in a script. -/
def TableDefinition.text (table : TableDefinition) : String :=
  "table " ++ table.family ++ " " ++ table.name ++ " \x7b\n comment \"" ++ table.comment ++ "\";\n" ++
    String.join (table.interfaceSets.map interfaceSetText) ++
      String.join (table.addressSets.map addressSetText) ++
        String.join (table.chains.map ChainDefinition.text) ++ "\x7d\n"

end Text

section Scripts

/-- The permissions of an active lease before routing. -/
def originalPermissions (policy : Policy) (lease : Lease) : String :=
  (" iifname \"" ++ lease.tap ++ "\" ip saddr " ++ lease.address.display ++ " ip daddr " ++
    policy.dns.display ++ " udp dport 53 accept;\n") ++
  ("iifname \"" ++ lease.tap ++ "\" ip saddr " ++ lease.address.display ++ " ip daddr " ++
    policy.dns.display ++ " tcp dport 53 accept;\n") ++
  ("iifname \"" ++ lease.tap ++ "\" ip saddr " ++ lease.address.display ++
    " tcp dport \x7b 80, 443 \x7d accept;\n")

/-- The permissions of an active lease on the way through the host. -/
def forwardPermissions (policy : Policy) (lease : Lease) : String :=
  (" iifname \"" ++ lease.tap ++ "\" ip saddr " ++ lease.address.display ++ " ip daddr " ++
    policy.dns.display ++ " udp dport 53 ct state \x7b new, established \x7d accept;\n") ++
  ("iifname \"" ++ lease.tap ++ "\" ip saddr " ++ lease.address.display ++ " ip daddr " ++
    policy.dns.display ++ " tcp dport 53 ct state \x7b new, established \x7d accept;\n") ++
  ("iifname \"" ++ lease.tap ++ "\" ip saddr " ++ lease.address.display ++
    " tcp dport \x7b 80, 443 \x7d ct state \x7b new, established \x7d accept;\n") ++
  ("oifname \"" ++ lease.tap ++ "\" ip daddr " ++ lease.address.display ++
    " ct state established ct status snat accept;\n")

/-- Source translation of an active lease. -/
def masquerading (lease : Lease) : String :=
  " iifname \"" ++ lease.tap ++ "\" ip saddr " ++ lease.address.display ++ " masquerade;\n"

/-- `guard_script`. -/
def guardScript (policy : Policy) (lease : Lease) (existing : Bool) : String :=
  (if existing then "delete table inet " ++ inetTable lease ++ "\n" else "") ++
  ("table inet " ++ inetTable lease ++ " \x7b\n comment \"" ++ marker ++ "\";\n") ++
  ("set taps \x7b type ifname; elements = \x7b \"" ++ lease.tap ++ "\" \x7d; \x7d\n") ++
  (" set blocked \x7b type ipv4_addr; flags interval; auto-merge; elements = \x7b " ++
    String.intercalate ", " (policy.protectedRanges.map Subnet.canonical) ++ " \x7d; \x7d\n") ++
  " chain original \x7b type filter hook prerouting priority -310; policy accept;\n" ++
  "iifname @taps meta nfproto ipv6 drop;\n" ++
  "iifname @taps fib daddr type local drop;\n" ++
  "iifname @taps ip daddr @blocked drop;\n" ++
  (if lease.phase = .active then originalPermissions policy lease else "") ++
  " iifname @taps drop;\n" ++
  " \x7d\n" ++
  " chain input \x7b type filter hook input priority -50; policy accept; " ++
  "iifname @taps drop; \x7d\n" ++
  "chain output \x7b type filter hook output priority -50; policy accept; " ++
  "oifname @taps drop; \x7d\n" ++
  "chain forward \x7b type filter hook forward priority -50; policy accept;\n" ++
  "iifname @taps oifname @taps drop;\n" ++
  "iifname @taps meta nfproto ipv6 drop;\n" ++
  "oifname @taps meta nfproto ipv6 drop;\n" ++
  "iifname @taps fib daddr type local drop;\n" ++
  "iifname @taps ip daddr @blocked drop;\n" ++
  "oifname @taps ip saddr @blocked drop;\n" ++
  (if lease.phase = .active then forwardPermissions policy lease else "") ++
  " iifname @taps drop; " ++
  "oifname @taps drop;\n" ++
  " \x7d\n" ++
  " chain nat \x7b type nat hook postrouting priority srcnat; policy accept;\n" ++
  (if lease.phase = .active then masquerading lease else "") ++
  " \x7d\n" ++
  "\x7d\n"

/-- The script of `install_ingress`, for the address the kernel gave the interface. -/
def ingressScript (lease : Lease) (hostMac : String) (existing : Bool) : String :=
  (if existing then "delete table netdev " ++ netdevTable lease ++ "\n" else "") ++
  ("table netdev " ++ netdevTable lease ++ " \x7b\n comment \"" ++ marker ++ "\";\n") ++
  ("chain ingress \x7b type filter hook ingress device \"" ++ lease.tap ++
    "\" priority -500; policy drop;\n") ++
  ("ether saddr " ++ lease.mac ++ " ether daddr " ++ hostMac ++ " ether type ip ip saddr " ++
    lease.address.display ++ " accept;\n") ++
  ("ether saddr " ++ lease.mac ++ " ether daddr \x7b ff:ff:ff:ff:ff:ff, " ++ hostMac ++
    " \x7d ether type arp arp operation request arp saddr ether " ++ lease.mac ++
    " arp saddr ip " ++ lease.address.display ++
    " arp daddr ether 00:00:00:00:00:00 arp daddr ip " ++ lease.gateway.display ++ " accept;\n") ++
  ("ether saddr " ++ lease.mac ++ " ether daddr " ++ hostMac ++
    " ether type arp arp operation reply arp saddr ether " ++ lease.mac ++ " arp saddr ip " ++
    lease.address.display ++ " arp daddr ether " ++ hostMac ++ " arp daddr ip " ++
    lease.gateway.display ++ " accept;\n") ++
  "\x7d\n" ++
  "\x7d\n"

/-- Replacing a table first deletes the old one. -/
def deletion (table : TableDefinition) (existing : Bool) : String :=
  if existing then "delete table " ++ table.family ++ " " ++ table.name ++ "\n" else ""

end Scripts

section Reproduction

variable (policy : Policy) (lease : Lease) (existing : Bool)

theorem text_originalAccepts :
    String.join ((originalAccepts policy lease).map Statement.text) =
      originalPermissions policy lease := by
  have hlines : (originalAccepts policy lease).map Statement.text =
      [" iifname \"" ++ lease.tap ++ "\" ip saddr " ++ lease.address.display ++ " ip daddr " ++
          policy.dns.display ++ " udp dport 53 accept;\n",
        "iifname \"" ++ lease.tap ++ "\" ip saddr " ++ lease.address.display ++ " ip daddr " ++
          policy.dns.display ++ " tcp dport 53 accept;\n",
        "iifname \"" ++ lease.tap ++ "\" ip saddr " ++ lease.address.display ++
          " tcp dport \x7b 80, 443 \x7d accept;\n"] := by
    unfold originalAccepts
    simp only [List.map_cons, List.map_nil, List.cons.injEq, and_true]
    unfold Statement.text
    simp only [List.map_cons, List.map_nil, List.cons_append, List.nil_append]
    unfold Condition.text
    dsimp only [Interface.text, Address.text, Action.text]
    refine ⟨?_, ?_, ?_⟩ <;> apply String.toList_inj.mp
    · simp [quoted]
      rfl
    · simp [quoted]
      rfl
    · simp [quoted]
      rfl
  rw [hlines]
  simp only [String.join_cons, String.join_nil, String.append_empty]
  unfold originalPermissions
  simp only [String.append_assoc]

theorem text_forwardAccepts :
    String.join ((forwardAccepts policy lease).map Statement.text) =
      forwardPermissions policy lease := by
  have hlines : (forwardAccepts policy lease).map Statement.text =
      [" iifname \"" ++ lease.tap ++ "\" ip saddr " ++ lease.address.display ++ " ip daddr " ++
          policy.dns.display ++ " udp dport 53 ct state \x7b new, established \x7d accept;\n",
        "iifname \"" ++ lease.tap ++ "\" ip saddr " ++ lease.address.display ++ " ip daddr " ++
          policy.dns.display ++ " tcp dport 53 ct state \x7b new, established \x7d accept;\n",
        "iifname \"" ++ lease.tap ++ "\" ip saddr " ++ lease.address.display ++
          " tcp dport \x7b 80, 443 \x7d ct state \x7b new, established \x7d accept;\n",
        "oifname \"" ++ lease.tap ++ "\" ip daddr " ++ lease.address.display ++
          " ct state established ct status snat accept;\n"] := by
    unfold forwardAccepts
    simp only [List.map_cons, List.map_nil, List.cons.injEq, and_true]
    unfold Statement.text
    simp only [List.map_cons, List.map_nil, List.cons_append, List.nil_append]
    unfold Condition.text
    dsimp only [Interface.text, Address.text, Action.text, CtState.text]
    refine ⟨?_, ?_, ?_, ?_⟩ <;> apply String.toList_inj.mp
    · simp [quoted]
      rfl
    · simp [quoted]
      rfl
    · simp [quoted]
      rfl
    · simp [quoted]
  rw [hlines]
  simp only [String.join_cons, String.join_nil, String.append_empty]
  unfold forwardPermissions
  simp only [String.append_assoc]

theorem text_originalDenials : originalDenials.map Statement.text =
    ["iifname @taps meta nfproto ipv6 drop;\n",
      "iifname @taps fib daddr type local drop;\n",
      "iifname @taps ip daddr @blocked drop;\n"] := by rfl

theorem text_whenActive (statements : List Statement) :
    String.join ((whenActive lease statements).map Statement.text) =
      if lease.phase = .active then String.join (statements.map Statement.text) else "" := by
  unfold whenActive
  split <;> rfl

theorem text_originalChain : (originalChain policy lease).text =
    " chain original \x7b type filter hook prerouting priority -310; policy accept;\n" ++
    "iifname @taps meta nfproto ipv6 drop;\n" ++
    "iifname @taps fib daddr type local drop;\n" ++
    "iifname @taps ip daddr @blocked drop;\n" ++
    (if lease.phase = .active then originalPermissions policy lease else "") ++
    " iifname @taps drop;\n" ++
    " \x7d\n" := by
  have hheader : (originalChain policy lease).header =
      " chain original \x7b type filter hook prerouting priority -310; policy accept;\n" := rfl
  have hlast : ([{ lead := " ", conditions := [fromTaps], action := .drop }] : List Statement).map
      Statement.text = [" iifname @taps drop;\n"] := rfl
  have hclosing : (originalChain policy lease).closing = " \x7d\n" := rfl
  rw [ChainDefinition.text, hheader, hclosing]
  unfold originalChain
  simp only [List.map_append, String.join_append, text_originalDenials, hlast,
    text_whenActive, text_originalAccepts, String.join_cons, String.join_nil,
    String.append_empty, String.append_assoc]

theorem text_forwardDenials : forwardDenials.map Statement.text =
    ["iifname @taps oifname @taps drop;\n",
      "iifname @taps meta nfproto ipv6 drop;\n",
      "oifname @taps meta nfproto ipv6 drop;\n",
      "iifname @taps fib daddr type local drop;\n",
      "iifname @taps ip daddr @blocked drop;\n",
      "oifname @taps ip saddr @blocked drop;\n"] := by rfl

theorem text_forwardChain : (forwardChain policy lease).text =
    "chain forward \x7b type filter hook forward priority -50; policy accept;\n" ++
    "iifname @taps oifname @taps drop;\n" ++
    "iifname @taps meta nfproto ipv6 drop;\n" ++
    "oifname @taps meta nfproto ipv6 drop;\n" ++
    "iifname @taps fib daddr type local drop;\n" ++
    "iifname @taps ip daddr @blocked drop;\n" ++
    "oifname @taps ip saddr @blocked drop;\n" ++
    (if lease.phase = .active then forwardPermissions policy lease else "") ++
    " iifname @taps drop; " ++
    "oifname @taps drop;\n" ++
    " \x7d\n" := by
  have hheader : (forwardChain policy lease).header =
      "chain forward \x7b type filter hook forward priority -50; policy accept;\n" := rfl
  have hlast : ([{ lead := " ", conditions := [fromTaps], action := .drop, trail := " " },
      { conditions := [toTaps], action := .drop }] : List Statement).map
      Statement.text = [" iifname @taps drop; ", "oifname @taps drop;\n"] := rfl
  have hclosing : (forwardChain policy lease).closing = " \x7d\n" := rfl
  rw [ChainDefinition.text, hheader, hclosing]
  unfold forwardChain
  simp only [List.map_append, String.join_append, text_forwardDenials, hlast,
    text_whenActive, text_forwardAccepts, String.join_cons, String.join_nil,
    String.append_empty, String.append_assoc]

theorem text_natChain : (natChain lease).text =
    " chain nat \x7b type nat hook postrouting priority srcnat; policy accept;\n" ++
    (if lease.phase = .active then masquerading lease else "") ++
    " \x7d\n" := by
  have hheader : (natChain lease).header =
      " chain nat \x7b type nat hook postrouting priority srcnat; policy accept;\n" := rfl
  have hclosing : (natChain lease).closing = " \x7d\n" := rfl
  have hline : Statement.text
      { lead := " ", action := .masquerade
        conditions := [.iifname (.name lease.tap), .ipSaddr (.literal lease.address)] } =
      masquerading lease := by
    unfold Statement.text masquerading
    simp only [List.map_cons, List.map_nil, List.cons_append, List.nil_append]
    unfold Condition.text
    dsimp only [Interface.text, Address.text, Action.text]
    apply String.toList_inj.mp
    simp [quoted]
  rw [ChainDefinition.text, hheader, hclosing]
  unfold natChain
  simp only [text_whenActive, List.map_cons, List.map_nil, hline, String.join_cons,
    String.join_nil, String.append_empty, String.append_assoc]

theorem text_inputChain : inputChain.text =
    " chain input \x7b type filter hook input priority -50; policy accept; " ++
    "iifname @taps drop; \x7d\n" := by rfl

theorem text_outputChain : outputChain.text =
    "chain output \x7b type filter hook output priority -50; policy accept; " ++
    "oifname @taps drop; \x7d\n" := by rfl

theorem text_taps (tap : String) : interfaceSetText ("taps", [tap]) =
    "set taps \x7b type ifname; elements = \x7b \"" ++ tap ++ "\" \x7d; \x7d\n" := by
  apply String.toList_inj.mp
  simp [interfaceSetText, braced, quoted]

theorem text_blocked (subnets : List Subnet) : addressSetText ("blocked", subnets) =
    " set blocked \x7b type ipv4_addr; flags interval; auto-merge; elements = \x7b " ++
      String.intercalate ", " (subnets.map Subnet.canonical) ++ " \x7d; \x7d\n" := by
  apply String.toList_inj.mp
  simp [addressSetText, braced]

/-- The guard script is the text of the guard table. -/
theorem guardScript_eq : guardScript policy lease existing =
    deletion (guardTable policy lease) existing ++ (guardTable policy lease).text := by
  have hopening : "table " ++ "inet" ++ " " = "table inet " := rfl
  have hdeletion : "delete table " ++ "inet" ++ " " = "delete table inet " := rfl
  unfold guardScript TableDefinition.text deletion guardTable
  simp only [hopening, hdeletion, List.map_cons, List.map_nil, String.join_cons, String.join_nil,
    text_originalChain, text_inputChain, text_outputChain, text_forwardChain, text_natChain,
    text_taps, text_blocked, String.append_empty, String.append_assoc]

variable (hostMac : String)

set_option maxRecDepth 4096 in
theorem text_ingressAccepts : (ingressAccepts lease hostMac).map Statement.text =
    ["ether saddr " ++ lease.mac ++ " ether daddr " ++ hostMac ++ " ether type ip ip saddr " ++
        lease.address.display ++ " accept;\n",
      "ether saddr " ++ lease.mac ++ " ether daddr \x7b ff:ff:ff:ff:ff:ff, " ++ hostMac ++
        " \x7d ether type arp arp operation request arp saddr ether " ++ lease.mac ++
        " arp saddr ip " ++ lease.address.display ++
        " arp daddr ether 00:00:00:00:00:00 arp daddr ip " ++ lease.gateway.display ++ " accept;\n",
      "ether saddr " ++ lease.mac ++ " ether daddr " ++ hostMac ++
        " ether type arp arp operation reply arp saddr ether " ++ lease.mac ++ " arp saddr ip " ++
        lease.address.display ++ " arp daddr ether " ++ hostMac ++ " arp daddr ip " ++
        lease.gateway.display ++ " accept;\n"] := by
  unfold ingressAccepts
  simp only [List.map_cons, List.map_nil, List.cons.injEq, and_true]
  unfold Statement.text
  simp only [List.map_cons, List.map_nil, List.cons_append, List.nil_append]
  unfold Condition.text
  dsimp only [Interface.text, Address.text, Action.text, ArpOperation.text]
  refine ⟨?_, ?_, ?_⟩ <;> apply String.toList_inj.mp
  · simp
  · simp [braced]
  · simp

/-- The ingress script is the text of the ingress table. -/
theorem ingressScript_eq : ingressScript lease hostMac existing =
    deletion (ingressTable lease hostMac) existing ++ (ingressTable lease hostMac).text := by
  have hheader : (ingressChain lease hostMac).header =
      "chain ingress \x7b type filter hook ingress device \"" ++ lease.tap ++
        "\" priority -500; policy drop;\n" := by
    have hpriority : (Priority.number (-500)).text = "-500" := rfl
    unfold ChainDefinition.header ingressChain
    dsimp only [Hook.text, policyText]
    rw [hpriority]
    apply String.toList_inj.mp
    simp [quoted]
  have hchain : (ingressChain lease hostMac).text = (ingressChain lease hostMac).header ++
      (String.join ((ingressAccepts lease hostMac).map Statement.text) ++ "\x7d\n") := rfl
  have hopening : "table " ++ "netdev" ++ " " = "table netdev " := rfl
  have hdeletion : "delete table " ++ "netdev" ++ " " = "delete table netdev " := rfl
  unfold ingressScript TableDefinition.text deletion ingressTable
  simp only [hopening, hdeletion, List.map_cons, List.map_nil, String.join_cons, String.join_nil,
    hchain, hheader, text_ingressAccepts, String.append_empty, String.append_assoc]

end Reproduction

end Sower.Network
