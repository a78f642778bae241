import Mathlib.Data.Fintype.Basic
import Mathlib.Logic.Function.Basic
import Sower.Lib.Fallible
import Sower.Network.Firewall
import Sower.Network.Routes

/-!
# The host that network operations run on

All activator processes of a host share the journal, the lock files, the
process table and the kernel. Each access is one atomic step, and what happens
between two steps is up to the other processes. File operations can fail, and
host commands answer and fail as an arbitrary environment decides.
-/

namespace Sower.Network

open Process

section Commands

/-- An interface of `ip --json link show`. -/
structure Link where
  ifname : String
  ifalias : Option String := none
  address : Option String := none
  deriving DecidableEq

/-- A table in a listing of `nft --json`. -/
structure TableEntry where
  family : String
  name : String
  comment : Option String := none
  deriving DecidableEq

/-- Which address of a tracked connection is compared. -/
inductive Selector where
  | origSrc
  | origDst
  | replySrc
  | replyDst
  deriving DecidableEq

/-- One statement of an nft transaction. -/
inductive NftStatement where
  | delete (family name : String)
  | add (table : TableDefinition)

/-- Host commands that the activator runs. -/
inductive Command where
  /-- `ip --json -family inet route show table all` -/
  | routes
  /-- `ip --json link show` -/
  | links
  /-- `ip tuntap add dev TAP mode tap user UID vnet_hdr` -/
  | tuntapAdd (tap : String) (uid : ℕ)
  /-- `ip link set dev TAP alias ALIAS` -/
  | setAlias (tap ifalias : String)
  /-- `udevadm wait --initialized=true --timeout=3 /sys/class/net/TAP` -/
  | udevWait (tap : String)
  /-- `ip address add GATEWAY/30 dev TAP` -/
  | addressAdd (gateway : Ipv4Addr) (tap : String)
  /-- `ip link set dev TAP up` -/
  | setUp (tap : String)
  /-- `ip link set dev TAP down` -/
  | setDown (tap : String)
  /-- `ip tuntap del dev TAP mode tap` -/
  | tuntapDel (tap : String)
  /-- `conntrack --dump --family ipv4 SELECTOR ADDRESS` -/
  | conntrackDump (selector : Selector) (address : Ipv4Addr)
  /-- `conntrack --delete --family ipv4 SELECTOR ADDRESS` -/
  | conntrackDelete (selector : Selector) (address : Ipv4Addr)
  /-- `nft --json list tables` -/
  | listTables
  /-- `nft --json list table FAMILY NAME` -/
  | listTable (family name : String)
  /-- `nft --file -` -/
  | nft (transaction : List NftStatement)

/-- What a command that succeeds prints, parsed. -/
inductive Output where
  | routes (routes : List Route)
  | links (links : List Link)
  | tables (entries : List TableEntry)
  | lines (lines : List String)

end Commands

section State

/-- Lock files: one for allocations, and for each instance some that its
executions are spread over. -/
inductive LockName where
  | global
  | execution (instanceName : String) (bucket : ℕ)
  deriving DecidableEq

/-- What `/proc` tells about a process. -/
structure ProcessInfo where
  starttime : ℕ
  uid : ℕ
  cgroup : String

/-- The fields of a request that concern the network. -/
structure NetworkRequest where
  networkAction : Option String
  executionId : Option String
  lease : Option String

/-- Whom an operation is for. -/
inductive Caller where
  /-- An authenticated peer with its request. -/
  | request (owner : Owner) (req : NetworkRequest)
  /-- Root itself, when a unit has stopped. -/
  | rootHook

/-- What the operations leave behind, in order. -/
inductive LeaseEvent where
  /-- An operation begins. -/
  | opened (session : ℕ) (caller : Caller)
  /-- A journal file appears. -/
  | created (lease : Lease)
  /-- A journal file is replaced. -/
  | saved (lease : Lease)
  /-- A journal file is removed. -/
  | removed (lease : Lease)
  /-- The revocation of a lease begins. -/
  | revoking (token : String)
  /-- A lease is returned to the peer that asked for it. -/
  | provisioned (owner : Owner) (lease : Lease)

/-- Everything that the operations of a host share. -/
structure Machine (η : Type) where
  /-- The journal: the leases of all instances, each in the file of its token. -/
  files : List Lease
  /-- Temporary files that a replacement has not yet taken the place of. -/
  temporaries : List (String × String)
  /-- Holder of each lock file. -/
  locks : LockName → Option ℕ
  /-- The process table. -/
  processes : ℤ → Option ProcessInfo
  /-- Start time of the next process. -/
  clock : ℕ
  /-- Number of operations begun. -/
  sessions : ℕ
  /-- Number of reads of `/dev/urandom`. -/
  draws : ℕ
  /-- Number of file operations. -/
  ticks : ℕ
  /-- Interfaces, firewall and connections. -/
  host : η

/-- There are bytes. -/
instance neZero_bytes : NeZero 256 := ⟨by decide⟩

/-- Sixteen random bytes. -/
abbrev Entropy := Fin 16 → Fin 256

/-- What the operations run in. -/
structure Environment (η : Type) where
  /-- The policy that all instances use. -/
  policy : Policy
  /-- The first two bytes of the SHA-256 digest of an execution id. -/
  digest : String → ℕ
  /-- What a command answers, and what it makes of the host. -/
  command : Command → η → Except String Output × η
  /-- The bytes that successive reads of `/dev/urandom` return, if they succeed. -/
  random : ℕ → Option Entropy
  /-- The file operations that fail. -/
  faults : ℕ → Bool
  /-- The order in which a directory is listed. -/
  listing : ℕ → List String → List String
  /-- A listing has each entry of the directory once. -/
  listing_perm : ∀ n names, (listing n names).Perm names

end State

/-- An operation, or a part of one. -/
abbrev Op (η α : Type) := Fallible (Machine η) LeaseEvent String α

section Steps

variable {η α : Type} (env : Environment η)

/-- A file operation. -/
def io (f : Machine η → (Machine η × List LeaseEvent) × Except String α) : Op η α :=
  Fallible.atomic fun m =>
    if env.faults m.ticks then
      (({ m with ticks := m.ticks + 1 }, []), .error "input/output error")
    else f { m with ticks := m.ticks + 1 }

/-- `command`: run a host command. -/
def command (c : Command) : Op η Output :=
  Fallible.atomic fun m =>
    (({ m with host := (env.command c m.host).2 }, []), (env.command c m.host).1)

/-- `process_starttime`. `/proc` has the stat of every process that is alive. -/
def processStarttime (pid : ℤ) : Op η ℕ :=
  Fallible.atomic fun m =>
    match m.processes pid with
    | none => ((m, []), .error "no such process")
    | some info => ((m, []), .ok info.starttime)

/-- `is_ok_and(|start| start == starttime)`. -/
def isAlive (start : Except String ℕ) (starttime : ℕ) : Bool :=
  match start with
  | .error _ => false
  | .ok actual => actual == starttime

/-- One read of `/dev/urandom`. -/
def randomBytes : Op η Entropy :=
  io env fun m =>
    (({ m with draws := m.draws + 1 }, []),
      match env.random m.draws with
      | none => .error "input/output error"
      | some random => .ok random)

/-- The identity of an operation and how often it asks for a lock that others hold. -/
structure Session where
  id : ℕ
  patience : ℕ

/-- Begin an operation. -/
def openSession (caller : Caller) (patience : ℕ) : Op η Session :=
  Fallible.atomic fun m =>
    (({ m with sessions := m.sessions + 1 }, [.opened m.sessions caller]),
      .ok ⟨m.sessions, patience⟩)

end Steps

section Locks

variable {η α : Type} (env : Environment η) (me : Session) (name : LockName)

/-- `lock_file` without waiting: whether the lock was taken. -/
def tryLock : Op η Bool :=
  io env fun m =>
    if m.locks name = none then
      (({ m with locks := Function.update m.locks name (some me.id) }, []), .ok true)
    else ((m, []), .ok false)

/-- `lock_file`: wait as long as another process holds the lock. The patience bounds the
requests; an operation that runs out of it was interrupted while it waited. -/
def lockFile : ℕ → Op η Unit
  | 0 => throw "interrupted system call"
  | patience + 1 => do
    if ← tryLock env me name then pure ()
    else lockFile patience

/-- Close a lock file. -/
def unlock : Op η Unit :=
  Fallible.atomic fun m =>
    if m.locks name = some me.id then
      (({ m with locks := Function.update m.locks name none }, []), .ok ())
    else ((m, []), .ok ())

/-- A block at whose end the lock file is closed, however it ends. -/
def holding (body : Op η α) : Op η α := do
  let outcome ← Fallible.attempt body
  unlock me name
  Fallible.lift outcome

/-- A block that holds a lock. -/
def withLock (body : Op η α) : Op η α := do
  lockFile env me name me.patience
  holding me name body

/-- The kernel closes the lock files of a process that has ended. -/
def dropLocks (m : Machine η) : Machine η × List LeaseEvent :=
  ({ m with locks := fun name => if m.locks name = some me.id then none else m.locks name }, [])

end Locks

end Sower.Network
