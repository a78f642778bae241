import Sower.Network.Host

/-!
# The journal of network leases

Provision, revocation, release and cleanup read and rewrite the journal step by
step, with host commands in between. The lock of an execution covers a whole
operation on its lease. The global lock covers each reading of a directory, the
insertion of a new lease and the removal of an old one.
-/

namespace Sower.Network

open Process

variable {η : Type} (env : Environment η)

section Files

/-- The file of a lease: its directory and its name. -/
def Lease.path (lease : Lease) : String × String := (lease.instanceName, lease.token)

/-- The journal file of a token. -/
def Machine.file? (m : Machine η) (instanceName token : String) : Option Lease :=
  m.files.find? fun lease => lease.path == (instanceName, token)

/-- What a file is checked for after it was read. -/
def checkRecord (instanceName token message : String) (lease : Lease) :
    Except String Unit := do
  lease.validate
  ensure (lease.token == token && lease.instanceName == instanceName) message

/-- Read the journal file of a token. -/
def readFile (instanceName token message : String) : Op η Lease :=
  io env fun m =>
    match m.file? instanceName token with
    | none => ((m, []), .error "no such file")
    | some lease => ((m, []), (checkRecord instanceName token message lease).map fun _ => lease)

/-- Read one file of a listed directory. -/
def readRecord (instanceName token : String) : Op η Lease :=
  readFile env instanceName token "journal filename or instance mismatch"

/-- Read the files of a listed directory one after the other. -/
def readRecords (instanceName : String) : List String → Op η (List Lease)
  | [] => pure []
  | token :: rest => do
    let lease ← readRecord env instanceName token
    let leases ← readRecords instanceName rest
    pure (lease :: leases)

/-- List the directory of an instance. -/
def listRecords (instanceName : String) : Op η (List String) :=
  io env fun m =>
    ((m, []), .ok (env.listing m.ticks
      ((m.files.filter fun lease => lease.instanceName == instanceName).map Lease.token)))

/-- `records_in`. -/
def recordsIn (instanceName : String) : Op η (List Lease) := do
  let tokens ← listRecords env instanceName
  readRecords env instanceName tokens

/-- The records of several directories. -/
def recordsOf : List String → Op η (List Lease)
  | [] => pure []
  | unit :: rest => do
    let leases ← recordsIn env unit
    let others ← recordsOf rest
    pure (leases ++ others)

/-- `all_records`. -/
def allRecords : Op η (List Lease) := do
  let leases ← recordsOf env env.policy.gardenUnits
  require (decide (leases.map Lease.slot).Nodup) "duplicate journal allocation slot"
  pure leases

/-- `load`. -/
def load (instanceName token : String) : Op η (Option Lease) := do
  require (validToken token) "invalid lease token"
  let found ← Fallible.read fun m : Machine η => (m.file? instanceName token).isSome
  if found then do
    let lease ← readFile env instanceName token "journal ownership mismatch"
    pure (some lease)
  else pure none

/-- Write the temporary file of a lease. -/
def writeTemporary (lease : Lease) : Op η Unit :=
  io env fun m => (({ m with temporaries := lease.path :: m.temporaries }, []), .ok ())

/-- The journal with a file put in the place of what was there under its name. -/
def Machine.put (m : Machine η) (lease : Lease) : Machine η :=
  { m with
    files := lease :: m.files.filter fun other => other.path != lease.path
    temporaries := m.temporaries.filter (· != lease.path) }

/-- Rename the temporary file. -/
def renameTemporary (lease : Lease) : Op η Unit :=
  io env fun m =>
    match m.file? lease.instanceName lease.token with
    | none => ((m.put lease, [.created lease]), .ok ())
    | some _ => ((m.put lease, [.saved lease]), .ok ())

/-- `sync_all` of a directory. -/
def syncDirectory : Op η Unit := io env fun m => ((m, []), .ok ())

/-- `save`. -/
def save (lease : Lease) : Op η Unit := do
  writeTemporary env lease
  renameTemporary env lease
  syncDirectory env

/-- Remove the journal file of a lease. -/
def removeFile (lease : Lease) : Op η Unit :=
  io env fun m =>
    match m.file? lease.instanceName lease.token with
    | none => ((m, []), .error "no such file")
    | some file =>
      (({ m with files := m.files.filter fun other => other.path != lease.path },
        [.removed file]), .ok ())

/-- Remove the temporary file of a lease if there is one. -/
def removeTemporary (lease : Lease) : Op η Unit := do
  let found ← Fallible.read fun m : Machine η => m.temporaries.contains lease.path
  if found then
    io env fun m =>
      (({ m with temporaries := m.temporaries.filter (· != lease.path) }, []), .ok ())
  else pure ()

end Files

section Locking

variable {α : Type} (me : Session)

/-- `global_lock` for a block. -/
def withGlobal (body : Op η α) : Op η α := withLock env me .global body

/-- The lock file of an execution. -/
def executionLock (instanceName execution : String) : LockName :=
  .execution instanceName (env.digest execution % 0x4000)

/-- `execution_lock` for a block, waiting for it. -/
def withExecution (instanceName execution : String) (body : Op η α) : Op η α :=
  withLock env me (executionLock env instanceName execution) body

end Locking

section Operations

variable (me : Session)

/-- The random part of a guest's Ethernet address. -/
def guestMac (random : Entropy) : String :=
  String.intercalate ":" ("02" ::
    [random 0, random 1, random 2, random 3, random 4].map fun byte =>
      String.ofList (hexPadded 2 byte.val))

/-- The token of sixteen random bytes. -/
def tokenOf (random : Entropy) : String :=
  String.ofList ((List.finRange 16).flatMap fun i => hexPadded 2 (random i).val)

/-- A new lease of a slot. -/
def newLease (owner : Owner) (execution : String) (slot : ℕ) (gateway address : Ipv4Addr)
    (random : Entropy) : Lease where
  token := tokenOf random
  slot := slot
  tap := tapName slot
  mac := guestMac random
  hostMac := none
  address := address
  gateway := gateway
  instanceName := owner.instanceName
  ownerUid := owner.peer.uid
  ownerPid := owner.peer.pid
  ownerStarttime := owner.starttime
  executionId := execution
  phase := .reserved

/-- `reserve`. -/
def reserve (owner : Owner) (execution : String) : Op η Lease :=
  withGlobal env me do
    let start ← Fallible.attempt (processStarttime owner.peer.pid)
    require (isAlive start owner.starttime) "garden owner exited before allocation"
    let leases ← allRecords env
    require (!leases.any fun lease =>
      lease.instanceName == owner.instanceName && lease.executionId == execution)
      "execution already has an allocation"
    let occupied := leases.map Lease.slot
    match (List.range env.policy.slots).find? fun slot => !occupied.contains slot with
    | none => throw "network address pool exhausted (including quarantined allocations)"
    | some slot => do
      let (gateway, address) ← Fallible.lift (env.policy.addresses slot)
      let random ← randomBytes env
      require (!leases.any (·.token == tokenOf random)) "lease identifier collision"
      let lease := newLease owner execution slot gateway address random
      save env lease
      pure lease

/-- The setup of `provision`, and the lease as it leaves it in memory. -/
def setup (lease : Lease) : Op η (Lease × Except String Unit) :=
  stage lease (do
      requireAvailableSubnet env lease.gateway
      requireUnoccupied env lease.tap) fun _ =>
    let lease := { lease with phase := .allocated }
    stage lease (do
        save env lease
        installGuard env lease
        purgeConnections env lease) fun _ => do
      let (lease, created) ← createTap env lease
      stage lease (do
          Fallible.lift created
          save env lease
          installIngress env lease) fun _ =>
        let lease := { lease with phase := .active }
        stage lease (do
            save env lease
            installGuard env lease
            Sower.Network.setUp env lease) fun _ =>
          pure (lease, .ok ())

/-- `revoke`, and the lease as it leaves it in memory. All three parts are tried. -/
def revoke (lease : Lease) : Op η (Lease × Except String Unit) :=
  if lease.phase = .reserved then pure (lease, .ok ())
  else do
    let lease := { lease with phase := .revoked }
    Fallible.emit (.revoking lease.token)
    let saved ← Fallible.attempt (save env lease)
    let down ← Fallible.attempt (Sower.Network.setDown env lease)
    let guard ← Fallible.attempt (installGuard env lease)
    pure (lease, saved >>= fun _ => down >>= fun _ => guard)

/-- `release`. -/
def release (lease : Lease) : Op η Unit := do
  require (lease.phase == .reserved || lease.phase == .revoked)
    "lease must be revoked before release"
  if lease.phase ≠ .reserved then
    match ← Fallible.attempt (removeResources env lease) with
    | .ok _ => pure ()
    | .error message => do
      save env { lease with phase := .quarantined }
      throw message
  withGlobal env me do
    removeFile env lease
    removeTemporary env lease
    syncDirectory env

/-- Revocation and, if it succeeds, release. -/
def revokeAndRelease (lease : Lease) : Op η Unit := do
  let (lease, revoked) ← revoke env lease
  Fallible.lift revoked
  release env me lease

/-- `output`: the lease goes back to the peer. -/
def output (owner : Owner) (lease : Lease) : Op η Lease := do
  Fallible.emit (.provisioned owner lease)
  pure lease

/-- `provision`. -/
def provision (owner : Owner) (execution : String) : Op η Lease := do
  Fallible.lift (validateExecution execution)
  withExecution env me owner.instanceName execution do
    let existing ← withGlobal env me do
      let leases ← recordsIn env owner.instanceName
      pure (leases.find? (·.executionId == execution))
    match existing with
    | some lease => do
      Fallible.lift (lease.requireOwner owner)
      require (lease.phase == .active)
        "execution has an incomplete allocation; cleanup required"
      output owner lease
    | none => do
      let lease ← reserve env me owner execution
      let (lease, outcome) ← setup env lease
      match outcome with
      | .ok _ => output owner lease
      | .error _ => do
        let _ ← Fallible.attempt (revokeAndRelease env me lease)
        throw "network provisioning failed"

/-- `operate`: revoke a lease, and release it if that is asked for. -/
def operate (owner : Owner) (token : String) (releasing : Bool) : Op η Unit := do
  match ← withGlobal env me (load env owner.instanceName token) with
  | none => pure ()
  | some lease => do
    Fallible.lift (lease.requireOwner owner)
    withExecution env me owner.instanceName lease.executionId do
      match ← withGlobal env me (load env owner.instanceName token) with
      | none => pure ()
      | some lease => do
        Fallible.lift (lease.requireOwner owner)
        if releasing then do
          require (lease.phase == .reserved || lease.phase == .revoked ||
            lease.phase == .quarantined) "lease must be revoked before release"
          revokeAndRelease env me lease
        else do
          let (_, revoked) ← revoke env lease
          Fallible.lift revoked

/-- One round of `cleanup` behind the lock of the execution. A lease that is active for a
live owner stays; the root hook spares none. -/
def cleanupLocked (instanceName : String) (rootHook : Bool) (token : String) :
    Op η (List String) := do
  match ← withGlobal env me (load env instanceName token) with
  | none => pure []
  | some lease => do
    let start ← Fallible.attempt (processStarttime lease.ownerPid)
    if !rootHook && lease.phase == .active && isAlive start lease.ownerStarttime then pure []
    else
      match ← Fallible.attempt (revokeAndRelease env me lease) with
      | .ok _ => pure []
      | .error message => pure [lease.token ++ ": " ++ message]

/-- One round of `cleanup`: the failures it adds. -/
def cleanupLease (instanceName : String) (rootHook : Bool) (lease : Lease) :
    Op η (List String) := do
  let name := executionLock env instanceName lease.executionId
  if ← tryLock env me name then
    holding me name (cleanupLocked env me instanceName rootHook lease.token)
  else pure (if rootHook then [lease.token ++ ": operation is active"] else [])

/-- The rounds of `cleanup`. -/
def cleanupLeases (instanceName : String) (rootHook : Bool) : List Lease → Op η (List String)
  | [] => pure []
  | lease :: rest => do
    let failures ← cleanupLease env me instanceName rootHook lease
    let others ← cleanupLeases instanceName rootHook rest
    pure (failures ++ others)

/-- `Store::cleanup`. -/
def cleanup (instanceName : String) (rootHook : Bool) : Op η Unit := do
  let leases ← withGlobal env me (recordsIn env instanceName)
  let failures ← cleanupLeases env me instanceName rootHook leases
  require failures.isEmpty
    ("network cleanup incomplete: " ++ String.intercalate "; " failures)

end Operations

section Requests

/-- `cgroup_instance` for one line: the unit that it names, if it is a configured one. -/
def cgroupUnit (line : List Char) (units : List String) : Except String (Option String) :=
  match splitOnce ':' line with
  | none => .error "invalid process cgroup"
  | some (hierarchy, rest) =>
    match splitOnce ':' rest with
    | none => .error "invalid process cgroup"
    | some (controllers, path) =>
      if hierarchy = ['0'] ∧ controllers = [] then
        match path.splitOn '/' with
        | [] :: slice :: unit :: _ =>
          if String.ofList slice = "system.slice" ∧ String.ofList unit ∈ units then
            .ok (some (String.ofList unit))
          else .ok none
        | _ => .ok none
      else .ok none

/-- `str::lines`. -/
def linesOf (text : String) : List (List Char) :=
  let lines := text.toList.splitOn '\n'
  let lines := if lines.getLast? = some [] then lines.dropLast else lines
  lines.map fun line => if line.getLast? = some '\r' then line.dropLast else line

/-- `cgroup_instance`. -/
def cgroupInstance (cgroup : String) (units : List String) : Except String String := do
  let found ← (linesOf cgroup).foldlM (fun found line => do
    match ← cgroupUnit line units with
    | none => pure found
    | some unit => do
      ensure found.isNone "ambiguous garden cgroup"
      pure (some unit)) none
  match found with
  | none => .error "peer does not belong to a configured garden system service"
  | some unit => .ok unit

/-- Read an entry of `/proc` other than the start time. -/
def processInfo (pid : ℤ) : Op η ProcessInfo :=
  Fallible.atomic fun m =>
    match m.processes pid with
    | none => ((m, []), .error "no such process")
    | some info => ((m, []), .ok info)

/-- `Owner::authenticate`. -/
def authenticate (peer : PeerCredentials) : Op η Owner := do
  let starttime ← processStarttime peer.pid
  let status ← processInfo peer.pid
  require (status.uid == peer.uid) "peer process identity changed"
  let info ← processInfo peer.pid
  let instanceName ← Fallible.lift (cgroupInstance info.cgroup env.policy.gardenUnits)
  let again ← processStarttime peer.pid
  require (again == starttime) "peer process identity changed"
  pure ⟨instanceName, peer, starttime⟩

/-- A field that has to be there. -/
def field (value : Option String) (message : String) : Op η String :=
  match value with
  | none => throw message
  | some value => pure value

/-- `request`, for an authenticated peer. -/
def request (me : Session) (owner : Owner) (req : NetworkRequest) : Op η (Option Lease) := do
  require (env.policy.gardenUnits.contains owner.instanceName)
    "instance is not a configured garden service"
  let action ← field req.networkAction "missing network_action"
  if action = "provision" then do
    require req.lease.isNone "provision does not accept lease"
    let execution ← field req.executionId "missing execution_id"
    let lease ← provision env me owner execution
    pure (some lease)
  else if action = "revoke" ∨ action = "release" then do
    require req.executionId.isNone "lease operation does not accept execution_id"
    let token ← field req.lease "missing lease"
    operate env me owner token (action == "release")
    pure none
  else if action = "cleanup" then do
    require (req.executionId.isNone && req.lease.isNone)
      "cleanup does not accept execution_id or lease"
    cleanup env me owner.instanceName false
    pure none
  else throw ("invalid network_action: " ++ action)

/-- The cleanup that root runs directly. -/
def rootCleanup (me : Session) (instanceName : String) : Op η Unit := do
  require (env.policy.gardenUnits.contains instanceName)
    "instance is not a configured garden service"
  cleanup env me instanceName true

end Requests

section Processes

/-- A process of the host, or a part of one. -/
abbrev HostProcess (η α : Type) := Proc (Machine η) LeaseEvent α

/-- An operation that is killed after some of its steps, if at all. -/
def interrupted {α : Type} (limit : Option ℕ) (me : Session) (p : Op η α) : HostProcess η Unit :=
  match limit with
  | none => p.run >>= fun _ => Proc.atomic fun m => (dropLocks me m, ())
  | some n => p.run.cut (dropLocks me) n

/-- The process that serves a request. -/
def requestProcess (patience : ℕ) (limit : Option ℕ) (peer : PeerCredentials)
    (req : NetworkRequest) : HostProcess η Unit := do
  match ← (authenticate env peer).run with
  | .error _ => pure ()
  | .ok owner => do
    match ← (openSession (.request owner req) patience).run with
    | .error _ => pure ()
    | .ok me => interrupted limit me (request env me owner req)

/-- The process of the root hook. -/
def cleanupProcess (patience : ℕ) (limit : Option ℕ) (instanceName : String) :
    HostProcess η Unit := do
  match ← (openSession .rootHook patience).run with
  | .error _ => pure ()
  | .ok me => interrupted limit me (rootCleanup env me instanceName)

/-- Some process of the host exits. -/
def processExit (pid : ℤ) : HostProcess η Unit :=
  Proc.atomic fun m => (({ m with processes := Function.update m.processes pid none }, []), ())

/-- A process starts under a number that is free. -/
def processStart (pid : ℤ) (uid : ℕ) (cgroup : String) : HostProcess η Unit :=
  Proc.atomic fun m =>
    match m.processes pid with
    | some _ => ((m, []), ())
    | none =>
      (({ m with
          processes := Function.update m.processes pid (some ⟨m.clock, uid, cgroup⟩)
          clock := m.clock + 1 }, []), ())

/-- A process changes its user or its control group. -/
def processChange (pid : ℤ) (uid : ℕ) (cgroup : String) : HostProcess η Unit :=
  Proc.atomic fun m =>
    match m.processes pid with
    | none => ((m, []), ())
    | some info =>
      let info := ⟨info.starttime, uid, cgroup⟩
      (({ m with processes := Function.update m.processes pid (some info) }, []), ())

/-- The processes that share a host. -/
inductive OnHost : HostProcess η Unit → Prop
  | request (patience : ℕ) (limit : Option ℕ) (peer : PeerCredentials) (req : NetworkRequest) :
      OnHost (requestProcess env patience limit peer req)
  | cleanup (patience : ℕ) (limit : Option ℕ) (instanceName : String) :
      OnHost (cleanupProcess env patience limit instanceName)
  | exit (pid : ℤ) : OnHost (processExit pid)
  | start (pid : ℤ) (uid : ℕ) (cgroup : String) : OnHost (processStart pid uid cgroup)
  | change (pid : ℤ) (uid : ℕ) (cgroup : String) : OnHost (processChange pid uid cgroup)

end Processes

end Sower.Network
