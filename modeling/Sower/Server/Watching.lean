import Sower.Server.LiveLogs

/-!
# A page that watches a log

The page's process subscribes, takes snapshots of the owner's buffer whenever it
loads the deployment, and handles the owner's events in the order in which they were
broadcast. Chunks are appended, and owners of other deployments come and go, at any
time in between.
-/

namespace Sower.Server

open Sower.Wire Keyed Replica

/-- A page, what is on its way to it, and the logs of the server. -/
structure Watch where
  logs : Logs
  page : Page
  /-- The page receives the events of the deployment's log. -/
  subscribed : Bool := false
  /-- The page was loaded since it subscribed. -/
  loaded : Bool := false
  /-- Events that have not been handled yet, oldest first. -/
  mailbox : List LogMessage := []
  /-- All that the owner has broadcast since it started. -/
  history : List LogEvent := []

section Turns

/-- `mount`. -/
def Watch.subscribe (w : Watch) : Watch := { w with subscribed := true }

/-- `handle_params` and `refresh_deployment`, with the deployment that was read. -/
def Watch.load (w : Watch) (orgId : ℕ) (deployment : Deployment) : Watch :=
  { w with
    page := w.page.loadLiveLogs w.logs orgId deployment
    loaded := w.subscribed }

/-- Some garden of the organisation sends a chunk to the owner, which broadcasts it. -/
def Watch.append (w : Watch) (pid gardenOrg : ℕ) (garden : Garden) (request : SeedDeploymentLog) :
    Watch :=
  let appended := (w.logs.append pid gardenOrg garden request).1
  { w with
    logs := appended.1
    mailbox := w.mailbox ++ if w.subscribed then appended.2.map (LogMessage.mk pid) else []
    history := w.history ++ appended.2 }

/-- `handle_info` of the oldest event. -/
def Watch.deliver (w : Watch) : Watch :=
  match w.mailbox with
  | [] => w
  | message :: rest => { w with mailbox := rest, page := w.page.handleLog w.logs message }

end Turns

section Runs

variable (orgId : ℕ) (sid : Sid) (pid : ℕ)

/-- One step, with the process `pid` as the registered owner of the deployment's log. -/
inductive Watch.Step (w : Watch) : Watch → Prop
  /-- A process mounts the page once. -/
  | subscribe (hnew : w.subscribed = false) : Step w w.subscribe
  | load (deployment : Deployment) (horg : deployment.orgId = orgId)
      (hid : deployment.id = sid) (hstate : deployment.state.terminal = false) :
      Step w (w.load orgId deployment)
  /-- The owner stays registered. -/
  | append (gardenOrg : ℕ) (garden : Garden) (request : SeedDeploymentLog) (owner : Owner)
      (hstays : (w.append pid gardenOrg garden request).logs.lookup orgId sid = some owner)
      (hpid : owner.pid = pid) : Step w (w.append pid gardenOrg garden request)
  /-- Other owners change. -/
  | others (logs : Logs) (hsame : logs.lookup orgId sid = w.logs.lookup orgId sid) :
      Step w { w with logs := logs }
  /-- A page is loaded before it handles events. -/
  | deliver (hloaded : w.loaded = true) : Step w w.deliver

/-- The owner has just started. The page may be there already, without any output. -/
structure Watch.Start (w : Watch) : Prop where
  registered : ∃ owner, w.logs.lookup orgId sid = some owner ∧ owner.pid = pid ∧
    owner.buffer.table = []
  history : w.history = []
  mailbox : w.mailbox = []
  unsubscribed : w.subscribed = false → w.loaded = false
  empty : w.loaded = true → w.page.deployment.orgId = orgId ∧ w.page.deployment.id = sid ∧
    w.page.deployment.state.terminal = false ∧ w.page.liveLogs = ∅ ∧ w.page.liveLogOwner = none

/-- The page shows a buffer up to the events that are pending. -/
structure Page.Shows (page : Page) (buffer : Buffer) (pending : List LogEvent) : Prop where
  org : page.deployment.orgId = orgId
  id : page.deployment.id = sid
  unresolved : page.deployment.state.terminal = false
  owner : page.liveLogOwner = some pid ∨ page.liveLogOwner = none ∧ page.liveLogs = ∅
  proper : page.liveLogs.Proper
  sync : InSync (fun m p => p.apply m) buffer.output page.liveLogs.output
    (pending.map LogEvent.patch)

/-- The owner records what it broadcasts, the end of that is pending, and a page that was
loaded shows the buffer up to it. -/
structure Watch.Inv (w : Watch) (owner : Owner) (pending : List LogEvent) : Prop where
  registered : w.logs.lookup orgId sid = some owner
  process : owner.pid = pid
  records : owner.buffer.Records w.history
  suffix : pending <:+ w.history
  mailbox : w.mailbox = pending.map (LogMessage.mk pid)
  unsubscribed : w.subscribed = false → pending = [] ∧ w.loaded = false
  shows : w.loaded = true → w.page.Shows orgId sid pid owner.buffer pending

end Runs

section Steps

variable {orgId : ℕ} {sid : Sid} {pid : ℕ} {w w' : Watch} {owner : Owner} {page : Page}
  {buffer buffer' : Buffer} {pending : List LogEvent} {logs : Logs} {deployment : Deployment}

theorem mem_of_lookup (h : logs.lookup orgId sid = some owner) : owner ∈ logs.live.rows :=
  List.mem_of_find?_eq_some h

/-- A page that is loaded has the output of the table. -/
theorem shows_loadLiveLogs {history : List LogEvent} (page : Page)
    (hlookup : logs.lookup orgId sid = some owner) (hpid : owner.pid = pid)
    (hrecords : owner.buffer.Records history) (hsuffix : pending <:+ history)
    (horg : deployment.orgId = orgId) (hid : deployment.id = sid)
    (hstate : deployment.state.terminal = false) :
    (page.loadLiveLogs logs orgId deployment).Shows orgId sid pid owner.buffer pending := by
  have hlist : logs.list orgId deployment = owner.buffer.table.map (owner.pid, ·) := by
    unfold Logs.list
    rw [if_pos ⟨horg.symm, hstate⟩, horg, hid, hlookup]
  have hchunks : (logs.list orgId deployment).map Prod.snd = owner.buffer.table := by
    rw [hlist, List.map_map]
    exact List.map_id _
  have hload : page.loadLiveLogs logs orgId deployment =
      { page with
        deployment := deployment
        liveLogs := LiveLogs.group owner.buffer.table
        liveLogOwner := ((logs.list orgId deployment).map Prod.fst).head?
        liveLogsInterrupted := page.liveLogsInterrupted || (page.liveLogOwner.isSome &&
          page.liveLogOwner != ((logs.list orgId deployment).map Prod.fst).head?) } := by
    unfold Page.loadLiveLogs
    rw [hstate, ← hchunks]
    rfl
  have houtput : (LiveLogs.group owner.buffer.table).output = owner.buffer.output := by
    funext x
    have hgroup := group_spec owner.buffer.table hrecords.nodup ∅ x
    have hnone : LiveLogs.output ∅ x = none := by
      rw [LiveLogs.output, AList.lookup_empty]
      rfl
    rw [LiveLogs.group, hgroup, hnone, Option.or_none]
    rfl
  rw [hload]
  refine ⟨horg, hid, hstate, ?_, proper_group _, ?_⟩
  · dsimp only
    rw [hlist]
    cases htable : owner.buffer.table with
    | nil => exact Or.inr ⟨rfl, rfl⟩
    | cons chunk rest => exact Or.inl (congrArg some hpid)
  · have hsync := hrecords.absorbs.inSync (hsuffix.map LogEvent.patch)
    dsimp only
    rw [houtput]
    exact hsync

/-- The page catches up by one event. -/
theorem Page.Shows.handleLog {event : LogEvent}
    (h : page.Shows orgId sid pid buffer (event :: pending))
    (hlookup : logs.lookup orgId sid = some owner) (hpid : owner.pid = pid) :
    (page.handleLog logs ⟨pid, event⟩).Shows orgId sid pid buffer pending := by
  have hregistered :
      (logs.lookup page.deployment.orgId page.deployment.id).map Owner.pid = some pid := by
    rw [h.org, h.id, hlookup, Option.map_some, hpid]
  have hcurrent : ¬ (page.deployment.state.terminal ∨ some pid ≠
      (logs.lookup page.deployment.orgId page.deployment.id).map Owner.pid) := by
    rw [hregistered, h.unresolved]
    simp
  -- A page without an owner has no output that it could lose.
  have hlogs : (if page.liveLogOwner != some pid then ∅ else page.liveLogs) = page.liveLogs := by
    rcases h.owner with howner | ⟨-, hempty⟩
    · rw [howner, bne_self_eq_false]
      rfl
    · rw [hempty, ite_self]
  unfold Page.handleLog
  rw [if_neg hcurrent]
  dsimp only
  rw [hlogs]
  refine ⟨h.org, h.id, h.unresolved, Or.inl rfl, proper_merge h.proper event, ?_⟩
  rw [output_merge]
  exact h.sync.deliver

/-- Accepted chunks are pending for the page. -/
theorem Page.Shows.append {events : List LogEvent}
    (h : page.Shows orgId sid pid buffer pending)
    (houtput : buffer'.output =
      (events.map LogEvent.patch).foldl (fun m p => p.apply m) buffer.output) :
    page.Shows orgId sid pid buffer' (pending ++ events) := by
  refine ⟨h.org, h.id, h.unresolved, h.owner, h.proper, ?_⟩
  have hsync := h.sync
  unfold InSync at hsync ⊢
  rw [List.map_append, List.foldl_append, hsync, houtput]

/-- An append to a registered owner that stays registered goes to its buffer. -/
theorem append_spec {gardenOrg : ℕ} {garden : Garden} {request : SeedDeploymentLog}
    {owner' : Owner} {history : List LogEvent} (hlookup : logs.lookup orgId sid = some owner)
    (hrecords : owner.buffer.Records history)
    (hstays : (logs.append owner.pid gardenOrg garden request).1.1.lookup orgId sid = some owner')
    (hpid : owner'.pid = owner.pid) :
    owner'.buffer.Records (history ++ (logs.append owner.pid gardenOrg garden request).1.2) ∧
      owner'.buffer.output =
        ((logs.append owner.pid gardenOrg garden request).1.2.map LogEvent.patch).foldl
          (fun m p => p.apply m) owner.buffer.output := by
  have hfind : logs.live.find? owner.pid = some owner :=
    Table.find?_of_mem (mem_of_lookup hlookup)
  have hmem := mem_of_lookup hstays
  unfold Logs.append at hmem ⊢
  rw [hfind] at hmem ⊢
  dsimp only at hmem ⊢
  cases hbuffer : owner.buffer.append gardenOrg garden request with
  | none =>
    -- An owner that crashed is not registered.
    rw [hbuffer] at hmem
    have hgone := (Table.mem_delete.mp hmem).2
    rw [hpid, beq_self_eq_true] at hgone
    cases hgone
  | some appended =>
    obtain ⟨⟨buffer, events⟩, reply⟩ := appended
    rw [hbuffer] at hmem
    have howner' : owner' = { owner with buffer := buffer } := by
      have hupdated := Table.mem_update (t := logs.live) (p := (·.pid == owner.pid))
        (f := fun owner => { owner with buffer := buffer }) (fun _ => rfl) (r := owner')
      obtain ⟨old, hold, heq⟩ := hupdated.mp hmem
      by_cases hself : old.pid = owner.pid
      · have hsame : old = owner := Table.eq_of_key hold (mem_of_lookup hlookup) hself
        subst hsame
        rw [beq_self_eq_true, if_pos rfl] at heq
        exact heq.symm
      · rw [if_neg (by simpa using hself)] at heq
        exact absurd (heq ▸ hpid) hself
    subst howner'
    unfold Buffer.append at hbuffer
    split at hbuffer
    · cases hbuffer
      rw [List.append_nil]
      exact ⟨hrecords, rfl⟩
    · obtain ⟨inserted, hinsert, heq⟩ := Option.map_eq_some_iff.mp hbuffer
      cases heq
      exact hrecords.insert hinsert

/-- Every step keeps the invariant. -/
theorem Watch.Inv.step (h : w.Inv orgId sid pid owner pending)
    (hstep : Watch.Step orgId sid pid w w') :
    ∃ owner' pending', w'.Inv orgId sid pid owner' pending' := by
  cases hstep with
  | subscribe hnew =>
    have hnotLoaded := (h.unsubscribed hnew).2
    refine ⟨owner, pending, h.registered, h.process, h.records, h.suffix, h.mailbox, ?_, ?_⟩
    · exact fun hfalse => absurd hfalse (by simp [Watch.subscribe])
    · exact fun hloaded => absurd (hnotLoaded.symm.trans hloaded) (by simp)
  | load deployment horg hid hstate =>
    refine ⟨owner, pending, h.registered, h.process, h.records, h.suffix, h.mailbox, ?_, ?_⟩
    · exact fun hfalse => ⟨(h.unsubscribed hfalse).1, hfalse⟩
    · exact fun _ => shows_loadLiveLogs w.page h.registered h.process h.records h.suffix horg
        hid hstate
  | append gardenOrg garden request owner' hstays hpid =>
    obtain rfl := h.process
    obtain ⟨hrecords, houtput⟩ := append_spec h.registered h.records hstays hpid
    cases hsubscribed : w.subscribed with
    | true =>
      refine ⟨owner', pending ++ (w.logs.append owner.pid gardenOrg garden request).1.2, hstays,
        hpid, hrecords, ?_, ?_, ?_, ?_⟩
      · obtain ⟨early, hearly⟩ := h.suffix
        refine ⟨early, ?_⟩
        rw [← List.append_assoc, hearly]
        rfl
      · unfold Watch.append
        dsimp only
        rw [hsubscribed, if_pos rfl, h.mailbox, List.map_append]
      · exact fun hfalse => absurd (hsubscribed.symm.trans hfalse) (by simp)
      · exact fun hloaded => (h.shows hloaded).append houtput
    | false =>
      obtain ⟨hnone, hnotLoaded⟩ := h.unsubscribed hsubscribed
      refine ⟨owner', [], hstays, hpid, hrecords, List.nil_suffix, ?_, ?_, ?_⟩
      · have hempty := h.mailbox
        unfold Watch.append
        dsimp only
        rw [hempty, hnone, hsubscribed]
        rfl
      · exact fun _ => ⟨rfl, hnotLoaded⟩
      · exact fun hloaded => absurd (hnotLoaded.symm.trans hloaded) (by simp)
  | others logs hsame =>
    exact ⟨owner, pending, hsame.trans h.registered, h.process, h.records, h.suffix, h.mailbox,
      h.unsubscribed, h.shows⟩
  | deliver hloaded =>
    cases pending with
    | nil =>
      have hsame : w.deliver = w := by
        unfold Watch.deliver
        rw [h.mailbox]
        rfl
      rw [hsame]
      exact ⟨owner, [], h⟩
    | cons event pending =>
      have hshows := (h.shows hloaded).handleLog h.registered h.process
      have hdeliver : w.deliver = { w with
          mailbox := pending.map (LogMessage.mk pid)
          page := w.page.handleLog w.logs ⟨pid, event⟩ } := by
        unfold Watch.deliver
        rw [h.mailbox]
        rfl
      rw [hdeliver]
      refine ⟨owner, pending, h.registered, h.process, h.records, ?_, rfl, ?_, ?_⟩
      · exact (List.suffix_cons event pending).trans h.suffix
      · exact fun hfalse => absurd (h.unsubscribed hfalse).1 (by simp)
      · exact fun _ => hshows

/-- The invariant holds when the owner starts. -/
theorem Watch.Start.inv (h : w.Start orgId sid pid) :
    ∃ owner, w.Inv orgId sid pid owner [] := by
  obtain ⟨owner, hlookup, hpid, htable⟩ := h.registered
  have hnone : owner.buffer.output = fun _ => none := by
    funext x
    unfold Buffer.output Buffer.find?
    rw [htable]
    rfl
  have hrecords : owner.buffer.Records w.history := by
    rw [h.history]
    refine ⟨?_, absorbs_nil _ _, fun event hevent => by cases hevent⟩
    rw [htable]
    exact List.nodup_nil
  refine ⟨owner, hlookup, hpid, hrecords, List.nil_suffix, h.mailbox, ?_, ?_⟩
  · exact fun hfalse => ⟨rfl, h.unsubscribed hfalse⟩
  · intro hloaded
    obtain ⟨horg, hid, hstate, hempty, howner⟩ := h.empty hloaded
    refine ⟨horg, hid, hstate, Or.inr ⟨howner, hempty⟩, ?_, ?_⟩
    · rw [hempty]
      exact proper_empty
    · have hblank : LiveLogs.output ∅ = fun _ => none := by
        funext x
        rw [LiveLogs.output, AList.lookup_empty]
        rfl
      rw [hempty, hblank, hnone]
      rfl

end Steps

section Example

/-- An unresolved deployment of one seed. -/
def watchedDeployment : Deployment where
  id := 1
  orgId := 1
  gardenId := 1
  parentDeploymentId := none
  seeds := [1]
  subscriptions := []
  deployedAt := none
  result := none
  state := .dispatched
  lastDispatchedAt := none
  contentHash := ""
  retryOrdinal := none
  directAction := none
  directOverride := false
  insertedAt := 0

/-- The logs with the owner of that deployment, which keeps one chunk at most. -/
def watchedLogs : Logs where
  live := Table.empty.insert (fun pid =>
    ⟨pid, { deployment := watchedDeployment, seeds := [1], maxChunks := 1 }⟩) fun _ => rfl
  consistent := consistent_new

/-- The page before it subscribes. -/
def unwatched : Watch := { logs := watchedLogs, page := { deployment := watchedDeployment } }

def watchedGarden : Garden := { id := 1, policy := [], timezone := none }

/-- A chunk of the seed. -/
def watchedChunk (sequence : ℤ) : SeedDeploymentLog := ⟨1, 1, sequence, ⟨#[97]⟩⟩

/-- The page subscribes; a chunk is appended; the page is loaded; a second chunk evicts the
first one; the page handles both events. -/
def watched : Watch :=
  ((((unwatched.subscribe.append 1 1 watchedGarden (watchedChunk 1)).load 1
    watchedDeployment).append 1 1 watchedGarden (watchedChunk 2)).deliver).deliver

end Example

end Sower.Server
