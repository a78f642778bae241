import Sower.Nix.JobStages

/-!
# What every step of the jobs process keeps

As long as the process is right about all tasks it waits for one of them, and what it has
found and is still to find is what the tree holds. It goes wrong for good when it waits
for a task that it will not hear of, or ends without a reply.
-/

namespace Sower.Nix

variable {f : Formats} {request : Request} {tree : Tree} {w w' : World} {s s' : Jobs}
  {ref ref' fresh : Ref} {messages rest : List Message} {inbox inbox' : Inbox}
  {tasks : AList fun _ : Ref => Work} {started : List (Ref × Work)} {ending : List Ref}
  {running : AList fun _ : Ref => Work}

section Views

/-- Starting tasks does not change what is known of the others. -/
theorem view_spawned_of_notMem (h : Spawned fresh s s' started) (href : ref ∉ started.map Prod.fst) :
    view (addTasks tasks started) ending s'.running messages ref =
      view tasks ending s.running messages ref := by
  unfold view
  rw [h.running, lookup_addTasks_of_notMem href, lookup_addTasks_of_notMem href]

/-- A task that is started evaluates and is waited for. -/
theorem view_spawned_of_mem (h : Spawned fresh s s' started) {work : Work}
    (hmem : (ref, work) ∈ started)
    (hunused : view tasks ending s.running messages ref = .unused) :
    view (addTasks tasks started) ending s'.running messages ref =
      ⟨some work, some work, false, []⟩ := by
  have hending : decide (ref ∈ ending) = false := congrArg View.ending hunused
  have hmessages : messagesOf ref messages = [] := congrArg View.messages hunused
  unfold view
  rw [h.running, lookup_addTasks_of_mem _ h.nodup hmem, lookup_addTasks_of_mem _ h.nodup hmem,
    hending, hmessages]

theorem view_returns_of_ne {value : TaskResult Target} (hne : ref ≠ ref') :
    view (tasks.erase ref') (ref' :: ending) running
        (messages ++ [.task (.result ref' value)]) ref =
      view tasks ending running messages ref := by
  have hother : (TaskMessage.result ref' value).ref ≠ ref := hne.symm
  unfold view
  rw [AList.lookup_erase_ne hne, messagesOf_append, messagesOf_task, if_neg hother,
    List.append_nil]
  simp [hne]

theorem view_crashes_of_ne {reason : Reason} (hne : ref ≠ ref') :
    view (tasks.erase ref') ending running
        (messages ++ [.task (.down ref' (some reason))]) ref =
      view tasks ending running messages ref := by
  have hother : (TaskMessage.down ref' (some reason)).ref ≠ ref := hne.symm
  unfold view
  rw [AList.lookup_erase_ne hne, messagesOf_append, messagesOf_task, if_neg hother,
    List.append_nil]

theorem view_ends_of_ne (hne : ref ≠ ref') :
    view tasks (ending.erase ref') running messages ref =
      view tasks ending running messages ref := by
  unfold view
  simp [List.mem_erase_of_ne hne]

theorem view_down_of_ne (hne : ref ≠ ref') {reason : Option Reason} :
    view tasks ending running (messages ++ [.task (.down ref' reason)]) ref =
      view tasks ending running messages ref := by
  have hother : (TaskMessage.down ref' reason).ref ≠ ref := hne.symm
  unfold view
  rw [messagesOf_append, messagesOf_task, if_neg hother, List.append_nil]

theorem view_append_other {other : Message} (h : other.isOther = true) :
    view tasks ending running (messages ++ [other]) ref =
      view tasks ending running messages ref := by
  unfold view
  rw [messagesOf_append_other h]

theorem view_cons_other {other : Message} (h : other.isOther = true) :
    view tasks ending running (other :: messages) ref =
      view tasks ending running messages ref := by
  unfold view
  rw [messagesOf_cons_other h]

theorem Ask.isOther_message (ask : Ask) : ask.message.isOther = true := by
  cases ask <;> rfl

end Views

section Invariants

/-- The process is right about all tasks. -/
structure Ready (f : Formats) (request : Request) (tree : Tree) (w : World) (s : Jobs)
    (messages : List Message) : Prop where
  stage : ∀ ref, Stage f ref (view w.tasks w.ending s.running messages ref)
  unused : ∀ ref, w.fresh ≤ ref → view w.tasks w.ending s.running messages ref = .unused
  limit : 1 ≤ s.maxWorkers
  limits : ∀ newMax, .setMaxWorkers newMax ∈ messages → 1 ≤ newMax
  caller : ∀ caller, s.caller = some caller → w.caller = some caller
  callers : ∀ caller, .run caller ∈ messages → w.caller = some caller
  own : s.request = request
  share : ∀ {g h}, Conserved f g h → s.share g h = g (.wanted request tree)

/-- The process is right about all tasks and waits for one of them. -/
structure Live (f : Formats) (request : Request) (tree : Tree) (w : World) (s : Jobs) : Prop where
  jobs : w.jobs = some s
  replies : w.replies = []
  ready : Ready f request tree w s w.inbox.messages
  busy : s.running.entries ≠ []

/-- There is no reply, and there will not be one. -/
structure Doomed (w : World) : Prop where
  replies : w.replies = []
  lost : ∀ s, w.jobs = some s → ∃ ref, ref < w.fresh ∧
    (view w.tasks w.ending s.running w.inbox.messages ref).Lost

/-- The process has replied and ended. -/
structure Over (f : Formats) (request : Request) (tree : Tree) (w : World) : Prop where
  jobs : w.jobs = none
  completed : w.Completed f request tree
  printed : tree.Printed f request

theorem doomed_of_ended (hreplies : w.replies = []) (hjobs : w.jobs = none) : Doomed w where
  replies := hreplies
  lost s hs := by
    rw [hjobs] at hs
    cases hs

theorem Ready.advance (h : Ready f request tree w s inbox.messages)
    (hadvance : Advance f w.tasks w.ending (s, inbox) (s', inbox')) :
    Ready f request tree w s' inbox'.messages := by
  obtain ⟨hrequest, hmax, hcaller⟩ := hadvance.settings
  dsimp only at hrequest hmax hcaller
  refine ⟨hadvance.stage h.stage, ?_, ?_, ?_, ?_, ?_, ?_, ?_⟩
  · intro ref hfresh
    have hunused := h.unused ref hfresh
    have hnone : messagesOf ref inbox.messages = [] := congrArg View.messages hunused
    exact (hadvance.untouched ref hnone).trans hunused
  · rw [hmax]
    exact h.limit
  · exact fun newMax hmem => h.limits newMax (hadvance.messages _ hmem)
  · intro caller hsome
    rw [hcaller] at hsome
    exact h.caller caller hsome
  · exact fun caller hmem => h.callers caller (hadvance.messages _ hmem)
  · rw [hrequest]
    exact h.own
  · intro g h' hc
    exact (hadvance.share h.stage hc).trans (h.share hc)

/-- Without results and queued items to come all that the tree holds has been found. -/
theorem Ready.share_idle (h : Ready f request tree w s messages) (hidle : s.idle = true)
    {g : Target → ℕ} {h' : Eval → ℕ} (hc : Conserved f g h') :
    (s.results.map h').sum = g (.wanted request tree) := by
  have hshare := h.share hc
  obtain ⟨hqueue, hrunning⟩ := Bool.and_eq_true_iff.mp hidle
  rw [List.isEmpty_iff] at hqueue hrunning
  unfold Jobs.share AList.total at hshare
  rw [hqueue, hrunning] at hshare
  simpa using hshare

theorem sum_count {α : Type} [DecidableEq α] (a : α) (l : List α) :
    (l.map fun b => [b].count a).sum = l.count a := by
  induction l with
  | nil => rfl
  | cons b rest ih =>
    rw [List.map_cons, List.sum_cons, ih, ← List.count_append]
    rfl

/-- The results are those of the tree. -/
theorem Ready.perm (h : Ready f request tree w s messages) (hidle : s.idle = true) :
    s.results.reverse.Perm (tree.results f request) := by
  refine (List.reverse_perm _).trans (List.perm_iff_count.mpr fun eval => ?_)
  have hshare := h.share_idle hidle (conserved_results eval)
  rw [sum_count] at hshare
  exact hshare

theorem Ready.printed (h : Ready f request tree w s messages) (hidle : s.idle = true) :
    tree.Printed f request := by
  have hshare := h.share_idle hidle conserved_strayChunks
  rw [List.map_const', List.sum_replicate] at hshare
  exact hshare.symm.trans (Nat.mul_zero _)

theorem checkOk_eq_ok {results : List Eval} :
    checkOk results = .ok ↔ ∀ eval ∈ results, eval.status = .ok := by
  unfold checkOk
  cases hall : results.all (·.status == .ok) with
  | true => simpa using hall
  | false =>
    simp only [Bool.false_eq_true, if_false, reduceCtorEq, false_iff]
    intro hok
    have htrue : results.all (·.status == .ok) = true := by simpa using hok
    rw [hall] at htrue
    cases htrue

/-- The reply when all work is done. -/
theorem Ready.finish (h : Ready f request tree w s messages) (hidle : s.idle = true)
    (hreplies : w.replies = []) :
    s.finish = .raised ∧ s.caller = none ∨ Over f request tree (w.after s.finish) ∧ s.caller ≠ none := by
  unfold Jobs.finish
  cases hcaller : s.caller with
  | none => exact .inl ⟨rfl, rfl⟩
  | some caller =>
    have hperm := h.perm hidle
    have hstatus : checkOk s.results.reverse = .ok ↔
        ∀ eval ∈ tree.results f request, eval.status = .ok := by
      rw [checkOk_eq_ok]
      exact forall_congr' fun eval => by rw [hperm.mem_iff]
    let reply : Reply :=
      { caller, status := checkOk s.results.reverse, request := s.request
        results := s.results.reverse }
    have hreply : w.replies ++ [reply] = [reply] := by rw [hreplies, List.nil_append]
    have hcompleted : (w.after (.stop reply)).Completed f request tree :=
      ⟨reply, hreply, h.caller caller hcaller, h.own, hperm, hstatus⟩
    exact .inr ⟨⟨rfl, hcompleted, h.printed hidle⟩, by simp⟩

/-- Chunks are in the queue only when the tree has some. -/
theorem Ready.notMem_queue (h : Ready f request tree w s messages) (hprinted : tree.Printed f request)
    (chunk : String) : .stray chunk ∉ s.queue := by
  intro hmem
  have hshare := h.share (conserved_strayChunks (f := f))
  have hzero : Target.strayChunks f (.wanted request tree) = 0 := hprinted
  have hle : Target.strayChunks f (.stray chunk) ≤ (s.queue.map (Target.strayChunks f)).sum :=
    List.le_sum_of_mem (List.mem_map_of_mem hmem)
  have hone : Target.strayChunks f (.stray chunk) = 1 := rfl
  unfold Jobs.share at hshare
  omega

/-- The free workers are put to work. -/
theorem Ready.spawned (h : Ready f request tree w s inbox.messages)
    (hspawned : Spawned w.fresh s s' started) :
    Ready f request tree (w.after (.noreply s' inbox started)) s' inbox.messages := by
  have hfresh (ref : Ref) (hmem : ref ∈ started.map Prod.fst) :
      view w.tasks w.ending s.running inbox.messages ref = .unused :=
    h.unused ref (hspawned.fresh_le hmem).1
  refine ⟨?_, ?_, ?_, h.limits, ?_, h.callers, ?_, ?_⟩
  · intro ref
    change Stage f ref (view (addTasks w.tasks started) w.ending s'.running inbox.messages ref)
    by_cases hmem : ref ∈ started.map Prod.fst
    · obtain ⟨⟨other, work⟩, htask, href⟩ := List.mem_map.mp hmem
      have hsame : other = ref := href
      subst hsame
      rw [view_spawned_of_mem hspawned htask (hfresh other hmem)]
      exact .evaluating work
    · rw [view_spawned_of_notMem hspawned hmem]
      exact h.stage ref
  · intro ref hle
    have hle' : w.fresh + started.length ≤ ref := hle
    have hnotMem : ref ∉ started.map Prod.fst := by
      intro hmem
      exact Nat.not_lt.mpr hle' (hspawned.fresh_le hmem).2
    have hle'' : w.fresh ≤ ref := Nat.le_trans (Nat.le_add_right _ _) hle'
    exact (view_spawned_of_notMem hspawned hnotMem).trans (h.unused ref hle'')
  · rw [hspawned.maxWorkers]
    exact h.limit
  · intro caller hsome
    rw [hspawned.caller] at hsome
    exact h.caller caller hsome
  · rw [hspawned.request]
    exact h.own
  · intro g h' hc
    have hnone (ref : Ref) (hmem : ref ∈ started.map Prod.fst) : s.running.lookup ref = none :=
      congrArg View.running (hfresh ref hmem)
    have htotal := total_addTasks (g := fun _ work => g (.wanted work.1 work.2))
      hspawned.nodup hnone
    have hqueue : (s.queue.map g).sum = (started.map fun task => g (itemOf task)).sum +
        (s'.queue.map g).sum := by
      rw [← hspawned.items, List.map_append, List.sum_append, List.map_map]
      rfl
    have hshare := h.share hc
    unfold Jobs.share at hshare ⊢
    rw [hspawned.running, hspawned.results, htotal]
    unfold itemOf at hqueue
    omega

/-- A process with something to do has a task to wait for once workers were put to work. -/
theorem Spawned.busy (h : Spawned fresh s s' started) (hlimit : 1 ≤ s.maxWorkers)
    (hidle : s.idle = false)
    (hunused : ∀ ref ∈ started.map Prod.fst, s.running.lookup ref = none) :
    s'.running.entries ≠ [] := by
  intro hempty
  have hlookup (ref : Ref) : s'.running.lookup ref = none := by
    unfold AList.lookup
    rw [hempty]
    rfl
  have hnone : started = [] := by
    cases started with
    | nil => rfl
    | cons task rest =>
      have hmem := lookup_addTasks_of_mem s.running h.nodup List.mem_cons_self
      rw [← h.running, hlookup] at hmem
      cases hmem
  have hrunning : s.running.entries = [] := by
    have hsame := h.running
    rw [hnone] at hsame
    rw [← hempty, hsame]
    rfl
  have hcount := h.count
  rw [hnone] at hcount
  unfold Jobs.toSpawn at hcount
  rw [hrunning] at hcount
  cases hqueue : s.queue with
  | nil => simp [Jobs.idle, hqueue, hrunning] at hidle
  | cons target rest =>
    rw [hqueue] at hcount
    simp only [List.length_nil, List.length_cons] at hcount
    omega

/-- Going on ends the process only for a chunk that was taken for a request. -/
theorem Ready.carryOn (inbox : Inbox) (h : Ready f request tree w s inbox.messages) (hidle : s.idle = false)
    (hreplies : w.replies = []) :
    (∃ s', Live f request tree (w.after (s.carryOn w.fresh inbox)) s') ∨
      Doomed (w.after (s.carryOn w.fresh inbox)) ∧ ∃ chunk, .stray chunk ∈ s.queue := by
  unfold Jobs.carryOn
  cases hspawn : spawnWorkers w.fresh s with
  | none =>
    refine .inr ⟨doomed_of_ended hreplies rfl, ?_⟩
    by_contra hnone
    have hwanted (chunk : String) : .stray chunk ∉ s.queue.take s.toSpawn :=
      fun hmem => hnone ⟨chunk, List.mem_of_mem_take hmem⟩
    obtain ⟨started, hstarted⟩ := exists_startTasks w.fresh hwanted
    unfold spawnWorkers at hspawn
    rw [hstarted] at hspawn
    cases hspawn
  | some found =>
    obtain ⟨s', started⟩ := found
    have hspawned := spawned_of_spawnWorkers hspawn
    refine .inl ⟨s', rfl, hreplies, h.spawned hspawned, ?_⟩
    exact hspawned.busy h.limit hidle fun ref hmem =>
      congrArg View.running (h.unused ref (hspawned.fresh_le hmem).1)

end Invariants

end Sower.Nix
