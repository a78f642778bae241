import Sower.Nix.JobSteps

/-!
# Completion of the jobs

Only finitely much happens besides what others ask for, and as long as something is
outstanding something can happen. When nothing is, the caller has its one reply exactly
when the process has taken nothing that it handles wrongly.
-/

namespace Sower.Nix

variable {f : Formats} {request : Request} {tree : Tree} {w w' : World} {s s' : Jobs}
  {fresh : Ref} {event : Event} {events : List Event} {maxWorkers : ℕ}

section Remaining

variable (f)

/-- The queue of the process, as long as there is one. -/
def World.queue (w : World) : List Target :=
  match w.jobs with
  | none => []
  | some s => s.queue

/-- What tasks are still to do. -/
def World.tasksLoad (w : World) : ℕ := w.tasks.total fun _ work => work.2.weight f work.1

/-- What the caller is still to do. -/
def World.callLoad (w : World) : ℕ := if w.caller = none then 2 else 0

/-- What is still to happen besides what others ask for. -/
def World.remaining (w : World) : ℕ :=
  load f w.queue w.inbox.messages + w.tasksLoad f + 2 * w.ending.length + w.signals.length +
    w.callLoad

variable {f}

theorem load_append {queue : List Target} {messages more : List Message} :
    load f queue (messages ++ more) = load f queue messages + (more.map (Message.load f)).sum := by
  unfold load
  rw [List.map_append, List.sum_append, Nat.add_assoc]

theorem Ask.load_message (ask : Ask) : ask.message.load f = 1 := by
  cases ask <;> rfl

/-- Items that are taken off the queue are replaced by tasks. -/
theorem Spawned.load {started : List (Ref × Work)} (h : Spawned fresh s s' started)
    (messages : List Message) (tasks : AList fun _ : Ref => Work) :
    load f s'.queue messages + (addTasks tasks started).total (fun _ work => work.2.weight f work.1) ≤
      load f s.queue messages + tasks.total fun _ work => work.2.weight f work.1 := by
  have htotal := total_addTasks_le tasks started
    (g := fun _ work => work.2.weight f work.1)
  have hqueue : (s.queue.map (Target.load f)).sum =
      (started.map fun task => Target.load f (itemOf task)).sum +
        (s'.queue.map (Target.load f)).sum := by
    rw [← h.items, List.map_append, List.sum_append, List.map_map]
    rfl
  have hstarted : (started.map fun task => task.2.2.weight f task.2.1).sum ≤
      (started.map fun task => Target.load f (itemOf task)).sum :=
    List.sum_le_sum fun task _ => Nat.le_succ _
  unfold Nix.load
  omega

theorem remaining_carryOn (w : World) (s : Jobs) (inbox : Inbox) :
    (w.after (s.carryOn w.fresh inbox)).remaining f ≤
      load f s.queue inbox.messages + w.tasksLoad f + 2 * w.ending.length + w.signals.length +
        w.callLoad := by
  unfold Jobs.carryOn
  cases hspawn : spawnWorkers w.fresh s with
  | none =>
    have hzero : load f [] [] = 0 := rfl
    change load f [] [] + w.tasksLoad f + 2 * w.ending.length + w.signals.length + w.callLoad ≤ _
    omega
  | some found =>
    obtain ⟨s', started⟩ := found
    have hload := (spawned_of_spawnWorkers hspawn).load (f := f) inbox.messages w.tasks
    change load f s'.queue inbox.messages + (addTasks w.tasks started).total _ +
      2 * w.ending.length + w.signals.length + w.callLoad ≤ _
    unfold World.tasksLoad
    omega

theorem remaining_handles {message : Message} {rest : List Message} (hjobs : w.jobs = some s)
    (hmessages : w.inbox.messages = message :: rest) :
    (w.after (handle f w.fresh s { w.inbox with messages := rest } message)).remaining f + 1 ≤
      w.remaining f := by
  have hqueue : w.queue = s.queue := by
    unfold World.queue
    rw [hjobs]
  have hremaining : w.remaining f = load f s.queue (message :: rest) + w.tasksLoad f +
      2 * w.ending.length + w.signals.length + w.callLoad := by
    unfold World.remaining
    rw [hqueue, hmessages]
  have hcons : load f s.queue (message :: rest) = message.load f + load f s.queue rest := by
    unfold load
    rw [List.map_cons, List.sum_cons]
    omega
  have hone : 1 ≤ message.load f := by
    unfold Message.load
    split
    · exact Nat.le_add_right _ _
    · exact Nat.le_refl _
  have hstay {s' : Jobs} (hsame : s'.queue = s.queue) :
      (w.after (.noreply s' { w.inbox with messages := rest } [])).remaining f + 1 ≤
        w.remaining f := by
    have hafter : (w.after (.noreply s' { w.inbox with messages := rest } [])).remaining f =
        load f s'.queue rest + w.tasksLoad f + 2 * w.ending.length + w.signals.length +
          w.callLoad := rfl
    rw [hafter, hsame]
    omega
  have hcarry (s' : Jobs) (inbox : Inbox)
      (hless : load f s'.queue inbox.messages + 1 ≤ load f s.queue (message :: rest)) :
      (w.after (s'.carryOn w.fresh inbox)).remaining f + 1 ≤ w.remaining f := by
    have hcarryOn := remaining_carryOn (f := f) w s' inbox
    omega
  cases message with
  | task message =>
    cases message with
    | down ref reason => exact hstay rfl
    | result ref value =>
      have hafter := load_afterResult (f := f) s ref value rest w.inbox.demonitored
      change _ ≤ _ at hafter
      unfold handle
      dsimp only
      generalize afterResult f ref value s ⟨rest, w.inbox.demonitored⟩ = found at hafter ⊢
      obtain ⟨s', inbox'⟩ := found
      dsimp only at hafter ⊢
      cases hidle : s'.idle with
      | false =>
        rw [if_neg Bool.false_ne_true]
        exact hcarry s' inbox' hafter
      | true =>
        rw [if_pos rfl]
        have hended : (w.after s'.finish).remaining f = load f [] [] + w.tasksLoad f +
            2 * w.ending.length + w.signals.length + w.callLoad := by
          unfold Jobs.finish
          cases s'.caller <;> rfl
        have hzero : load f [] [] = 0 := rfl
        omega
  | run caller => exact hcarry { s with caller := some caller } _ (by dsimp only; omega)
  | setMaxWorkers newMax => exact hstay rfl
  | flush => exact hcarry s _ (by dsimp only; omega)
  | tick => exact hstay rfl

/-- Every event leaves less to happen, but for what others ask for. -/
theorem remaining_step (hstep : step f w event = some w') :
    w'.remaining f + 1 ≤ w.remaining f + 2 * if event.isAsk then 1 else 0 := by
  cases happens_of_step hstep with
  | @returns ref work value htask hvalue =>
    have htotal : w.tasksLoad f = work.2.weight f work.1 + World.tasksLoad f
        { w with tasks := w.tasks.erase ref } := AList.total_of_lookup htask
    have hmessage : Message.load f (.task (.result ref value)) + 3 ≤ work.2.weight f work.1 := by
      cases value with
      | leaf eval => exact Tree.four_le_weight
      | branch targets =>
        rw [Tree.weight_of_branch hvalue]
        change 1 + (targets.map (Target.load f)).sum + 3 ≤ 4 + (targets.map (Target.load f)).sum
        omega
    change load f w.queue (w.inbox.messages ++ [_]) + World.tasksLoad f
      { w with tasks := w.tasks.erase ref } + 2 * (w.ending.length + 1) + w.signals.length + w.callLoad + 1 ≤ _
    rw [load_append]
    unfold World.remaining
    rw [List.map_singleton, List.sum_singleton]
    omega
  | @crashes ref work reason htask hreason =>
    have htotal : w.tasksLoad f = work.2.weight f work.1 + World.tasksLoad f
        { w with tasks := w.tasks.erase ref } := AList.total_of_lookup htask
    have hfour : 4 ≤ work.2.weight f work.1 := Tree.four_le_weight
    have hone : Message.load f (.task (.down ref (some reason))) = 1 := rfl
    change load f w.queue (w.inbox.messages ++ [_]) + World.tasksLoad f
      { w with tasks := w.tasks.erase ref } + 2 * w.ending.length +
      (w.signals ++ [reason]).length + w.callLoad + 1 ≤ _
    rw [load_append, List.length_append]
    unfold World.remaining
    rw [List.map_singleton, List.sum_singleton, hone, List.length_singleton]
    omega
  | @ends ref hending =>
    have hlength := List.length_erase_of_mem hending
    have hpos := List.length_pos_of_mem hending
    change load f w.queue w.inbox.messages + w.tasksLoad f + 2 * (w.ending.erase ref).length +
      w.signals.length + w.callLoad + 1 ≤ _
    unfold World.remaining
    omega
  | @endsReported ref hending =>
    have hlength := List.length_erase_of_mem hending
    have hpos := List.length_pos_of_mem hending
    have hone : Message.load f (.task (.down ref none)) = 1 := rfl
    change load f w.queue (w.inbox.messages ++ [_]) + w.tasksLoad f +
      2 * (w.ending.erase ref).length + w.signals.length + w.callLoad + 1 ≤ _
    rw [load_append]
    unfold World.remaining
    rw [List.map_singleton, List.sum_singleton, hone]
    omega
  | @signalled reason rest hsignals =>
    have hzero : load f [] [] = 0 := rfl
    change load f [] [] + w.tasksLoad f + 2 * w.ending.length + rest.length + w.callLoad + 1 ≤ _
    unfold World.remaining
    rw [hsignals, List.length_cons]
    omega
  | @calls caller hcaller =>
    change load f w.queue (w.inbox.messages ++ [_]) + w.tasksLoad f + 2 * w.ending.length +
      w.signals.length + 0 + 1 ≤ _
    rw [load_append]
    have hcall : w.callLoad = 2 := by
      unfold World.callLoad
      rw [if_pos hcaller]
    have hone : Message.load f (.run caller) = 1 := rfl
    unfold World.remaining
    rw [List.map_singleton, List.sum_singleton, hone]
    omega
  | @asks ask hallowed =>
    change load f w.queue (w.inbox.messages ++ [_]) + w.tasksLoad f + 2 * w.ending.length +
      w.signals.length + w.callLoad + 1 ≤ _
    rw [load_append, List.map_singleton, List.sum_singleton, ask.load_message]
    unfold World.remaining
    change _ ≤ _ + 2 * 1
    omega
  | handles hjobs hmessages => exact remaining_handles hjobs hmessages

end Remaining

section Runs

variable {tree : Tree}

/-- Besides what others ask for only finitely much happens. -/
theorem length_run (hrun : run f events w = some w') :
    events.length ≤ w.remaining f + 2 * events.countP Event.isAsk := by
  induction events generalizing w with
  | nil => exact Nat.zero_le _
  | cons event rest ih =>
    obtain ⟨next, hstep, hrest⟩ := Option.bind_eq_some_iff.mp hrun
    have hless := remaining_step hstep
    have hrest' := ih hrest
    rw [List.length_cons, List.countP_cons]
    omega

/-- How a run ends that begins while the process is right about its tasks. -/
theorem Live.run (h : Live f request tree w s) (hrun : run f events w = some w') :
    (∃ s', Live f request tree w' s') ∧ SparedAlong f w events ∨
      Over f request tree w' ∧ SparedAlong f w events ∨
      Doomed w' ∧ (tree.Printed f request → ¬ SparedAlong f w events) := by
  have hdoomed {w w' : World} {events : List Event} (h : Doomed w)
      (hrun : Nix.run f events w = some w') : Doomed w' := by
    induction events generalizing w with
    | nil =>
      cases hrun
      exact h
    | cons event rest ih =>
      obtain ⟨next, hstep, hrest⟩ := Option.bind_eq_some_iff.mp hrun
      exact ih (h.next hstep) hrest
  have hover {w w' : World} {events : List Event} (h : Over f request tree w)
      (hrun : Nix.run f events w = some w') : Over f request tree w' ∧ SparedAlong f w events := by
    induction events generalizing w with
    | nil =>
      cases hrun
      exact ⟨h, trivial⟩
    | cons event rest ih =>
      obtain ⟨next, hstep, hrest⟩ := Option.bind_eq_some_iff.mp hrun
      obtain ⟨hnext, hspared⟩ := h.next hstep
      obtain ⟨hend, hspareds⟩ := ih hnext hrest
      exact ⟨hend, (sparedAlong_cons hstep rest).mpr ⟨hspared, hspareds⟩⟩
  induction events generalizing w s with
  | nil =>
    cases hrun
    exact .inl ⟨⟨s, h⟩, trivial⟩
  | cons event rest ih =>
    obtain ⟨next, hstep, hrest⟩ := Option.bind_eq_some_iff.mp hrun
    have hall := sparedAlong_cons hstep rest
    cases h.next hstep with
    | live hlive hspared =>
      rcases ih hlive hrest with ⟨hend, hspareds⟩ | ⟨hend, hspareds⟩ | ⟨hend, htaken⟩
      · exact .inl ⟨hend, hall.mpr ⟨hspared, hspareds⟩⟩
      · exact .inr (.inl ⟨hend, hall.mpr ⟨hspared, hspareds⟩⟩)
      · exact .inr (.inr ⟨hend, fun hprinted hspareds => htaken hprinted (hall.mp hspareds).2⟩)
    | finished hnext hspared =>
      obtain ⟨hend, hspareds⟩ := hover hnext hrest
      exact .inr (.inl ⟨hend, hall.mpr ⟨hspared, hspareds⟩⟩)
    | doomed hnext htaken =>
      exact .inr (.inr ⟨hdoomed hnext hrest, fun hprinted hspareds => htaken hprinted (hall.mp hspareds).1⟩)

/-- The process is started right. -/
theorem live_start (f : Formats) (request : Request) (tree : Tree) (hmax : 1 ≤ maxWorkers) :
    ∃ s, Live f request tree (start request tree maxWorkers) s := by
  let first : Jobs := { request, queue := [.wanted request tree], maxWorkers }
  have hready : Ready f request tree { jobs := some first } first [] := by
    refine ⟨fun ref => .done _ ?_, fun ref _ => rfl, hmax, ?_, ?_, ?_, rfl, fun _ => ?_⟩
    · exact fun message hmem => by cases hmem
    · exact fun newMax hmem => by cases hmem
    · exact fun caller hsome => by cases hsome
    · exact fun caller hmem => by cases hmem
    · simp [Jobs.share, AList.total, first]
  rcases Ready.carryOn {} hready rfl rfl with hlive | ⟨_, chunk, hmem⟩
  · exact hlive
  · cases List.mem_singleton.mp hmem

/-- What is to happen after the start: the tree is evaluated and the call is made. -/
theorem remaining_start (f : Formats) (request : Request) (tree : Tree) (maxWorkers : ℕ) :
    (start request tree maxWorkers).remaining f ≤ tree.weight f request + 3 := by
  let first : Jobs := { request, queue := [.wanted request tree], maxWorkers }
  have hcarryOn := remaining_carryOn (f := f) { jobs := some first } first {}
  have hload : load f first.queue [] = tree.weight f request + 1 := rfl
  have hcall : World.callLoad { jobs := some first } = 2 := rfl
  have htasks : World.tasksLoad f { jobs := some first } = 0 := rfl
  rw [hload, hcall, htasks] at hcarryOn
  exact hcarryOn

/-- As long as the process waits for a task something is outstanding. -/
theorem Live.not_quiet (h : Live f request tree w s) : ¬ w.Quiet := by
  rintro ⟨_, hquiet⟩
  obtain ⟨htasks, hmessages⟩ := hquiet (by rw [h.jobs]; rfl)
  obtain ⟨⟨ref, work⟩, hentry⟩ := List.exists_mem_of_ne_nil _ h.busy
  have hrunning : s.running.lookup ref = some work := AList.mem_entries.mp hentry
  have htask : w.tasks.lookup ref = none := by
    unfold AList.lookup
    rw [htasks]
    rfl
  have hstage := h.ready.stage ref
  unfold view at hstage
  rw [htask, hrunning, hmessages, messagesOf_nil] at hstage
  generalize decide (ref ∈ w.ending) = ended at hstage
  cases hstage

/-- As long as something is outstanding something can happen. -/
theorem exists_step_of_not_quiet (h : ¬ w.Quiet) :
    ∃ event w', event.isAsk = false ∧ step f w event = some w' := by
  suffices ∃ event, event.isAsk = false ∧ (step f w event).isSome by
    obtain ⟨event, hown, hsome⟩ := this
    obtain ⟨w', hstep⟩ := Option.isSome_iff_exists.mp hsome
    exact ⟨event, w', hown, hstep⟩
  cases hcaller : w.caller with
  | none => exact ⟨.calls 0, rfl, by simp [step, hcaller]⟩
  | some caller =>
    have hbusy : ∃ s, w.jobs = some s ∧ ¬ (w.tasks.entries = [] ∧ w.inbox.messages = []) := by
      by_contra hnone
      refine h ⟨by rw [hcaller]; rfl, fun hjobs => ?_⟩
      obtain ⟨s, hs⟩ := Option.isSome_iff_exists.mp hjobs
      by_contra houtstanding
      exact hnone ⟨s, hs, houtstanding⟩
    obtain ⟨s, hjobs, houtstanding⟩ := hbusy
    cases hmessages : w.inbox.messages with
    | cons message rest => exact ⟨.handles, rfl, by simp [step, hjobs, hmessages]⟩
    | nil =>
      have htasks : w.tasks.entries ≠ [] := fun htasks => houtstanding ⟨htasks, hmessages⟩
      obtain ⟨⟨ref, work⟩, hentry⟩ := List.exists_mem_of_ne_nil _ htasks
      have htask : w.tasks.lookup ref = some work := AList.mem_entries.mp hentry
      cases houtcome : evaluateRequest f work.1 work.2 with
      | ok value => exact ⟨.returns ref, rfl, by simp [step, htask, houtcome]⟩
      | error reason => exact ⟨.crashes ref, rfl, by simp [step, htask, houtcome]⟩

/-- The jobs are completed exactly once: a reply holds the results of the tree and its
status says whether all are ok, there is never a second one, only finitely much happens
besides what others ask for, and when nothing is outstanding the caller has the reply
exactly when what succeeded had printed JSON and the process has taken nothing that it
handles wrongly. -/
theorem completes_once_iff (f : Formats) (request : Request) (tree : Tree) {maxWorkers : ℕ}
    (hmax : 1 ≤ maxWorkers) {events : List Event} {w : World}
    (hrun : run f events (start request tree maxWorkers) = some w) :
    (w.replies = [] ∨ w.Completed f request tree) ∧
      events.length ≤ tree.weight f request + 3 + 2 * events.countP Event.isAsk ∧
      (w.Quiet → (w.Completed f request tree ↔
        tree.Printed f request ∧ SparedAlong f (start request tree maxWorkers) events)) ∧
      (¬ w.Quiet → ∃ event w', event.isAsk = false ∧ step f w event = some w') := by
  have hlength := length_run hrun
  have hstart := remaining_start f request tree maxWorkers
  obtain ⟨s, hlive⟩ := live_start f request tree hmax
  have hnone (hreplies : w.replies = []) : ¬ w.Completed f request tree := by
    rintro ⟨reply, hreply, _⟩
    cases hreplies.symm.trans hreply
  refine ⟨?_, by omega, fun hquiet => ?_, exists_step_of_not_quiet⟩
  · rcases hlive.run hrun with ⟨⟨s', hend⟩, _⟩ | ⟨hend, _⟩ | ⟨hend, _⟩
    · exact .inl hend.replies
    · exact .inr hend.completed
    · exact .inl hend.replies
  · rcases hlive.run hrun with ⟨⟨s', hend⟩, _⟩ | ⟨hend, hspared⟩ | ⟨hend, htaken⟩
    · exact absurd hquiet hend.not_quiet
    · exact ⟨fun _ => ⟨hend.printed, hspared⟩, fun _ => hend.completed⟩
    · exact ⟨fun hcompleted => absurd hcompleted (hnone hend.replies),
        fun ⟨hprinted, hspared⟩ => absurd hspared (htaken hprinted)⟩

/-- Conversions that find the same in every text. -/
def decodesTo (json : Json) : Formats where
  decode _ := some json
  encode := id
  formatExit _ := "exit"
  inspect _ _ _ _ := "value"

/-- A request for a whole file. -/
def wholeFile : Request := { id := "1", type := .path, path := "/f", attr := none, rootId := none }

/-- A set whose first attribute cannot be evaluated in time and whose second one crashes. -/
def twoAttributes : Tree :=
  .exited .ok [""] [] id fun name => if name = "a" then .failed .timeout else .crashed .badName

/-- An evaluation without attributes to follow. -/
def oneLeaf : Tree := .exited .ok [""] [] id fun _ => .failed .timeout

/-- The crash is found by draining the inbox after the result. -/
theorem completes_once_iff_drained :
    ∃ w, run (decodesTo (.list [some "a", some "b"]))
        [.calls 7, .handles, .returns 0, .handles, .returns 1, .crashes 2, .handles]
        (start wholeFile twoAttributes 2) = some w ∧
      w.Completed (decodesTo (.list [some "a", some "b"])) wholeFile twoAttributes := by
  refine ⟨_, rfl, ?_⟩
  have hmax : 1 ≤ 2 := by decide
  have hiff := completes_once_iff (decodesTo (.list [some "a", some "b"])) wholeFile twoAttributes
    hmax (Eq.refl (run (decodesTo (.list [some "a", some "b"]))
      [.calls 7, .handles, .returns 0, .handles, .returns 1, .crashes 2, .handles]
      (start wholeFile twoAttributes 2)))
  refine (hiff.2.2.1 ⟨rfl, fun h => by cases h⟩).mpr ⟨rfl, ?_⟩
  refine (sparedAlong_cons rfl _).mpr ⟨trivial, ?_⟩
  refine (sparedAlong_cons rfl _).mpr ⟨trivial, ?_⟩
  refine (sparedAlong_cons rfl _).mpr ⟨trivial, ?_⟩
  refine (sparedAlong_cons rfl _).mpr ⟨fun h => (by cases h), ?_⟩
  refine (sparedAlong_cons rfl _).mpr ⟨trivial, ?_⟩
  refine (sparedAlong_cons rfl _).mpr ⟨trivial, ?_⟩
  exact (sparedAlong_cons rfl _).mpr ⟨fun h => (by cases h), trivial⟩

/-- A result that comes before the call is answered to nobody. A crash is not waited for
by draining, or ends the process along the link. -/
theorem quiet_without_reply :
    (∃ w, run (decodesTo .null) [.returns 0, .handles, .calls 7] (start wholeFile oneLeaf 1) = some w ∧
      w.Quiet ∧ oneLeaf.Printed (decodesTo .null) wholeFile ∧
      ¬ w.Completed (decodesTo .null) wholeFile oneLeaf) ∧
    (∃ w, run (decodesTo .null) [.calls 7, .handles, .crashes 0, .handles]
        (start wholeFile (.crashed .timeout) 1) = some w ∧
      w.Quiet ∧ Tree.Printed (decodesTo .null) wholeFile (.crashed .timeout) ∧
      ¬ w.Completed (decodesTo .null) wholeFile (.crashed .timeout)) ∧
    ∃ w, run (decodesTo .null) [.calls 7, .crashes 0, .signalled]
        (start wholeFile (.crashed .timeout) 1) = some w ∧
      w.Quiet ∧ Tree.Printed (decodesTo .null) wholeFile (.crashed .timeout) ∧
      ¬ w.Completed (decodesTo .null) wholeFile (.crashed .timeout) := by
  refine ⟨⟨_, rfl, ⟨rfl, fun h => by cases h⟩, rfl, ?_⟩,
    ⟨_, rfl, ⟨rfl, fun _ => ⟨rfl, rfl⟩⟩, rfl, ?_⟩, ⟨_, rfl, ⟨rfl, fun h => by cases h⟩, rfl, ?_⟩⟩
  · rintro ⟨reply, hreplies, _⟩
    cases hreplies
  · rintro ⟨reply, hreplies, _⟩
    cases hreplies
  · rintro ⟨reply, hreplies, _⟩
    cases hreplies

end Runs

end Sower.Nix
