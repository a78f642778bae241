import Sower.Vm.RelayParts

/-!
# Runs of the relay

What holds of the relay holds after each of its steps, and so throughout every run.
-/

namespace Sower.Vm

open Durable

/-- What holds of a relay at any time. -/
structure Relay.Inv (w : Relay) : Prop where
  ordered : w.guard.Ordered
  unlaunched : w.guard.vmm = none → w.io = .absent
  toGuard : ∀ m ∈ w.toGuard, m.completed? = none
  fromIo : ∀ m ∈ w.fromIo, m.executed? = none
  routed : Routed w.execution w.guard w.io.alive w.upper w.lower
  closing : Closing w.execution w.guard.point w.toExecution
  desked : Desked w.execution w.desks
  heeded : Heeded w

namespace Relay

variable {w : Relay} {vm : Pid} {codec : Protocol.Codec} {wording : Wording}

section Execution

/-- Calls and casts are no news of the guard, and cancel no command. -/
theorem outside_other {m : ExecutionMessage} (hm : m.Outside) :
    ¬ m.FromGuard ∧ m.report? = none ∧ m.cancelled? = none := by
  cases m <;> first | exact ⟨id, rfl, rfl⟩ | cases hm

theorem cancelled_of_fromGuard {m : ExecutionMessage} (hm : m.FromGuard) : m.cancelled? = none := by
  cases m <;> first | rfl | cases hm

/-- The execution takes a message. -/
theorem Inv.executed {m : ExecutionMessage} (h : w.Inv) (rest : List ExecutionMessage)
    (fromHandles : List (Pid × Term)) (asked : List Pid) (fresh : Pid)
    (hrunning : w.execution.running = true)
    (htaken : Taken m rest w.guard.point w.toExecution)
    (hhandles : ∀ p ∈ fromHandles, p ∈ w.fromHandles) (hasked : ∀ c ∈ w.asked, c ∈ asked)
    (hm : ∀ c, m.cancelled? = some c → c ∈ asked) :
    Inv (executed { w with toExecution := rest, fromHandles := fromHandles, asked := asked } vm
      (w.execution.handle fresh m)) := by
  have hdoes : w.execution.Does fresh m (w.execution.handle fresh m) :=
    Execution.handle_does fun hguard => h.closing.live htaken hguard
  refine ⟨h.ordered, h.unlaunched, ?_, h.fromIo, ?_, h.closing.executed hrunning htaken hdoes,
    h.desked.executed hrunning hdoes, h.heeded.executed htaken hhandles hasked hm hdoes⟩
  · intro g hg
    rcases List.mem_append.mp hg with hg | hg
    · exact h.toGuard g hg
    · cases hdoes with
      | keeps hcommand hterminal hstill hreport hnews hmail => exact (hmail g hg).2.1
      | begins caller deadlineMs retain hnone hlive hmessage hcommand hterminal hnews hmail =>
        rw [hmail] at hg
        rw [List.mem_singleton.mp hg]
        rfl
      | answers c result hmessage hsome hlive hcommand hterminal hnews hmail =>
        rw [hmail] at hg
        cases hg
      | ends result hmessage hcommand hterminal hnews hmail =>
        rw [hmail] at hg
        cases hg
  · have hrouted := h.routed
    unfold upper at hrouted
    rw [htaken.completed] at hrouted
    have hnext := hrouted.executed hrunning hdoes
    rw [← List.filterMap_append] at hnext
    exact hnext

end Execution

section Guard

/-- The guard takes a message: of the execution, of the process that talks to the guest, of a
timer, or of somebody else. -/
inductive Heard (w : Relay) (m : GuardMessage) :
    List GuardMessage → List GuardMessage → List Pid → Prop
  | execution (before after : List GuardMessage) (hmail : w.toGuard = before ++ m :: after) :
    Heard w m (before ++ after) w.fromIo w.timers
  | io (before after : List GuardMessage) (hmail : w.fromIo = before ++ m :: after) :
    Heard w m w.toGuard (before ++ after) w.timers
  | timer (c : Pid) (hm : m = .cancelDeadline c) :
    Heard w m w.toGuard w.fromIo (w.timers.erase c)
  | outside (hm : m.Outside) : Heard w m w.toGuard w.fromIo w.timers

variable {m : GuardMessage} {toGuard fromIo : List GuardMessage} {timers : List Pid}

theorem outside_silent (hm : m.Outside) :
    m.executed? = none ∧ m.completed? = none ∧ m.cancelled? = none := by
  cases m with
  | execute command => cases hm
  | cancelCommand command reason => cases hm
  | commandFinished command result => cases hm
  | _ => exact ⟨rfl, rfl, rfl⟩

/-- What the channels of the guard hold is what they held without the message. -/
theorem Heard.routes (hheard : Heard w m toGuard fromIo timers) (h : w.Inv) :
    (∃ a a', w.toGuard.filterMap (·.executed?) = a ++ m.executed?.toList ++ a' ∧
      toGuard.filterMap (·.executed?) = a ++ a') ∧
    ∃ b b', w.fromIo.filterMap (·.completed?) = b ++ m.completed?.toList ++ b' ∧
      fromIo.filterMap (·.completed?) = b ++ b' := by
  have hwhole : ∀ l : List Pid, l = l ++ (none : Option Pid).toList ++ [] ∧ l = l ++ [] := by simp
  cases hheard with
  | execution before after hmail =>
    have hnone : m.completed? = none := h.toGuard m (by rw [hmail]; simp)
    refine ⟨⟨before.filterMap (·.executed?), after.filterMap (·.executed?), ?_,
      List.filterMap_append⟩, ?_⟩
    · rw [hmail]
      cases hm : m.executed? <;> simp [hm]
    · rw [hnone]
      exact ⟨_, [], hwhole _⟩
  | io before after hmail =>
    have hnone : m.executed? = none := h.fromIo m (by rw [hmail]; simp)
    refine ⟨?_, ⟨before.filterMap (·.completed?), after.filterMap (·.completed?), ?_,
      List.filterMap_append⟩⟩
    · rw [hnone]
      exact ⟨_, [], hwhole _⟩
    · rw [hmail]
      cases hm : m.completed? <;> simp [hm]
  | timer c hm =>
    rw [hm]
    exact ⟨⟨_, [], hwhole _⟩, ⟨_, [], hwhole _⟩⟩
  | outside hm =>
    rw [(outside_silent hm).1, (outside_silent hm).2.1]
    exact ⟨⟨_, [], hwhole _⟩, ⟨_, [], hwhole _⟩⟩

/-- The message was under way, if it is about a command. -/
theorem Heard.known (hheard : Heard w m toGuard fromIo timers) (h : w.Inv) :
    (∀ g ∈ toGuard, g ∈ w.toGuard) ∧ (∀ g ∈ fromIo, g ∈ w.fromIo) ∧ (∀ c ∈ timers, c ∈ w.timers) ∧
      (∀ c, m.cancelled? = some c → c ∈ w.asked) ∧
      ∀ p, m.result? = some p → p ∈ w.completions := by
  have hresult : m.completed? = none → ∀ p, m.result? = some p → p ∈ w.completions := by
    intro hnone p hp
    unfold GuardMessage.completed? at hnone
    rw [hp] at hnone
    cases hnone
  cases hheard with
  | execution before after hmail =>
    have hm : m ∈ w.toGuard := by rw [hmail]; simp
    refine ⟨fun g hg => ?_, fun g hg => hg, fun c hc => hc, h.heeded.toGuard m hm,
      hresult (h.toGuard m hm)⟩
    rw [hmail]
    rcases List.mem_append.mp hg with hg | hg
    · exact List.mem_append_left _ hg
    · exact List.mem_append_right _ (List.mem_cons_of_mem _ hg)
  | io before after hmail =>
    have hm : m ∈ w.fromIo := by rw [hmail]; simp
    refine ⟨fun g hg => hg, fun g hg => ?_, fun c hc => hc, h.heeded.fromIo m hm,
      h.heeded.reported m hm⟩
    rw [hmail]
    rcases List.mem_append.mp hg with hg | hg
    · exact List.mem_append_left _ hg
    · exact List.mem_append_right _ (List.mem_cons_of_mem _ hg)
  | timer c hm =>
    rw [hm]
    exact ⟨fun g hg => hg, fun g hg => hg, fun c' hc' => List.mem_of_mem_erase hc',
      fun c' hc' => (by cases hc'), fun p hp => (by cases hp)⟩
  | outside hm =>
    refine ⟨fun g hg => hg, fun g hg => hg, fun c hc => hc, fun c hc => ?_,
      hresult (outside_silent hm).2.1⟩
    rw [(outside_silent hm).2.2] at hc
    cases hc

/-- The guard takes a turn. -/
theorem Inv.guarded {t : GuardTurn} (h : w.Inv) (hheard : Heard w m toGuard fromIo timers)
    (hdoes : w.guard.Does m t) (hover : w.guard.point.over = false) (hordered : t.state.Ordered)
    (hunlaunched : t.state.vmm = none → w.io = .absent) :
    Inv (Relay.guarded { w with toGuard := toGuard, fromIo := fromIo, timers := timers } t) := by
  obtain ⟨hguards, hios, htimers, hcancels, hresults⟩ := hheard.known h
  obtain ⟨⟨a, a', ha, ha'⟩, b, b', hb, hb'⟩ := hheard.routes h
  refine ⟨hordered, hunlaunched, fun g hg => h.toGuard g (hguards g hg),
    fun g hg => h.fromIo g (hios g hg), ?_, h.closing.guarded hover hdoes.closes.1 hdoes.closes.2,
    h.desked, h.heeded.guarded hguards hios htimers hcancels hresults hdoes⟩
  have hrouted := h.routed
  unfold upper lower at hrouted
  rw [ha, hb] at hrouted
  have hnext := hrouted.guarded hdoes
  rw [← ha', ← hb', ← List.filterMap_append, ← List.filterMap_append] at hnext
  exact hnext

theorem Inv.received (h : w.Inv) (hheard : Heard w m toGuard fromIo timers)
    (htakes : w.guard.takes m) :
    Inv (Relay.guarded { w with toGuard := toGuard, fromIo := fromIo, timers := timers }
      (w.guard.receive m)) := by
  have hover : w.guard.point.over = false := by
    rcases htakes with hpoint | hpoint | ⟨hpoint, -⟩ <;>
      · rw [hpoint]
        rfl
  obtain ⟨hordered, hvmm⟩ := h.ordered.receive m
  exact h.guarded hheard (Guard.receive_does htakes) hover hordered fun hnone =>
    h.unlaunched (hvmm.symm.trans hnone)

/-- The guard takes a turn of its own. -/
theorem Inv.acted {t : GuardTurn} (h : w.Inv) (hleaves : w.guard.Leaves t)
    (hover : w.guard.point.over = false) (hordered : t.state.Ordered)
    (hunlaunched : t.state.vmm = none → w.io = .absent) : Inv (w.guarded t) :=
  h.guarded (@Heard.outside w .other trivial) (hleaves.does ⟨rfl, rfl⟩) hover hordered hunlaunched

end Guard

section Streaming

variable {io : Streaming.Io} {c : Pid} {toIo : List IoMessage}
  {t : Streaming.Io × List (Streaming.Act Term)}

/-- The process that talks to the guest sends the guard no command. -/
theorem report_executed (report : Streaming.Report Term) :
    (wording.report report).executed? = none := by
  cases report <;> rfl

/-- A report that is of no result brings no command back. -/
theorem report_completed {reports : List (Streaming.Report Term)}
    (h : ∀ r ∈ reports, (∃ failure, r = .finish failure) ∨ ∃ c reason, r = .cancelCommand c reason) :
    (reports.map wording.report).filterMap (·.completed?) = [] := by
  apply List.filterMap_eq_nil_iff.mpr
  intro m hm
  obtain ⟨r, hr, rfl⟩ := List.mem_map.mp hm
  rcases h r hr with ⟨failure, rfl⟩ | ⟨c, reason, rfl⟩
  · rfl
  · rfl

/-- The process that talks to the guest takes a turn, in which its command gets no further than
it should. -/
theorem Inv.streamed (h : w.Inv) (hio : w.io = .up io) (htoIo : ∀ m ∈ toIo, m ∈ w.toIo)
    (hlower : (Relay.streamed { w with toIo := toIo } wording t).lower.Sublist w.lower)
    (halive : (IoStage.up t.1).alive = true → w.io.alive = true ∧
      (Relay.streamed { w with toIo := toIo } wording t).lower = w.lower)
    (hcancelled : ∀ c, (IoStage.up t.1).cancelled = some c → c ∈ w.asked)
    (hresults : ∀ c result, .commandFinished c result ∈ t.2.filterMap (·.report?) →
      ∀ reason, result = .error (.cancelled reason) → c ∈ w.asked) :
    Inv (Relay.streamed { w with toIo := toIo } wording t) := by
  refine ⟨h.ordered, fun hnone => ?_, h.toGuard, fun m hm => ?_, h.routed.streamed hlower halive,
    h.closing, h.desked, h.heeded.streamed htoIo hcancelled hresults⟩
  · have habsent := h.unlaunched hnone
    rw [hio] at habsent
    cases habsent
  · rcases List.mem_append.mp hm with hm | hm
    · exact h.fromIo m hm
    · obtain ⟨report, -, rfl⟩ := List.mem_map.mp hm
      exact report_executed report

/-- The process takes a command. -/
theorem Inv.executes {before after : List IoMessage} (h : w.Inv)
    (opening : Streaming.Opening Term) (now : ℤ) (hio : w.io = .up io) (hidle : io.phase = .idle)
    (hmail : w.toIo = before ++ .execute c :: after)
    (hfirst : ∀ m ∈ before, m.executed? = none) :
    Inv (Relay.streamed { w with toIo := before ++ after } wording
      (io.execute opening now c)) := by
  have hbefore : before.filterMap (·.executed?) = [] := List.filterMap_eq_nil_iff.mpr hfirst
  have hcommand : w.io.command = none := by
    rw [hio]
    simp [IoStage.command, hidle]
  have hlower : w.lower = c :: (after.filterMap (·.executed?) ++
      w.fromIo.filterMap (·.completed?)) := by
    unfold lower
    rw [hmail, hcommand, List.filterMap_append, hbefore]
    simp [IoMessage.executed?]
  have halone : after.filterMap (·.executed?) = [] ∧ w.fromIo.filterMap (·.completed?) = [] := by
    have hbelow := h.routed.below
    rw [hlower] at hbelow
    exact List.append_eq_nil_iff.mp (@alone _ [] _ _ _ hbelow).2.2
  have hmem : ∀ m ∈ before ++ after, m ∈ w.toIo := by
    intro m hm
    rw [hmail]
    rcases List.mem_append.mp hm with hm | hm
    · exact List.mem_append_left _ hm
    · exact List.mem_append_right _ (List.mem_cons_of_mem _ hm)
  have hafter : ∀ reports : List (Streaming.Report Term),
      (reports.map wording.report).filterMap (·.completed?) = [] →
      (io.execute opening now c).2.filterMap (·.report?) = reports →
      (Relay.streamed { w with toIo := before ++ after } wording (io.execute opening now c)).lower =
        (IoStage.up (io.execute opening now c).1).command.toList := by
    intro reports hreports heq
    unfold lower Relay.streamed
    dsimp only
    rw [heq, List.filterMap_append, List.filterMap_append, hbefore, halone.1, halone.2, hreports]
    simp
  rcases Streaming.execute_does opening now c io with
    ⟨hreports, hphase, hsome, hcancelled⟩ | ⟨hphase, failure, hreports⟩
  · have hsame : (Relay.streamed { w with toIo := before ++ after } wording
        (io.execute opening now c)).lower = w.lower := by
      rw [hafter [] rfl hreports, hlower, halone.1, halone.2]
      simp [IoStage.command, hphase, hsome]
    refine h.streamed hio hmem (by rw [hsame]) (fun _ => ⟨?_, hsame⟩) ?_ ?_
    · rw [hio]
      simp [IoStage.alive, hidle]
    · intro c' hc'
      simp [IoStage.cancelled, hcancelled] at hc'
    · intro c' result hmem
      rw [hreports] at hmem
      cases hmem
  · have hnil : (Relay.streamed { w with toIo := before ++ after } wording
        (io.execute opening now c)).lower = [] := by
      rw [hafter [.finish failure] rfl hreports]
      simp [IoStage.command, hphase]
    refine h.streamed hio hmem (by rw [hnil]; exact List.nil_sublist _) (fun halive => ?_) ?_ ?_
    · simp [IoStage.alive, hphase] at halive
    · intro c' hc'
      simp [IoStage.cancelled, hphase] at hc'
    · intro c' result hmem
      rw [hreports] at hmem
      cases List.mem_singleton.mp hmem

/-- The process takes a message while it runs a command. -/
theorem Inv.hears (h : w.Inv) (toIo : List IoMessage) (o : Streaming.Oracle Term) (read : Streaming.Msg Term)
    (hio : w.io = .up io) (hreceiving : io.phase = .receiving) (hcommand : io.command = some c)
    (hmail : toIo = w.toIo ∨ ∃ m, w.toIo = m :: toIo)
    (hread : ∀ reason, read = .cancel c reason → c ∈ w.asked) :
    Inv (Relay.streamed { w with toIo := toIo } wording (io.receiveOutput codec o c read)) := by
  have hhas : w.io.command = some c := by
    rw [hio]
    simp [IoStage.command, hreceiving, hcommand]
  have hlower : w.lower = w.toIo.filterMap (·.executed?) ++
      c :: w.fromIo.filterMap (·.completed?) := by
    unfold lower
    rw [hhas]
    simp
  have halone : w.toIo.filterMap (·.executed?) = [] ∧ w.fromIo.filterMap (·.completed?) = [] := by
    have hbelow := h.routed.below
    rw [hlower] at hbelow
    exact (alone hbelow).2
  have hmem : ∀ m ∈ toIo, m ∈ w.toIo := by
    rcases hmail with rfl | ⟨m, hmail⟩
    · exact fun m hm => hm
    · rw [hmail]
      exact fun m' hm' => List.mem_cons_of_mem m hm'
  have hrest : toIo.filterMap (·.executed?) = [] := by
    apply List.filterMap_eq_nil_iff.mpr
    intro m hm
    exact List.filterMap_eq_nil_iff.mp halone.1 m (hmem m hm)
  have hasked : (io.cancelled ≠ none ∨ ∃ reason, read = .cancel c reason) → c ∈ w.asked := by
    rintro (hcancelled | ⟨reason, hreason⟩)
    · refine h.heeded.io c ?_
      rw [hio]
      simp [IoStage.cancelled, hreceiving, hcancelled, hcommand]
    · exact hread reason hreason
  have hafter : (Relay.streamed { w with toIo := toIo } wording
        (io.receiveOutput codec o c read)).lower =
      (IoStage.up (io.receiveOutput codec o c read).1).command.toList ++
        (((io.receiveOutput codec o c read).2.filterMap (·.report?)).map wording.report).filterMap
          (·.completed?) := by
    unfold lower Relay.streamed
    dsimp only
    rw [List.filterMap_append, hrest, halone.2]
    simp
  have hone : w.lower = [c] := by
    rw [hlower, halone.1, halone.2]
    rfl
  have halive : w.io.alive = true := by
    rw [hio]
    simp [IoStage.alive, hreceiving]
  have hdoes := @Streaming.receiveOutput_does _ codec o c io hreceiving read
  generalize io.receiveOutput codec o c read = t at hafter hdoes ⊢
  cases hdoes with
  | goes hphase hsame hcancelled hreports =>
    have hsilent : ((t.2.filterMap (·.report?)).map wording.report).filterMap (·.completed?) = [] :=
      report_completed fun r hr => Or.inr ⟨c, .outputConsumerDown, hreports r hr⟩
    have hkept : (Relay.streamed { w with toIo := toIo } wording t).lower = w.lower := by
      rw [hafter, hsilent, hone]
      simp [IoStage.command, hphase, hsame, hcommand]
    refine h.streamed hio hmem (by rw [hkept]) (fun _ => ⟨halive, hkept⟩) ?_ ?_
    · intro c' hc'
      have hset : t.1.cancelled ≠ none ∧ t.1.command = some c' := by
        simpa [IoStage.cancelled, hphase] using hc'
      rw [hsame, hcommand] at hset
      cases hset.2
      exact hasked (hcancelled hset.1)
    · intro c' result hmem'
      cases hreports _ hmem'
  | ends hphase hreports =>
    have hsilent : ((t.2.filterMap (·.report?)).map wording.report).filterMap (·.completed?) = [] :=
      report_completed fun r hr => Or.inl (hreports r hr)
    have hnone : t.1.phase ≠ .receiving ∧ t.1.phase ≠ .idle := by
      rcases hphase with hphase | hphase <;> simp [hphase]
    have hnil : (Relay.streamed { w with toIo := toIo } wording t).lower = [] := by
      rw [hafter, hsilent]
      simp [IoStage.command, hnone.1]
    refine h.streamed hio hmem (by rw [hnil]; exact List.nil_sublist _) (fun ha => ?_) ?_ ?_
    · simp [IoStage.alive, hnone.1, hnone.2] at ha
    · intro c' hc'
      simp [IoStage.cancelled, hnone.1] at hc'
    · intro c' result hmem'
      obtain ⟨failure, hfailure⟩ := hreports _ hmem'
      cases hfailure
  | completes result hphase hreports hresult =>
    have hkept : (Relay.streamed { w with toIo := toIo } wording t).lower = w.lower := by
      rw [hafter, hreports, hone]
      simp [IoStage.command, hphase, Wording.report, GuardMessage.completed?, GuardMessage.result?]
    refine h.streamed hio hmem (by rw [hkept]) (fun _ => ⟨halive, hkept⟩) ?_ ?_
    · intro c' hc'
      simp [IoStage.cancelled, hphase] at hc'
    · intro c' result' hmem' reason hreason
      rw [hreports] at hmem'
      cases List.mem_singleton.mp hmem'
      exact hasked (hresult reason hreason)

end Streaming

section Handles

variable {x : Desk} {h : Pid}

/-- A handle takes a turn that leaves it with what it was sent. -/
theorem Inv.handled {x' : Desk} {t : CommandTurn} (hinv : w.Inv) (hx : w.desks h = some x)
    (hsent : x'.sent = x.sent) (hstage : Desk.Stage w.execution.running { x' with process := t.state }) :
    Inv (w.handled h x' t) :=
  ⟨hinv.ordered, hinv.unlaunched, hinv.toGuard, hinv.fromIo, hinv.routed, hinv.closing,
    hinv.desked.handled hx hsent hstage, hinv.heeded.handled hx hsent⟩

end Handles

section Runs

/-- The monitor is launched, and with it the process that talks to the guest. -/
theorem Inv.launched (h : w.Inv) (hpoint : w.guard.point = .launching) (vmm io : Pid)
    (osPid contract : ℕ) : Inv { w.guarded (w.guard.launched (.ok (vmm, osPid, io))) with
      io := .connecting contract } := by
  have habsent : w.io = .absent :=
    h.unlaunched (h.ordered.launches (by rw [hpoint]; rfl)).1
  have hguarded := h.acted (Guard.launched_leaves hpoint (.ok (vmm, osPid, io)))
    (by rw [hpoint]; rfl) (h.ordered.launched hpoint _).1 fun _ => habsent
  have hrouted := hguarded.routed
  have hlower : ({ w.guarded (w.guard.launched (.ok (vmm, osPid, io))) with
      io := .connecting contract } : Relay).lower =
      (w.guarded (w.guard.launched (.ok (vmm, osPid, io)))).lower := by
    unfold lower Relay.guarded
    dsimp only
    rw [habsent]
    rfl
  have halive : (w.guarded (w.guard.launched (.ok (vmm, osPid, io)))).io.alive = true := by
    change w.io.alive = true
    rw [habsent]
    rfl
  rw [halive, ← hlower] at hrouted
  have hheeded := hguarded.heeded
  exact ⟨hguarded.ordered, fun hnone => (by cases hnone), hguarded.toGuard, hguarded.fromIo, hrouted,
    hguarded.closing, hguarded.desked, ⟨hheeded.fromHandles, hheeded.toGuard, hheeded.fromIo,
      hheeded.toIo, hheeded.timers, hheeded.timer, fun c hc => (by cases hc), hheeded.cancels,
      hheeded.reported, hheeded.answered, hheeded.sent⟩⟩

/-- The process that talks to the guest gets on or ends, and brings no command. -/
theorem Inv.stage (h : w.Inv) (stage : IoStage) (sent : List GuardMessage) (hio : w.io ≠ .absent)
    (hsilent : ∀ m ∈ sent, m.executed? = none ∧ m.result? = none ∧ m.cancelled? = none)
    (hstage : stage.command = none ∧ stage.cancelled = none)
    (halive : stage.alive = true → w.io.alive = true ∧ w.io.command = none) :
    Inv { w with io := stage, fromIo := w.fromIo ++ sent } := by
  have hcompleted : sent.filterMap (·.completed?) = [] := by
    apply List.filterMap_eq_nil_iff.mpr
    intro m hm
    unfold GuardMessage.completed?
    rw [(hsilent m hm).2.1]
    rfl
  have hlower : ({ w with io := stage, fromIo := w.fromIo ++ sent } : Relay).lower =
      w.toIo.filterMap (·.executed?) ++ w.fromIo.filterMap (·.completed?) := by
    unfold lower
    dsimp only
    rw [hstage.1, List.filterMap_append, hcompleted]
    simp
  have hsub : (w.toIo.filterMap (·.executed?) ++ w.fromIo.filterMap (·.completed?)).Sublist
      w.lower :=
    (List.sublist_append_left _ _).append (List.Sublist.refl _)
  refine ⟨h.ordered, fun hnone => absurd (h.unlaunched hnone) hio, h.toGuard, ?_,
    h.routed.streamed (by rw [hlower]; exact hsub) (fun ha => ⟨(halive ha).1, ?_⟩), h.closing,
    h.desked, ?_⟩
  · intro m hm
    rcases List.mem_append.mp hm with hm | hm
    · exact h.fromIo m hm
    · exact (hsilent m hm).1
  · rw [hlower]
    unfold lower
    rw [(halive ha).2]
    simp
  · have hheeded := h.heeded
    refine ⟨hheeded.fromHandles, hheeded.toGuard, ?_, hheeded.toIo, hheeded.timers, hheeded.timer,
      ?_, hheeded.cancels, ?_, hheeded.answered, hheeded.sent⟩
    · intro m hm c hc
      rcases List.mem_append.mp hm with hm | hm
      · exact hheeded.fromIo m hm c hc
      · rw [(hsilent m hm).2.2] at hc
        cases hc
    · intro c hc
      change stage.cancelled = some c at hc
      rw [hstage.2] at hc
      cases hc
    · intro m hm p hp
      rcases List.mem_append.mp hm with hm | hm
      · exact hheeded.reported m hm p hp
      · rw [(hsilent m hm).2.1] at hp
        cases hp

theorem Inv.crashed (h : w.Inv) (hover : w.guard.point.over = false) :
    Inv (w.guarded (w.guard.go .crashed [])) :=
  h.acted (Guard.leaves_go (fun hactive => by cases hactive) (by simp)) hover
    (h.ordered.same (Guard.same_go fun hlaunches => by cases hlaunches)) h.unlaunched

theorem acts_open {t : GuardTurn} (hacts : w.guard.Acts t) : w.guard.point.over = false := by
  cases hacts <;> simp [GuardPoint.over, *]

/-- One step. -/
theorem Inv.step {w' : Relay} (h : w.Inv) (hstep : Step vm codec wording w w') : w'.Inv := by
  cases hstep with
  | call m fresh hrunning hm hfresh =>
    have hother := outside_other hm
    refine h.executed w.toExecution w.fromHandles w.asked fresh hrunning (.other hother.1 (Or.inl hother.2.1))
      (fun p hp => hp) (fun c hc => hc) fun c hc => ?_
    rw [hother.2.2] at hc
    cases hc
  | fromGuard m rest fresh hrunning hmail hfresh =>
    have hguard := h.closing.sent m (by rw [hmail]; exact List.mem_cons_self)
    refine h.executed rest w.fromHandles w.asked fresh hrunning (by rw [hmail]; exact .guard) (fun p hp => hp)
      (fun c hc => hc) fun c hc => ?_
    rw [cancelled_of_fromGuard hguard] at hc
    cases hc
  | fromHandle handle fresh reason hrunning hmail hfresh =>
    refine h.executed w.toExecution (w.fromHandles.erase (handle, reason)) w.asked fresh hrunning
      (.other id (Or.inl rfl)) (fun p hp => List.mem_of_mem_erase hp) (fun c hc => hc) fun c hc => ?_
    cases hc
    exact h.heeded.fromHandles (handle, reason) hmail
  | handleDown handle fresh ref x hrunning hx hdead hcommand hmonitor hfresh =>
    refine h.executed w.toExecution w.fromHandles (w.asked ++ [handle]) fresh hrunning
      (.other id (Or.inl rfl)) (fun p hp => hp) (fun c hc => List.mem_append_left _ hc) fun c hc => ?_
    cases hc
    exact List.mem_append_right _ List.mem_cons_self
  | guardDown reason fresh hrunning hguard hmail hfresh =>
    refine h.executed w.toExecution w.fromHandles w.asked fresh hrunning
      (.other id (Or.inr ⟨hmail, hguard⟩)) (fun p hp => hp) (fun c hc => hc) fun c hc => ?_
    cases hc
  | executionDies =>
    have hdead : ({ w.execution with running := false } : Execution).live = true → False := by
      intro hlive
      cases (live_iff.mp hlive).1
    obtain ⟨c, hc, -⟩ := h.routed.current
    refine ⟨h.ordered, h.unlaunched, h.toGuard, h.fromIo,
      ⟨⟨c, hc, fun hlive => (hdead hlive).elim⟩, h.routed.below, fun hlive => (hdead hlive).elim,
        h.routed.held⟩,
      ⟨h.closing.sent, h.closing.working, fun _ hlive => (hdead hlive).elim, h.closing.terminal⟩,
      ⟨h.desked.begun, fun handle x hx => ⟨(h.desked.desk handle x hx).sent, ?_⟩⟩,
      ⟨h.heeded.fromHandles, h.heeded.toGuard, h.heeded.fromIo, h.heeded.toIo, h.heeded.timers,
        h.heeded.timer, h.heeded.io, h.heeded.cancels, h.heeded.reported, h.heeded.answered,
        h.heeded.sent⟩⟩
    cases (h.desked.desk handle x hx).stage with
    | waiting hstatus hinbox => exact .waiting hstatus hinbox
    | answered result hstatus hinbox hsent => exact .answered result hstatus hinbox hsent
    | orphaned reason hstatus hinbox hsent hdown => exact .orphaned reason hstatus hinbox hsent rfl
  | guardFromExecution before after m hmail htakes hfirst =>
    exact h.received (.execution before after hmail) htakes
  | guardFromIo before after m hmail htakes hfirst =>
    exact h.received (.io before after hmail) htakes
  | guardTimer c hc htakes => exact h.received (.timer c rfl) htakes
  | guardMessage m hm htakes => exact h.received (.outside hm) htakes
  | guardActs t hacts =>
    obtain ⟨hordered, hvmm⟩ := h.ordered.acts hacts
    exact h.acted (Guard.acts_leaves hacts) (acts_open hacts) hordered fun hnone =>
      h.unlaunched (hvmm.symm.trans hnone)
  | launched vmm io osPid contract hpoint => exact h.launched hpoint vmm io osPid contract
  | unlaunched reason hpoint =>
    have hordered := h.ordered.launched hpoint (.error reason)
    exact h.acted (Guard.launched_leaves hpoint _) (by rw [hpoint]; rfl) hordered.1 fun hnone =>
      h.unlaunched (hordered.2 hnone).1
  | guardDies hover => exact h.crashed hover
  | connected contract socket readyMs hio =>
    refine h.stage _ _ (by simp [hio]) (fun m hm => ?_) ⟨rfl, rfl⟩ fun _ => by
      rw [hio]
      exact ⟨rfl, rfl⟩
    rw [List.mem_singleton.mp hm]
    exact ⟨rfl, rfl, rfl⟩
  | unconnected contract reason hio =>
    refine h.stage _ _ (by simp [hio]) (fun m hm => ?_) ⟨rfl, rfl⟩ fun halive => by cases halive
    rw [List.mem_singleton.mp hm]
    exact ⟨rfl, rfl, rfl⟩
  | ioExecutes io opening now c before after hio hidle hmail hfirst =>
    exact h.executes opening now hio hidle hmail hfirst
  | ioReceives io o c m read rest hio hreceiving hcommand hmail hread =>
    refine h.hears rest o read hio hreceiving hcommand (Or.inr ⟨m, hmail⟩) ?_
    rintro reason rfl
    have hm : m ∈ w.toIo := by rw [hmail]; exact List.mem_cons_self
    cases m with
    | execute command =>
      obtain ⟨request, hrequest⟩ := hread
      cases hrequest
    | cancel command sent =>
      obtain ⟨known, -, heq⟩ := hread
      cases heq
      exact h.heeded.toIo _ hm c rfl
  | ioHears io o c m hio hreceiving hcommand hm =>
    refine h.hears w.toIo o m hio hreceiving hcommand (Or.inl rfl) ?_
    rintro reason rfl
    cases hm
  | ioDies hio =>
    have hstage := h.stage .gone [] hio (fun m hm => by cases hm) ⟨rfl, rfl⟩
      fun halive => by cases halive
    rw [List.append_nil] at hstage
    exact hstage
  | handleTurn handle x m hx hrunning hm =>
    refine h.handled hx rfl ((h.desked.desk handle x hx).stage.outside ?_)
    cases m with
    | commandFinished result => cases hm
    | down ref reason => exact if_neg hm.2
    | _ => rfl
  | handleResult handle x result rest hx hrunning hinbox =>
    have hsound := h.desked.desk handle x hx
    exact h.handled (x := x) hx rfl (hsound.stage.takes hinbox hsound.length_sent)
  | vmDown handle x reason hx hrunning hinbox hdown =>
    have hstage := (h.desked.desk handle x hx).stage
    rw [hdown] at hstage
    refine h.handled hx rfl ?_
    rw [hdown]
    exact hstage.vmDown hinbox reason
  | handleDies handle x hx =>
    have hstage := (h.desked.desk handle x hx).stage
    have hdies := h.handled (t := ⟨{ x.process with running := false }, []⟩) hx rfl (by
      cases hstage with
      | waiting hstatus hinbox => exact .waiting hstatus hinbox
      | answered result hstatus hinbox hsent => exact .answered result hstatus hinbox hsent
      | orphaned reason hstatus hinbox hsent hdown =>
        exact .orphaned reason hstatus hinbox hsent hdown)
    unfold Relay.handled at hdies
    simpa [CommandExecution.reasons] using hdies

theorem Inv.start (options : ExecutionOptions) (guard : Pid) (serverMonitor ownerMonitor : Ref)
    (ledgerMonitor : Option Ref) :
    Inv (.start vm options guard serverMonitor ownerMonitor ledgerMonitor) := by
  have hnone : ∀ {m : GuardMessage}, m ∈ ([] : List GuardMessage) → False := fun hm => by cases hm
  refine ⟨⟨fun hne => absurd rfl hne, fun _ => ⟨rfl, rfl⟩⟩, fun _ => rfl, fun m hm => (hnone hm).elim,
    fun m hm => (hnone hm).elim, ⟨⟨none, List.Sublist.refl _, fun _ => rfl⟩, List.Sublist.refl _,
      fun _ _ => rfl, fun _ _ => rfl⟩, ⟨fun m hm => (by cases hm), fun _ m hm => (by cases hm),
      fun hended => (by cases hended), fun hterminal => (by cases hterminal)⟩,
    ⟨fun handle hcommand => (by cases hcommand), fun handle x hx => (by cases hx)⟩, ?_⟩
  exact ⟨fun p hp => (by cases hp), fun m hm => (hnone hm).elim, fun m hm => (hnone hm).elim,
    fun m hm => (by cases hm), fun c hc => (by cases hc), fun htimer => (by cases htimer),
    fun c hc => (by cases hc), fun p hp => (by cases hp), fun m hm => (hnone hm).elim,
    fun m hm => (by cases hm), fun handle x hx => (by cases hx)⟩

/-- The invariant holds throughout every run. -/
theorem Reachable.inv (h : Reachable vm codec wording w) : w.Inv := by
  induction h with
  | start options guard serverMonitor ownerMonitor ledgerMonitor =>
    exact .start options guard serverMonitor ownerMonitor ledgerMonitor
  | step w w' hbefore hstep ih => exact ih.step hstep

end Runs

end Relay

end Sower.Vm
