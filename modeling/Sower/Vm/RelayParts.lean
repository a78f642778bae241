import Sower.Vm.RelayRoutes

/-!
# Handles, the last report, and cancels

Three things that hold of the relay beside the way of a command. A handle has been sent one result
unless the execution still waits for its command. The guard's report is the last that it sends.
And a cancel is on its way, or in force, only for a command that somebody had reason to cancel.
-/

namespace Sower.Vm

open Durable

section Closing

/-- What the guard has sent and the execution has not taken: a report comes last, from a guard
that has ended, and none is left once the execution has taken it. -/
structure Closing (e : Execution) (point : GuardPoint) (mail : List ExecutionMessage) : Prop where
  sent : ∀ m ∈ mail, m.FromGuard
  working : point ≠ .ended → ∀ m ∈ mail, m.report? = none
  ended : point = .ended → e.live = true → ∃ before last, mail = before ++ [last] ∧
    (∀ m ∈ before, m.report? = none) ∧ last.report?.isSome = true
  terminal : e.terminal = true → mail = [] ∧ point.over = true

variable {e : Execution} {point : GuardPoint} {mail rest : List ExecutionMessage}
  {m : ExecutionMessage} {fresh : Pid}

/-- The execution takes the next message of the guard, or one of somebody else. -/
inductive Taken (m : ExecutionMessage) (rest : List ExecutionMessage) (point : GuardPoint) :
    List ExecutionMessage → Prop
  | guard : Taken m rest point (m :: rest)
  | other (hother : ¬ m.FromGuard)
    (hreport : m.report? = none ∨ rest = [] ∧ point.over = true) : Taken m rest point rest

theorem Taken.subset (h : Taken m rest point mail) : ∀ m' ∈ rest, m' ∈ mail := by
  cases h with
  | guard => exact fun m' hm' => List.mem_cons_of_mem m hm'
  | other hother hreport => exact fun m' hm' => hm'

theorem Taken.fromGuard (h : Taken m rest point mail) (hm : m.FromGuard) : mail = m :: rest := by
  cases h with
  | guard => rfl
  | other hother hreport => exact absurd hm hother

theorem Taken.completed (h : Taken m rest point mail) : mail.filterMap (·.completed?) =
    m.completed?.toList ++ rest.filterMap (·.completed?) := by
  cases h with
  | guard => cases hm : m.completed? <;> simp [hm]
  | other hother hreport =>
    cases m with
    | commandFinished command result => exact absurd trivial hother
    | _ => rfl

theorem Closing.live (h : Closing e point mail) (htaken : Taken m rest point mail)
    (hm : m.FromGuard) : e.terminal = false := by
  cases hterminal : e.terminal with
  | false => rfl
  | true =>
    have hnil := (h.terminal hterminal).1
    rw [htaken.fromGuard hm] at hnil
    cases hnil

theorem Closing.executed {t : ExecutionTurn} (h : Closing e point mail) (hrunning : e.running = true)
    (htaken : Taken m rest point mail) (hdoes : e.Does fresh m t) :
    Closing t.state point rest := by
  refine ⟨fun m' hm' => h.sent m' (htaken.subset m' hm'),
    fun hpoint m' hm' => h.working hpoint m' (htaken.subset m' hm'), ?_, ?_⟩
  · intro hended hlive
    obtain ⟨he, hreport⟩ := hdoes.live (live_iff.mp hlive).2
    obtain ⟨before, last, hmail, hbefore, hlast⟩ :=
      h.ended hended (live_iff.mpr ⟨hrunning, he⟩)
    cases htaken with
    | guard =>
      cases before with
      | nil =>
        cases hmail
        rw [hreport] at hlast
        cases hlast
      | cons first before =>
        cases hmail
        exact ⟨before, last, rfl, fun m' hm' => hbefore m' (List.mem_cons_of_mem _ hm'), hlast⟩
    | other hother _ => exact ⟨before, last, hmail, hbefore, hlast⟩
  · intro hterminal
    cases he : e.terminal with
    | true =>
      obtain ⟨hmail, hover⟩ := h.terminal he
      cases htaken with
      | guard => cases hmail
      | other hother hreport => exact ⟨hmail, hover⟩
    | false =>
      have hreport : m.report?.isSome := by
        cases hdoes with
        | keeps hcommand hsame hstill hreport hnews hmail =>
          rw [hsame, he] at hterminal
          cases hterminal
        | begins caller deadlineMs retain hnone hlive hmessage hcommand hfalse hnews hmail =>
          rw [hfalse] at hterminal
          cases hterminal
        | answers c result hmessage hsome hlive hcommand hfalse hnews hmail =>
          rw [hfalse] at hterminal
          cases hterminal
        | ends result hmessage hcommand htrue hnews hmail => exact hmessage.2
      cases htaken with
      | guard =>
        have hended : point = .ended := by
          by_contra hne
          rw [h.working hne m List.mem_cons_self] at hreport
          cases hreport
        obtain ⟨before, last, hmail, hbefore, hlast⟩ :=
          h.ended hended (live_iff.mpr ⟨hrunning, he⟩)
        cases before with
        | nil =>
          cases hmail
          exact ⟨rfl, by rw [hended]; rfl⟩
        | cons first before =>
          cases hmail
          rw [hbefore _ List.mem_cons_self] at hreport
          cases hreport
      | other hother hover =>
        rcases hover with hnone | hover
        · rw [hnone] at hreport
          cases hreport
        · exact hover

/-- The guard sends what it has to say, and its report as the last. -/
def Closes (point : GuardPoint) (sent : List ExecutionMessage) : Prop :=
  (point ≠ .ended ∧ ∀ m ∈ sent, m.report? = none) ∨
    point = .ended ∧ ∃ before last, sent = before ++ [last] ∧ (∀ m ∈ before, m.report? = none) ∧
      last.report?.isSome = true

theorem Closing.guarded {point' : GuardPoint} {sent : List ExecutionMessage}
    (h : Closing e point mail) (hover : point.over = false) (hsent : ∀ m ∈ sent, m.FromGuard)
    (hcloses : Closes point' sent) : Closing e point' (mail ++ sent) := by
  have hopen : point ≠ .ended := by
    rintro rfl
    cases hover
  refine ⟨?_, ?_, ?_, ?_⟩
  · intro m hm
    rcases List.mem_append.mp hm with hm | hm
    · exact h.sent m hm
    · exact hsent m hm
  · intro hpoint m hm
    rcases hcloses with ⟨-, hnone⟩ | ⟨hended, -⟩
    · rcases List.mem_append.mp hm with hm | hm
      · exact h.working hopen m hm
      · exact hnone m hm
    · exact absurd hended hpoint
  · intro hpoint hlive
    rcases hcloses with ⟨hne, -⟩ | ⟨-, before, last, rfl, hbefore, hlast⟩
    · exact absurd hpoint hne
    · refine ⟨mail ++ before, last, (List.append_assoc _ _ _).symm, ?_, hlast⟩
      intro m hm
      rcases List.mem_append.mp hm with hm | hm
      · exact h.working hopen m hm
      · exact hbefore m hm
  · intro hterminal
    have htrue := (h.terminal hterminal).2
    rw [hover] at htrue
    cases htrue

theorem Guard.Leaves.closes {g : Guard} {t : GuardTurn} (h : g.Leaves t) :
    Closes t.state.point (t.effects.filterMap (·.toExecution)) := by
  rcases h.report with hnone | ⟨hended, result, cleanup, hsent⟩
  · exact Or.inl hnone
  · exact Or.inr ⟨hended, [], .vmFinished result cleanup, hsent, fun m hm => (by cases hm), rfl⟩

theorem Guard.Does.closes {g : Guard} {m : GuardMessage} {t : GuardTurn} (h : g.Does m t) :
    (∀ m ∈ t.effects.filterMap (·.toExecution), m.FromGuard) ∧
      Closes t.state.point (t.effects.filterMap (·.toExecution)) := by
  cases h with
  | leaves hleaves hdrop => exact ⟨fun m hm => (hleaves.completed m hm).1, hleaves.closes⟩
  | forwards c hmessage hnone hcommand htimer hpoint htoIo harmed hmail =>
    obtain ⟨changes, hmail⟩ := hmail
    rw [hmail, hpoint.2]
    refine ⟨fun m hm => ?_, Or.inl ⟨by simp, fun m hm => ?_⟩⟩
    · rw [List.mem_singleton.mp hm]
      trivial
    · rw [List.mem_singleton.mp hm]
      rfl
  | cancels c reason hmessage hsome hcommand hpoint htoIo harmed hmail =>
    rw [hmail, hpoint.2]
    exact ⟨fun m hm => (by cases hm), Or.inl ⟨by simp, fun m hm => (by cases hm)⟩⟩
  | completes c result g' t' hmessage hsome hcommand htimer hpoint hleaves hstate heffects =>
    have hsent : t.effects.filterMap (·.toExecution) =
        .commandFinished c result :: t'.effects.filterMap (·.toExecution) := by
      rw [heffects]
      rfl
    rw [hsent, hstate]
    refine ⟨fun m hm => ?_, ?_⟩
    · rcases List.mem_cons.mp hm with rfl | hm
      · trivial
      · exact (hleaves.completed m hm).1
    · rcases hleaves.closes with ⟨hne, hnone⟩ | ⟨hended, before, last, hlist, hbefore, hlast⟩
      · refine Or.inl ⟨hne, fun m hm => ?_⟩
        rcases List.mem_cons.mp hm with rfl | hm
        · rfl
        · exact hnone m hm
      · refine Or.inr ⟨hended, .commandFinished c result :: before, last, by rw [hlist]; rfl, ?_, hlast⟩
        intro m hm
        rcases List.mem_cons.mp hm with rfl | hm
        · rfl
        · exact hbefore m hm

end Closing

section Desks

/-- How far a handle is with what the execution has sent it. -/
inductive Desk.Stage (running : Bool) (x : Desk) : Prop
  | waiting (hstatus : x.process.status = .running) (hinbox : x.inbox = x.sent)
  | answered (result : Result) (hstatus : x.process.status = .finished result)
    (hinbox : x.inbox = []) (hsent : x.sent = [result])
  /-- The execution has ended before the command. -/
  | orphaned (reason : Term) (hstatus : x.process.status = .finished (CommandExecution.vmDown reason))
    (hinbox : x.inbox = []) (hsent : x.sent = []) (hdown : running = false)

/-- A handle has been sent nothing while the execution waits for its command, and then one result. -/
structure Desk.Sound (e : Execution) (h : Pid) (x : Desk) : Prop where
  sent : e.command = some h ∧ x.sent = [] ∨ e.command ≠ some h ∧ ∃ result, x.sent = [result]
  stage : x.Stage e.running

/-- The handles, and the one that the execution waits for among them. -/
structure Desked (e : Execution) (desks : Desks) : Prop where
  begun : ∀ h, e.command = some h → desks h ≠ none
  desk : ∀ h x, desks h = some x → x.Sound e h

variable {e : Execution} {desks : Desks} {m : ExecutionMessage} {fresh vm h : Pid} {x : Desk}

theorem Desk.Stage.alive (hstage : x.Stage true) (running : Bool) : x.Stage running := by
  cases hstage with
  | waiting hstatus hinbox => exact .waiting hstatus hinbox
  | answered result hstatus hinbox hsent => exact .answered result hstatus hinbox hsent
  | orphaned reason hstatus hinbox hsent hdown => cases hdown

/-- The handle of the current command is sent its result. -/
theorem Desked.told {e' : Execution} {result : Result} (hdesks : Desked e desks)
    (hrunning : e.running = true) (hcommand : e.command = some h) (hnone : e'.command = none) :
    Desked e' (Desks.tell vm desks (h, .finished result)) := by
  refine ⟨fun h' hh' => (by rw [hnone] at hh'; cases hh'), ?_⟩
  intro h' x' hx'
  have hfree : e'.command ≠ some h' := by
    rw [hnone]
    simp
  by_cases hsame : h' = h
  · rw [hsame] at hx'
    have hx' : (desks h).map (fun x => x.send result) = some x' := by
      simpa [Desks.tell] using hx'
    obtain ⟨x, hx, rfl⟩ := Option.map_eq_some_iff.mp hx'
    have hsound := hdesks.desk h x hx
    have hsent : x.sent = [] := by
      rcases hsound.sent with ⟨-, hnil⟩ | ⟨hne, -⟩
      · exact hnil
      · exact absurd hcommand hne
    refine ⟨Or.inr ⟨hfree, result, ?_⟩, ?_⟩
    · change x.sent ++ [result] = [result]
      rw [hsent]
      rfl
    · have hstage := hsound.stage
      rw [hrunning] at hstage
      cases hstage with
      | waiting hstatus hinbox =>
        refine .waiting hstatus ?_
        change x.inbox ++ [result] = x.sent ++ [result]
        rw [hinbox]
      | answered known hstatus hinbox hknown =>
        rw [hsent] at hknown
        cases hknown
      | orphaned reason hstatus hinbox hnil hdown => cases hdown
  · have hx : desks h' = some x' := by
      simpa [Desks.tell, Function.update_of_ne hsame] using hx'
    have hsound := hdesks.desk h' x' hx
    refine ⟨Or.inr ⟨hfree, ?_⟩, ?_⟩
    · rcases hsound.sent with ⟨hother, -⟩ | ⟨-, hone⟩
      · rw [hcommand] at hother
        exact absurd (Option.some.inj hother).symm hsame
      · exact hone
    · have hstage := hsound.stage
      rw [hrunning] at hstage
      exact hstage.alive _

/-- The execution does nothing about handles. -/
theorem Desked.same {e' : Execution} (hdesks : Desked e desks) (hrunning : e.running = true)
    (hcommand : e'.command = e.command) : Desked e' desks := by
  refine ⟨fun h' hh' => hdesks.begun h' (hcommand.symm.trans hh'), fun h' x' hx' => ?_⟩
  have hsound := hdesks.desk h' x' hx'
  have hstage := hsound.stage
  rw [hrunning] at hstage
  refine ⟨?_, hstage.alive _⟩
  rw [hcommand]
  exact hsound.sent

/-- A handle is started for a command. -/
theorem Desked.began {e' : Execution} {caller : Pid} {deadlineMs : ℕ} {retain : Bool}
    (hdesks : Desked e desks) (hrunning : e.running = true) (hnone : e.command = none)
    (hcommand : e'.command = some fresh) :
    Desked e' (Desks.tell vm desks (fresh, .started caller deadlineMs retain)) := by
  refine ⟨fun h' hh' => ?_, fun h' x' hx' => ?_⟩
  · rw [hcommand] at hh'
    cases hh'
    simp [Desks.tell]
  · by_cases hsame : h' = fresh
    · rw [hsame] at hx' ⊢
      have hnew : some { process := (CommandExecution.start vm caller deadlineMs retain).state } =
          some x' := by simpa [Desks.tell] using hx'
      cases hnew
      exact ⟨Or.inl ⟨hcommand, rfl⟩, .waiting rfl rfl⟩
    · have hx : desks h' = some x' := by
        simpa [Desks.tell, Function.update_of_ne hsame] using hx'
      have hsound := hdesks.desk h' x' hx
      have hstage := hsound.stage
      rw [hrunning] at hstage
      refine ⟨Or.inr ⟨?_, ?_⟩, hstage.alive _⟩
      · rw [hcommand]
        exact fun heq => hsame (Option.some.inj heq).symm
      · rcases hsound.sent with ⟨hother, -⟩ | ⟨-, hone⟩
        · rw [hnone] at hother
          cases hother
        · exact hone

theorem Desked.executed {t : ExecutionTurn} (hdesks : Desked e desks) (hrunning : e.running = true)
    (hdoes : e.Does fresh m t) :
    Desked t.state ((t.effects.filterMap (·.news)).foldl (Desks.tell vm) desks) := by
  cases hdoes with
  | keeps hcommand hterminal hstill hreport hnews hmail =>
    rw [hnews]
    exact hdesks.same hrunning hcommand
  | begins caller deadlineMs retain hnone hlive hmessage hcommand hterminal hnews hmail =>
    rw [hnews]
    change Desked t.state (Desks.tell vm desks (fresh, .started caller deadlineMs retain))
    exact hdesks.began hrunning hnone hcommand
  | answers c result hmessage hsome hlive hcommand hterminal hnews hmail =>
    rw [hnews]
    change Desked t.state (Desks.tell vm desks (c, .finished result))
    exact hdesks.told hrunning hsome hcommand
  | ends result hmessage hcommand hterminal hnews hmail =>
    rw [hnews]
    cases hknown : e.command with
    | none => exact hdesks.same hrunning (hcommand.trans hknown.symm)
    | some c =>
      change Desked t.state (Desks.tell vm desks (c, .finished result))
      exact hdesks.told hrunning hknown hcommand

/-- A handle takes a turn. -/
theorem Desked.handled {x' : Desk} (hdesks : Desked e desks) (hx : desks h = some x)
    (hsent : x'.sent = x.sent) (hstage : x'.Stage e.running) :
    Desked e (Function.update desks h (some x')) := by
  refine ⟨fun h' hh' => ?_, fun h' y hy => ?_⟩
  · by_cases hsame : h' = h
    · rw [hsame]
      simp
    · rw [Function.update_of_ne hsame]
      exact hdesks.begun h' hh'
  · by_cases hsame : h' = h
    · rw [hsame] at hy ⊢
      rw [Function.update_self] at hy
      cases hy
      refine ⟨?_, hstage⟩
      rw [hsent]
      exact (hdesks.desk h x hx).sent
    · rw [Function.update_of_ne hsame] at hy
      exact hdesks.desk h' y hy

/-- A message without a result. -/
theorem Desk.Stage.outside {running : Bool} {m : CommandMessage} (hstage : x.Stage running)
    (hm : x.process.outcome? m = none) :
    Desk.Stage running { x with process := (x.process.handle m).state } := by
  cases hstage with
  | waiting hstatus hinbox =>
    exact .waiting (CommandExecution.handle_without_outcome hstatus hm) hinbox
  | answered result hstatus hinbox hsent =>
    exact .answered result (CommandExecution.handle_of_finished hstatus).1 hinbox hsent
  | orphaned reason hstatus hinbox hsent hdown =>
    exact .orphaned reason (CommandExecution.handle_of_finished hstatus).1 hinbox hsent hdown

/-- The handle takes the result that it was sent. -/
theorem Desk.Stage.takes {running : Bool} {result : Result} {rest : List Result}
    (hstage : x.Stage running) (hinbox : x.inbox = result :: rest) (hone : x.sent.length ≤ 1) :
    Desk.Stage running
      { x with inbox := rest, process := (x.process.handle (.commandFinished result)).state } := by
  cases hstage with
  | waiting hstatus hsame =>
    have hlist : x.sent = result :: rest := hsame.symm.trans hinbox
    have hrest : rest = [] := by
      rw [hlist] at hone
      simpa using hone
    have hsent : x.sent = [result] := by rw [hlist, hrest]
    exact .answered result (CommandExecution.handle_outcome hstatus rfl).1 hrest hsent
  | answered known hstatus hnil hsent =>
    rw [hnil] at hinbox
    cases hinbox
  | orphaned reason hstatus hnil hsent hdown =>
    rw [hnil] at hinbox
    cases hinbox

/-- The handle hears that the execution has ended. -/
theorem Desk.Stage.vmDown (hstage : x.Stage false) (hinbox : x.inbox = []) (reason : Term) :
    Desk.Stage false { x with
      process := (x.process.handle (.down x.process.vmMonitor reason)).state } := by
  cases hstage with
  | waiting hstatus hsame =>
    have houtcome : x.process.outcome? (.down x.process.vmMonitor reason) =
        some (CommandExecution.vmDown reason) := if_pos rfl
    exact .orphaned reason (CommandExecution.handle_outcome hstatus houtcome).1 hinbox
      (hsame.symm.trans hinbox) rfl
  | answered result hstatus hnil hsent =>
    exact .answered result (CommandExecution.handle_of_finished hstatus).1 hinbox hsent
  | orphaned known hstatus hnil hsent hdown =>
    exact .orphaned known (CommandExecution.handle_of_finished hstatus).1 hinbox hsent rfl

theorem Desk.Sound.length_sent (hsound : x.Sound e h) : x.sent.length ≤ 1 := by
  rcases hsound.sent with ⟨-, hnil⟩ | ⟨-, result, hone⟩
  · rw [hnil]
    exact Nat.zero_le 1
  · rw [hone]
    exact Nat.le_refl 1

/-- What a handle has been sent was sent to it before, or is sent now. -/
theorem told_sent (news : List (Pid × News)) {result : Result}
    (hx : news.foldl (Desks.tell vm) desks h = some x) (hresult : result ∈ x.sent) :
    (∃ x₀, desks h = some x₀ ∧ result ∈ x₀.sent) ∨ (h, .finished result) ∈ news := by
  induction news generalizing desks with
  | nil => exact Or.inl ⟨x, hx, hresult⟩
  | cons first rest ih =>
    rcases ih hx with ⟨x₀, hx₀, hmem⟩ | hmem
    · obtain ⟨h', news⟩ := first
      by_cases hsame : h = h'
      · rw [← hsame] at hx₀ ⊢
        cases news with
        | started caller deadlineMs retain =>
          have hnew : some { process := (CommandExecution.start vm caller deadlineMs retain).state }
              = some x₀ := by simpa [Desks.tell] using hx₀
          cases hnew
          cases hmem
        | finished last =>
          have hmap : (desks h).map (fun x => x.send last) = some x₀ := by
            simpa [Desks.tell] using hx₀
          obtain ⟨x₁, hx₁, rfl⟩ := Option.map_eq_some_iff.mp hmap
          rcases List.mem_append.mp hmem with hold | hlast
          · exact Or.inl ⟨x₁, hx₁, hold⟩
          · rw [List.mem_singleton.mp hlast]
            exact Or.inr List.mem_cons_self
      · left
        refine ⟨x₀, ?_, hmem⟩
        cases news with
        | started caller deadlineMs retain =>
          simpa [Desks.tell, Function.update_of_ne hsame] using hx₀
        | finished last => simpa [Desks.tell, Function.update_of_ne hsame] using hx₀
    · exact Or.inr (List.mem_cons_of_mem _ hmem)

end Desks

section Heeding

/-- Cancels that are on their way or in force are of commands that somebody had reason to cancel,
and what handles have been sent was reported of their own commands, or tells of the end. -/
structure Heeded (w : Relay) : Prop where
  fromHandles : ∀ p ∈ w.fromHandles, p.1 ∈ w.asked
  toGuard : ∀ m ∈ w.toGuard, ∀ c, m.cancelled? = some c → c ∈ w.asked
  fromIo : ∀ m ∈ w.fromIo, ∀ c, m.cancelled? = some c → c ∈ w.asked
  toIo : ∀ m ∈ w.toIo, ∀ c, m.cancelled? = some c → c ∈ w.asked
  timers : ∀ c ∈ w.timers, c ∈ w.asked
  timer : w.guard.cancelTimer = true → ∃ c, w.guard.command = some c ∧ c ∈ w.asked
  io : ∀ c, w.io.cancelled = some c → c ∈ w.asked
  cancels : ∀ p ∈ w.completions, p.2.Cancels → p.1 ∈ w.asked
  reported : ∀ m ∈ w.fromIo, ∀ p, m.result? = some p → p ∈ w.completions
  answered : ∀ m ∈ w.toExecution, ∀ p, m.result? = some p → p ∈ w.completions
  sent : ∀ h x, w.desks h = some x → ∀ result ∈ x.sent,
    (h, result) ∈ w.completions ∨ w.execution.terminal = true

variable {w : Relay} {wording : Wording} {vm : Pid}

theorem Heeded.executed {m : ExecutionMessage} {rest : List ExecutionMessage}
    {fromHandles : List (Pid × Term)} {asked : List Pid} {fresh : Pid} {t : ExecutionTurn}
    (h : Heeded w) (htaken : Taken m rest w.guard.point w.toExecution)
    (hhandles : ∀ p ∈ fromHandles, p ∈ w.fromHandles) (hasked : ∀ c ∈ w.asked, c ∈ asked)
    (hm : ∀ c, m.cancelled? = some c → c ∈ asked) (hdoes : w.execution.Does fresh m t) :
    Heeded (Relay.executed
      { w with toExecution := rest, fromHandles := fromHandles, asked := asked } vm t) := by
  refine ⟨fun p hp => hasked _ (h.fromHandles p (hhandles p hp)), ?_,
    fun m hm c hc => hasked c (h.fromIo m hm c hc), fun m hm c hc => hasked c (h.toIo m hm c hc),
    fun c hc => hasked c (h.timers c hc), ?_, fun c hc => hasked c (h.io c hc),
    fun p hp hcancels => hasked _ (h.cancels p hp hcancels), h.reported,
    fun m' hm' => h.answered m' (htaken.subset m' hm'), ?_⟩
  · intro g hg c hc
    rcases List.mem_append.mp hg with hg | hg
    · exact hasked c (h.toGuard g hg c hc)
    · cases hdoes with
      | keeps hcommand hterminal hstill hreport hnews hmail => exact hm c ((hmail g hg).2.2 c hc)
      | begins caller deadlineMs retain hnone hlive hmessage hcommand hterminal hnews hmail =>
        rw [hmail] at hg
        rw [List.mem_singleton.mp hg] at hc
        cases hc
      | answers c' result hmessage hsome hlive hcommand hterminal hnews hmail =>
        rw [hmail] at hg
        cases hg
      | ends result hmessage hcommand hterminal hnews hmail =>
        rw [hmail] at hg
        cases hg
  · intro htimer
    obtain ⟨c, hcommand, hc⟩ := h.timer htimer
    exact ⟨c, hcommand, hasked c hc⟩
  · intro handle x hx result hresult
    have hold : w.execution.terminal = true → t.state.terminal = true := by
      intro hterminal
      by_contra hne
      have hlive := (hdoes.live (by simpa using hne)).1
      rw [hterminal] at hlive
      cases hlive
    rcases told_sent _ hx hresult with ⟨x₀, hx₀, hmem⟩ | hnew
    · rcases h.sent handle x₀ hx₀ result hmem with hdone | hterminal
      · exact Or.inl hdone
      · exact Or.inr (hold hterminal)
    · cases hdoes with
      | keeps hcommand hterminal hstill hreport hnews hmail =>
        rw [hnews] at hnew
        cases hnew
      | begins caller deadlineMs retain hnone hlive hmessage hcommand hterminal hnews hmail =>
        rw [hnews] at hnew
        cases List.mem_singleton.mp hnew
      | answers c' result' hmessage hsome hlive hcommand hterminal hnews hmail =>
        rw [hnews] at hnew
        cases List.mem_singleton.mp hnew
        have hguard : m.FromGuard := by
          rw [hmessage]
          trivial
        refine Or.inl (h.answered m ?_ _ (by rw [hmessage]; rfl))
        rw [htaken.fromGuard hguard]
        exact List.mem_cons_self
      | ends result' hmessage hcommand hterminal hnews hmail => exact Or.inr hterminal

/-- The guard takes one of these messages. -/
theorem Heeded.guarded {m : GuardMessage} {t : GuardTurn} {toGuard fromIo : List GuardMessage}
    {timers : List Pid} (h : Heeded w) (htoGuard : ∀ m ∈ toGuard, m ∈ w.toGuard)
    (hfromIo : ∀ m ∈ fromIo, m ∈ w.fromIo) (htimers : ∀ c ∈ timers, c ∈ w.timers)
    (hm : ∀ c, m.cancelled? = some c → c ∈ w.asked)
    (hresult : ∀ p, m.result? = some p → p ∈ w.completions) (hdoes : w.guard.Does m t) :
    Heeded (Relay.guarded
      { w with toGuard := toGuard, fromIo := fromIo, timers := timers } t) := by
  have hmessages : (∀ m' ∈ t.effects.filterMap (·.toIo), ∀ c, m'.cancelled? = some c → c ∈ w.asked) ∧
      (∀ c ∈ t.effects.filterMap (·.timer), c ∈ w.asked) ∧
      (t.state.cancelTimer = true → ∃ c, t.state.command = some c ∧ c ∈ w.asked) ∧
      ∀ m' ∈ t.effects.filterMap (·.toExecution), ∀ p, m'.result? = some p →
        p ∈ w.completions := by
    have hsilent : ∀ {m' : ExecutionMessage} {p : Pid × Result}, m'.completed? = none →
        m'.result? = some p → p ∈ w.completions := by
      intro m' p hnone hsome
      unfold ExecutionMessage.completed? at hnone
      rw [hsome] at hnone
      cases hnone
    cases hdoes with
    | leaves hleaves hdrop =>
      refine ⟨?_, ?_, ?_, fun m' hm' p hp => hsilent (hleaves.completed m' hm').2 hp⟩
      · rw [hleaves.toIo]
        exact fun m' hm' => by cases hm'
      · rw [hleaves.timer]
        exact fun c hc => by cases hc
      · rw [hleaves.cancelTimer, hleaves.command]
        exact h.timer
    | forwards c hmessage hnone hcommand htimer hpoint htoIo harmed hmail =>
      obtain ⟨changes, hmail⟩ := hmail
      refine ⟨?_, ?_, ?_, ?_⟩
      · rw [htoIo]
        intro m' hm' c' hc'
        rw [List.mem_singleton.mp hm'] at hc'
        cases hc'
      · rw [harmed]
        exact fun c hc => by cases hc
      · rw [htimer]
        intro hset
        obtain ⟨c', hc', -⟩ := h.timer hset
        rw [hnone] at hc'
        cases hc'
      · rw [hmail]
        intro m' hm' p hp
        rw [List.mem_singleton.mp hm'] at hp
        cases hp
    | cancels c reason hmessage hsome hcommand hpoint htoIo harmed hmail =>
      have hc : c ∈ w.asked := hm c (by rw [hmessage]; rfl)
      refine ⟨?_, ?_, fun _ => ⟨c, hcommand, hc⟩, ?_⟩
      · rw [htoIo]
        intro m' hm' c' hc'
        rw [List.mem_singleton.mp hm'] at hc'
        cases hc'
        exact hc
      · intro c' hc'
        rw [harmed c' hc']
        exact hc
      · rw [hmail]
        exact fun m' hm' => by cases hm'
    | completes c result g' t' hmessage hsome hcommand htimer hpoint hleaves hstate heffects =>
      refine ⟨?_, ?_, ?_, ?_⟩
      · have htoIo : t.effects.filterMap (·.toIo) = [] := by
          rw [heffects]
          exact hleaves.toIo
        rw [htoIo]
        exact fun m' hm' => by cases hm'
      · have harmed : t.effects.filterMap (·.timer) = [] := by
          rw [heffects]
          exact hleaves.timer
        rw [harmed]
        exact fun c hc => by cases hc
      · rw [hstate, hleaves.cancelTimer, htimer]
        exact fun hset => by cases hset
      · have hmail : t.effects.filterMap (·.toExecution) =
            .commandFinished c result :: t'.effects.filterMap (·.toExecution) := by
          rw [heffects]
          rfl
        rw [hmail]
        intro m' hm' p hp
        rcases List.mem_cons.mp hm' with rfl | hm'
        · exact hresult p (by rw [hmessage]; exact hp)
        · exact hsilent (hleaves.completed m' hm').2 hp
  obtain ⟨htoIo, harmed, htimer, hmail⟩ := hmessages
  refine ⟨h.fromHandles, fun m hm => h.toGuard m (htoGuard m hm),
    fun m hm => h.fromIo m (hfromIo m hm), ?_, ?_, htimer, h.io, h.cancels,
    fun m hm => h.reported m (hfromIo m hm), ?_, h.sent⟩
  · intro m' hm'
    rcases List.mem_append.mp hm' with hm' | hm'
    · exact h.toIo m' hm'
    · exact htoIo m' hm'
  · intro c hc
    rcases List.mem_append.mp hc with hc | hc
    · exact h.timers c (htimers c hc)
    · exact harmed c hc
  · intro m' hm'
    rcases List.mem_append.mp hm' with hm' | hm'
    · exact h.answered m' hm'
    · exact hmail m' hm'

/-- Nothing but a cancel has the result of a command say that it was cancelled. -/
theorem cancels_outcome {result : Except Streaming.CommandError Streaming.Result}
    (h : (wording.outcome result).Cancels) :
    ∃ reason, result = .error (.cancelled reason) := by
  obtain ⟨reason, hreason⟩ := h
  cases result with
  | ok value => cases hreason
  | error error =>
    cases error with
    | cancelled known => exact ⟨known, rfl⟩
    | guest message => cases reason <;> cases hreason

/-- The process that talks to the guest takes a turn, in which it says of its own command that it
was cancelled only if somebody asked for it. -/
theorem Heeded.streamed {t : Streaming.Io × List (Streaming.Act Term)} {toIo : List IoMessage}
    (h : Heeded w) (htoIo : ∀ m ∈ toIo, m ∈ w.toIo)
    (hio : ∀ c, (IoStage.up t.1).cancelled = some c → c ∈ w.asked)
    (hresults : ∀ c result, .commandFinished c result ∈ t.2.filterMap (·.report?) →
      ∀ reason, result = .error (.cancelled reason) → c ∈ w.asked) :
    Heeded (Relay.streamed { w with toIo := toIo } wording t) := by
  have hlater : ∀ c ∈ w.asked, c ∈ (Relay.streamed { w with toIo := toIo } wording t).asked :=
    fun c hc => List.mem_append_left _ hc
  refine ⟨fun p hp => hlater _ (h.fromHandles p hp), fun m hm c hc => hlater c (h.toGuard m hm c hc),
    ?_, fun m hm c hc => hlater c (h.toIo m (htoIo m hm) c hc), fun c hc => hlater c (h.timers c hc),
    ?_, fun c hc => hlater c (hio c hc), ?_, ?_,
    fun m hm p hp => List.mem_append_left _ (h.answered m hm p hp), ?_⟩
  · intro m hm c hc
    rcases List.mem_append.mp hm with hm | hm
    · exact hlater c (h.fromIo m hm c hc)
    · exact List.mem_append_right _ (List.mem_filterMap.mpr ⟨m, hm, hc⟩)
  · intro htimer
    obtain ⟨c, hcommand, hc⟩ := h.timer htimer
    exact ⟨c, hcommand, hlater c hc⟩
  · intro p hp hcancels
    rcases List.mem_append.mp hp with hp | hp
    · exact hlater _ (h.cancels p hp hcancels)
    · obtain ⟨m, hm, hresult⟩ := List.mem_filterMap.mp hp
      obtain ⟨report, hreport, rfl⟩ := List.mem_map.mp hm
      cases report with
      | finish failure => cases hresult
      | cancelCommand c reason => cases hresult
      | commandFinished c result =>
        cases hresult
        obtain ⟨reason, hreason⟩ := cancels_outcome hcancels
        exact hlater _ (hresults c result hreport reason hreason)
  · intro m hm p hp
    rcases List.mem_append.mp hm with hm | hm
    · exact List.mem_append_left _ (h.reported m hm p hp)
    · exact List.mem_append_right _ (List.mem_filterMap.mpr ⟨m, hm, hp⟩)
  · intro handle x hx result hresult
    rcases h.sent handle x hx result hresult with hdone | hterminal
    · exact Or.inl (List.mem_append_left _ hdone)
    · exact Or.inr hterminal

/-- A handle takes a turn, and may ask for its command to be cancelled. -/
theorem Heeded.handled {handle : Pid} {x x' : Desk} {t : CommandTurn} (h : Heeded w)
    (hx : w.desks handle = some x) (hsent : x'.sent = x.sent) :
    Heeded (w.handled handle x' t) := by
  have hlater : ∀ c ∈ w.asked, c ∈ (w.handled handle x' t).asked :=
    fun c hc => List.mem_append_left _ hc
  refine ⟨?_, fun m hm c hc => hlater c (h.toGuard m hm c hc),
    fun m hm c hc => hlater c (h.fromIo m hm c hc), fun m hm c hc => hlater c (h.toIo m hm c hc),
    fun c hc => hlater c (h.timers c hc), ?_, fun c hc => hlater c (h.io c hc),
    fun p hp hcancels => hlater _ (h.cancels p hp hcancels), h.reported, h.answered, ?_⟩
  · intro p hp
    rcases List.mem_append.mp hp with hp | hp
    · exact hlater _ (h.fromHandles p hp)
    · obtain ⟨reason, hreason, rfl⟩ := List.mem_map.mp hp
      exact List.mem_append_right _ (List.mem_map.mpr ⟨reason, hreason, rfl⟩)
  · intro htimer
    obtain ⟨c, hcommand, hc⟩ := h.timer htimer
    exact ⟨c, hcommand, hlater c hc⟩
  · intro h' y hy result hresult
    change Function.update w.desks handle _ h' = some y at hy
    by_cases hsame : h' = handle
    · rw [hsame, Function.update_self] at hy
      cases hy
      rw [hsame]
      refine h.sent handle x hx result ?_
      rw [← hsent]
      exact hresult
    · rw [Function.update_of_ne hsame] at hy
      exact h.sent h' y hy result hresult

end Heeding

end Sower.Vm
