import Sower.Vm.Relay

/-!
# Where a command is

A command that the execution waits for is in one place: on its way to the guard, with the guard,
or on its way back; and a command that the guard waits for is on its way to the process that
talks to the guest, with that process, or on its way back. It gets lost only when the process
that has it ends, or when the guard has begun to stop the virtual machine.
-/

namespace Sower.Vm

open Durable

section Alone

variable {α : Type} {a b l : List α} {x : α} {o : Option α}

/-- A list with at most one element, which is this one. -/
theorem alone (h : (a ++ x :: b).Sublist o.toList) : o = some x ∧ a = [] ∧ b = [] := by
  have hlength := h.length_le
  cases o with
  | none => simp at hlength
  | some y =>
    have hnil : a.length + b.length = 0 := by
      simp only [List.length_append, List.length_cons, Option.toList_some, List.length_nil]
        at hlength
      omega
    have ha : a = [] := List.eq_nil_of_length_eq_zero (by omega)
    have hb : b = [] := List.eq_nil_of_length_eq_zero (by omega)
    rw [ha, hb] at h
    have hx : x ∈ [y] := h.subset List.mem_cons_self
    rw [List.mem_singleton.mp hx]
    exact ⟨rfl, ha, hb⟩

end Alone

section Routes

/-- The execution takes messages, and the virtual machine has not ended. -/
def Execution.live (e : Execution) : Bool := e.running && !e.terminal

/-- Commands between the execution and the guard, and with the guard. -/
def Relay.upper (w : Relay) : List Pid :=
  w.toGuard.filterMap (·.executed?) ++ w.guard.command.toList ++
    w.toExecution.filterMap (·.completed?)

/-- Commands between the guard and the process that talks to the guest, and with that. -/
def Relay.lower (w : Relay) : List Pid :=
  w.toIo.filterMap (·.executed?) ++ w.io.command.toList ++ w.fromIo.filterMap (·.completed?)

/-- The commands in flight. -/
def Relay.inFlight (w : Relay) : List Pid := w.upper ++ w.lower

/-- At most one command is on either side of the guard, and it is the one that the side above
waits for. While nobody has ended, it is there. -/
structure Routed (e : Execution) (g : Guard) (alive : Bool) (upper lower : List Pid) : Prop where
  current : ∃ c : Option Pid, upper.Sublist c.toList ∧ (e.live = true → c = e.command)
  below : lower.Sublist g.command.toList
  kept : e.live = true → g.point.active = true → upper = e.command.toList
  held : g.point.active = true → alive = true → lower = g.command.toList

variable {e : Execution} {g : Guard} {alive : Bool} {upper lower : List Pid}

theorem live_iff : e.live = true ↔ e.running = true ∧ e.terminal = false := by
  unfold Execution.live
  simp

/-- A turn of the execution: a command may get on its way, and one may come back. -/
theorem Routed.executed {a b c : List Pid} {m : ExecutionMessage} {fresh : Pid} {t : ExecutionTurn}
    (h : Routed e g alive (a ++ b ++ (m.completed?.toList ++ c)) lower)
    (hrunning : e.running = true) (hdoes : e.Does fresh m t) :
    Routed t.state g alive
      ((a ++ (t.effects.filterMap (·.toGuard)).filterMap (·.executed?)) ++ b ++ c) lower := by
  obtain ⟨known, hknown, hcurrent⟩ := h.current
  cases hdoes with
  | keeps hcommand hterminal hstill hreport hnews hmail =>
    have hexecuted : (t.effects.filterMap (·.toGuard)).filterMap (·.executed?) = [] :=
      List.filterMap_eq_nil_iff.mpr fun g hg => (hmail g hg).1
    rw [hexecuted, List.append_nil]
    have hlive : t.state.live = true → e.live = true ∧ m.completed? = none := by
      intro hl
      obtain ⟨hl, ht⟩ := live_iff.mp hl
      exact ⟨live_iff.mpr ⟨hrunning, hterminal.symm.trans ht⟩, hstill hl⟩
    have hsub : (a ++ b ++ c).Sublist (a ++ b ++ (m.completed?.toList ++ c)) :=
      (List.Sublist.refl _).append (List.sublist_append_right _ _)
    refine ⟨⟨known, hsub.trans hknown, fun hl => ?_⟩, h.below, fun hl hactive => ?_, h.held⟩
    · rw [hcommand]
      exact hcurrent (hlive hl).1
    · have hkept := h.kept (hlive hl).1 hactive
      rw [(hlive hl).2] at hkept
      rw [hcommand]
      exact hkept
  | begins caller deadlineMs retain hnone hlive hmessage hcommand hterminal hnews hmail =>
    have hempty : a ++ b ++ (m.completed?.toList ++ c) = [] := by
      rw [hcurrent (live_iff.mpr ⟨hrunning, hlive⟩), hnone] at hknown
      exact List.sublist_nil.mp hknown
    obtain ⟨hab, hc⟩ := List.append_eq_nil_iff.mp hempty
    obtain ⟨ha, hb⟩ := List.append_eq_nil_iff.mp hab
    have hupper : (a ++ (t.effects.filterMap (·.toGuard)).filterMap (·.executed?)) ++ b ++ c =
        t.state.command.toList := by
      rw [hmail, ha, hb, (List.append_eq_nil_iff.mp hc).2, hcommand]
      rfl
    rw [hupper]
    exact ⟨⟨t.state.command, List.Sublist.refl _, fun _ => rfl⟩, h.below, fun _ _ => rfl, h.held⟩
  | answers c' result hmessage hsome hlive hcommand hterminal hnews hmail =>
    rw [hmessage] at hknown
    obtain ⟨-, hab, hc⟩ := alone hknown
    have hupper : (a ++ (t.effects.filterMap (·.toGuard)).filterMap (·.executed?)) ++ b ++ c = [] := by
      rw [hmail, (List.append_eq_nil_iff.mp hab).1, (List.append_eq_nil_iff.mp hab).2]
      exact hc
    rw [hupper]
    refine ⟨⟨none, List.Sublist.refl _, fun _ => hcommand.symm⟩, h.below, fun _ _ => ?_, h.held⟩
    rw [hcommand]
    rfl
  | ends result hmessage hcommand hterminal hnews hmail =>
    have hdead : t.state.live = true → False := by
      intro hl
      have hfalse := (live_iff.mp hl).2
      rw [hterminal] at hfalse
      cases hfalse
    rw [hmail, List.filterMap_nil, List.append_nil]
    rw [hmessage.1] at hknown
    exact ⟨⟨known, hknown, fun hl => (hdead hl).elim⟩, h.below, fun hl => (hdead hl).elim, h.held⟩

/-- A turn of the guard: a command may go down, and its result may come up. -/
theorem Routed.guarded {a a' x y b b' z : List Pid} {m : GuardMessage} {t : GuardTurn}
    (h : Routed e g alive (a ++ m.executed?.toList ++ a' ++ g.command.toList ++ z)
      (x ++ y ++ (b ++ m.completed?.toList ++ b'))) (hdoes : g.Does m t) :
    Routed e t.state alive
      (a ++ a' ++ t.state.command.toList ++
        (z ++ (t.effects.filterMap (·.toExecution)).filterMap (·.completed?)))
      ((x ++ (t.effects.filterMap (·.toIo)).filterMap (·.executed?)) ++ y ++ (b ++ b')) := by
  obtain ⟨known, hknown, hcurrent⟩ := h.current
  cases hdoes with
  | leaves hleaves hdrop =>
    have hcompleted : (t.effects.filterMap (·.toExecution)).filterMap (·.completed?) = [] :=
      List.filterMap_eq_nil_iff.mpr fun m hm => (hleaves.completed m hm).2
    rw [hcompleted, hleaves.toIo, List.filterMap_nil, List.append_nil, List.append_nil,
      hleaves.command]
    have hsub : (a ++ a' ++ g.command.toList ++ z).Sublist
        (a ++ m.executed?.toList ++ a' ++ g.command.toList ++ z) :=
      (((List.sublist_append_left a _).append (List.Sublist.refl a')).append
        (List.Sublist.refl _)).append (List.Sublist.refl z)
    have hsub' : (x ++ y ++ (b ++ b')).Sublist (x ++ y ++ (b ++ m.completed?.toList ++ b')) :=
      (List.Sublist.refl _).append ((List.sublist_append_left b _).append (List.Sublist.refl b'))
    have hexecuted : t.state.point.active = true → m.executed? = none := by
      intro hactive
      cases hm : m.executed? with
      | none => rfl
      | some c =>
        have hsome := (hdrop hactive).1 (by simp [hm])
        obtain ⟨c', hc'⟩ := Option.ne_none_iff_exists'.mp hsome
        have hlength := hknown.length_le
        have hone : known.toList.length ≤ 1 := by cases known <;> simp
        simp only [hm, hc', List.length_append, Option.toList_some, List.length_cons,
          List.length_nil] at hlength
        omega
    have hcompleted' : t.state.point.active = true → m.completed? = none := by
      intro hactive
      cases hm : m.completed? with
      | none => rfl
      | some c =>
        have hmem : c ∈ g.command.toList := h.below.subset (by simp [hm])
        exact absurd (Option.mem_toList.mp hmem) ((hdrop hactive).2 c hm)
    refine ⟨⟨known, hsub.trans hknown, hcurrent⟩, ?_, fun hl hactive => ?_,
      fun hactive halive => ?_⟩
    · rw [hleaves.command]
      exact hsub'.trans h.below
    · have hkept := h.kept hl (hleaves.active hactive)
      rw [hexecuted hactive] at hkept
      simpa using hkept
    · have hheld := h.held (hleaves.active hactive) halive
      rw [hcompleted' hactive] at hheld
      rw [hleaves.command]
      simpa using hheld
  | forwards c hmessage hnone hcommand htimer hpoint htoIo harmed hmail =>
    obtain ⟨changes, hmail⟩ := hmail
    rw [hmessage, hnone] at hknown
    have hshape : a ++ (GuardMessage.execute c).executed?.toList ++ a' ++
        (none : Option Pid).toList ++ z = a ++ c :: (a' ++ z) := by
      simp [GuardMessage.executed?]
    rw [hshape] at hknown
    obtain ⟨hknownc, ha, haz⟩ := alone hknown
    obtain ⟨ha', hz⟩ := List.append_eq_nil_iff.mp haz
    have hlower := h.below
    rw [hnone] at hlower
    have hempty := List.sublist_nil.mp hlower
    obtain ⟨hxy, hbb⟩ := List.append_eq_nil_iff.mp hempty
    obtain ⟨hx, hy⟩ := List.append_eq_nil_iff.mp hxy
    obtain ⟨hb, hb'⟩ := List.append_eq_nil_iff.mp hbb
    have hb := (List.append_eq_nil_iff.mp hb).1
    have hupper : a ++ a' ++ t.state.command.toList ++
        (z ++ (t.effects.filterMap (·.toExecution)).filterMap (·.completed?)) = [c] := by
      rw [ha, ha', hz, hcommand, hmail]
      rfl
    have hlower' : (x ++ (t.effects.filterMap (·.toIo)).filterMap (·.executed?)) ++ y ++
        (b ++ b') = t.state.command.toList := by
      rw [hx, hy, hb, hb', htoIo, hcommand]
      rfl
    rw [hupper, hlower']
    refine ⟨⟨known, ?_, hcurrent⟩, List.Sublist.refl _, fun hl _ => ?_, fun _ _ => rfl⟩
    · rw [hknownc]
      exact List.Sublist.refl _
    · rw [← hcurrent hl, hknownc]
      rfl
  | cancels c reason hmessage hsome hcommand hpoint htoIo harmed hmail =>
    have hsame : t.state.command = g.command := hcommand.trans hsome.symm
    rw [hmail, htoIo, hsame]
    rw [hmessage] at h
    have hupper : a ++ (GuardMessage.cancelCommand c reason).executed?.toList ++ a' ++
        g.command.toList ++ z = a ++ a' ++ g.command.toList ++
        (z ++ ([] : List ExecutionMessage).filterMap (·.completed?)) := by
      simp [GuardMessage.executed?]
    have hlower : x ++ y ++ (b ++ (GuardMessage.cancelCommand c reason).completed?.toList ++ b') =
        (x ++ ([.cancel c reason] : List IoMessage).filterMap (·.executed?)) ++ y ++ (b ++ b') := by
      simp [GuardMessage.completed?, GuardMessage.result?, IoMessage.executed?]
    rw [hupper, hlower] at h
    refine ⟨h.current, ?_, fun hl _ => h.kept hl hpoint.1, fun _ halive => ?_⟩
    · rw [hsame]
      exact h.below
    · rw [hsame]
      exact h.held hpoint.1 halive
  | completes c result g' t' hmessage hsome hcommand htimer hpoint hleaves hstate heffects =>
    have hnone : t.state.command = none := by rw [hstate, hleaves.command, hcommand]
    have hcompleted : (t'.effects.filterMap (·.toExecution)).filterMap (·.completed?) = [] :=
      List.filterMap_eq_nil_iff.mpr fun m hm => (hleaves.completed m hm).2
    have hmail : (t.effects.filterMap (·.toExecution)).filterMap (·.completed?) = [c] := by
      rw [heffects]
      change c :: (t'.effects.filterMap (·.toExecution)).filterMap (·.completed?) = [c]
      rw [hcompleted]
    have htoIo : t.effects.filterMap (·.toIo) = [] := by
      rw [heffects]
      exact hleaves.toIo
    rw [hmessage] at hknown
    have hshape : a ++ (GuardMessage.commandFinished c result).executed?.toList ++ a' ++
        g.command.toList ++ z = (a ++ a') ++ c :: z := by
      simp [GuardMessage.executed?, hsome]
    rw [hshape] at hknown
    obtain ⟨hknownc, haa, hz⟩ := alone hknown
    obtain ⟨ha, ha'⟩ := List.append_eq_nil_iff.mp haa
    have hlower := h.below
    rw [hmessage] at hlower
    have hshape' : x ++ y ++ (b ++ (GuardMessage.commandFinished c result).completed?.toList ++ b') =
        (x ++ y ++ b) ++ c :: b' := by
      simp [GuardMessage.completed?, GuardMessage.result?]
    rw [hshape'] at hlower
    obtain ⟨-, hxyb, hb'⟩ := alone hlower
    obtain ⟨hxy, hb⟩ := List.append_eq_nil_iff.mp hxyb
    obtain ⟨hx, hy⟩ := List.append_eq_nil_iff.mp hxy
    have hupper : a ++ a' ++ t.state.command.toList ++
        (z ++ (t.effects.filterMap (·.toExecution)).filterMap (·.completed?)) = [c] := by
      rw [ha, ha', hz, hnone, hmail]
      rfl
    have hlower' : (x ++ (t.effects.filterMap (·.toIo)).filterMap (·.executed?)) ++ y ++
        (b ++ b') = t.state.command.toList := by
      rw [hx, hy, hb, hb', htoIo, hnone]
      rfl
    rw [hupper, hlower']
    refine ⟨⟨known, ?_, hcurrent⟩, List.Sublist.refl _, fun hl _ => ?_, fun _ _ => rfl⟩
    · rw [hknownc]
      exact List.Sublist.refl _
    · rw [← hcurrent hl, hknownc]
      rfl

/-- A command that gets no further than it was, unless the process that has it ends. -/
theorem Routed.streamed {alive' : Bool} {lower' : List Pid} (h : Routed e g alive upper lower)
    (hlower : lower'.Sublist lower) (halive : alive' = true → alive = true ∧ lower' = lower) :
    Routed e g alive' upper lower' := by
  refine ⟨h.current, hlower.trans h.below, h.kept, fun hactive ha => ?_⟩
  rw [(halive ha).2]
  exact h.held hactive (halive ha).1

end Routes

end Sower.Vm
