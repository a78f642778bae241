import Mathlib.Data.List.Perm.Basic
import Mathlib.Data.List.Range
import Sower.Hypervisor.Certificates

/-!
# Answers to the callers

Callers are numbered in the order of their calls. Each has been answered, once and with
what was asked for, or is among those who wait.
-/

namespace Sower.Hypervisor

open Traced

section Replies

/-- The caller that an entry answers. -/
def Entry.caller : Entry → Option ℕ
  | .reply caller _ => some caller
  | _ => none

/-- Everyone who has been answered. -/
def replied (history : List Entry) : List ℕ := history.filterMap Entry.caller

/-- The answer says what the call asks for. -/
def Answer.Suits : Answer → Call → Prop
  | .client _, .client => True
  | .status _, .status => True
  | .awaitReady _, .awaitReady => True
  | .stop _, .stop _ => True
  | _, _ => False

/-- Only calls are answered, each with what it asks for and only once. -/
def ReplyNeeds (before : List Entry) : Entry → Prop
  | .reply caller answer => caller ∉ replied before ∧
      ∃ call, .called caller call ∈ before ∧ answer.Suits call
  | _ => True

variable {history es : List Entry} {answer : Answer} {callers : List ℕ}

theorem replied_append (history es : List Entry) :
    replied (history ++ es) = replied history ++ replied es := List.filterMap_append

theorem replied_quiet (hes : ∀ e ∈ es, e.caller = none) : replied es = [] :=
  List.filterMap_eq_nil_iff.mpr hes

theorem replied_map (callers : List ℕ) (answer : Answer) :
    replied (callers.map fun caller => .reply caller answer) = callers := by
  induction callers with
  | nil => rfl
  | cons caller rest ih =>
    change caller :: replied _ = caller :: rest
    rw [ih]

theorem replyNeeds_quiet {e : Entry} (h : e.caller = none) (before : List Entry) :
    ReplyNeeds before e := by
  cases e with
  | reply caller answer => cases h
  | _ => trivial

/-- Callers who have not been answered can all be answered. -/
theorem ordered_answers (h : Ordered ReplyNeeds history)
    (hfresh : (replied history ++ callers).Nodup)
    (hcalled : ∀ caller ∈ callers, ∃ call, .called caller call ∈ history ∧ answer.Suits call) :
    Ordered ReplyNeeds (history ++ callers.map fun caller => .reply caller answer) := by
  induction callers generalizing history with
  | nil =>
    rw [List.map_nil, List.append_nil]
    exact h
  | cons caller rest ih =>
    have hsplit : history ++ (caller :: rest).map (fun caller => Entry.reply caller answer) =
        history ++ [.reply caller answer] ++ rest.map fun caller => .reply caller answer := by
      simp
    have hsame : replied (history ++ [.reply caller answer]) = replied history ++ [caller] :=
      replied_append _ _
    have hnew : caller ∉ replied history := by
      intro hmem
      have hdisjoint := (List.nodup_append.mp hfresh).2.2
      exact hdisjoint caller hmem caller List.mem_cons_self rfl
    rw [hsplit]
    apply ih
    · exact h.concat ⟨hnew, hcalled caller List.mem_cons_self⟩
    · rw [hsame, List.append_assoc]
      exact hfresh
    · intro other hother
      obtain ⟨call, hmem, hsuits⟩ := hcalled other (List.mem_cons_of_mem _ hother)
      exact ⟨call, List.mem_append_left _ hmem, hsuits⟩

end Replies

section Waiters

/-- Everyone who has called was answered or waits for what was asked for. -/
structure Awaits (state : State) (calls : ℕ) (history : List Entry) : Prop where
  ordered : Ordered ReplyNeeds history
  everyone :
    (replied history ++ (state.startupWaiters ++ state.stopWaiters)).Perm (List.range calls)
  startup : ∀ caller ∈ state.startupWaiters, .called caller .awaitReady ∈ history
  stop : ∀ caller ∈ state.stopWaiters, ∃ mode, .called caller (.stop mode) ∈ history

variable {state state' : State} {calls : ℕ} {history es : List Entry} {answer : Answer}

/-- Nobody has been answered who waits. -/
theorem Awaits.nodup (h : Awaits state calls history) :
    (replied history ++ (state.startupWaiters ++ state.stopWaiters)).Nodup :=
  h.everyone.nodup_iff.mpr List.nodup_range

/-- Entries that answer nobody, and a state with the same waiters. -/
theorem Awaits.other (h : Awaits state calls history)
    (hstartup : state'.startupWaiters = state.startupWaiters)
    (hstop : state'.stopWaiters = state.stopWaiters) (hes : ∀ e ∈ es, e.caller = none) :
    Awaits state' calls (history ++ es) where
  ordered := h.ordered.append_free fun e he before => replyNeeds_quiet (hes e he) before
  everyone := by
    rw [replied_append, replied_quiet hes, List.append_nil, hstartup, hstop]
    exact h.everyone
  startup caller hcaller := by
    rw [hstartup] at hcaller
    exact List.mem_append_left _ (h.startup caller hcaller)
  stop caller hcaller := by
    rw [hstop] at hcaller
    obtain ⟨mode, hmem⟩ := h.stop caller hcaller
    exact ⟨mode, List.mem_append_left _ hmem⟩

theorem Awaits.same (h : Awaits state calls history)
    (hstartup : state'.startupWaiters = state.startupWaiters)
    (hstop : state'.stopWaiters = state.stopWaiters) : Awaits state' calls history := by
  have hnothing : ∀ e ∈ ([] : List Entry), e.caller = none := fun e he => by cases he
  have hnow := h.other hstartup hstop hnothing
  rw [List.append_nil] at hnow
  exact hnow

/-- Whoever waits for the startup is told how it ends. -/
theorem Awaits.finishes (h : Awaits state calls history) (result : Except Cause Status) :
    Awaits (state.finished result) calls (history ++ state.finishes result) := by
  unfold State.finished State.finishes
  split
  · constructor
    · apply ordered_answers h.ordered
      · have hnodup := h.nodup
        rw [← List.append_assoc] at hnodup
        exact (List.nodup_append.mp hnodup).1
      · intro caller hcaller
        exact ⟨.awaitReady, h.startup caller hcaller, trivial⟩
    · rw [replied_append, replied_map, List.append_assoc]
      exact h.everyone
    · intro caller hcaller
      cases hcaller
    · intro caller hcaller
      obtain ⟨mode, hmem⟩ := h.stop caller hcaller
      exact ⟨mode, List.mem_append_left _ hmem⟩
  · rw [List.append_nil]
    exact h.same rfl rfl

/-- Whoever waits for the stop is told how it ends. -/
theorem Awaits.stopped (h : Awaits state calls history)
    (result : Except (Option Cause) Outcome) (hstartup : state'.startupWaiters = state.startupWaiters)
    (hstop : state'.stopWaiters = []) :
    Awaits state' calls
      (history ++ state.stopWaiters.map fun caller => .reply caller (.stop result)) := by
  have hswap : (replied history ++ state.stopWaiters ++ state.startupWaiters).Perm
      (replied history ++ (state.startupWaiters ++ state.stopWaiters)) := by
    rw [List.append_assoc]
    exact List.Perm.append_left _ List.perm_append_comm
  constructor
  · apply ordered_answers h.ordered
    · have hnodup := hswap.nodup_iff.mpr h.nodup
      exact (List.nodup_append.mp hnodup).1
    · intro caller hcaller
      obtain ⟨mode, hmem⟩ := h.stop caller hcaller
      exact ⟨.stop mode, hmem, trivial⟩
  · rw [replied_append, replied_map, hstartup, hstop, List.append_nil]
    exact hswap.trans h.everyone
  · intro caller hcaller
    rw [hstartup] at hcaller
    exact List.mem_append_left _ (h.startup caller hcaller)
  · intro caller hcaller
    rw [hstop] at hcaller
    cases hcaller

/-- With the next caller answered or waiting, everyone is accounted for. -/
theorem Awaits.next {others : List ℕ} (h : Awaits state calls history)
    (hothers : others.Perm
      (calls :: (replied history ++ (state.startupWaiters ++ state.stopWaiters)))) :
    others.Perm (List.range (calls + 1)) := by
  rw [List.range_succ]
  have hlast : (List.range calls ++ [calls]).Perm (calls :: List.range calls) :=
    List.perm_append_comm
  exact hothers.trans ((List.Perm.cons calls h.everyone).trans hlast.symm)

/-- The next caller is answered at once. -/
theorem Awaits.answerCall {call : Call} (h : Awaits state calls history)
    (hcalled : .called calls call ∈ history) (hsuits : answer.Suits call) :
    Awaits state (calls + 1) (history ++ [.reply calls answer]) := by
  have hsame : replied (history ++ [.reply calls answer]) = replied history ++ [calls] :=
    replied_append _ _
  constructor
  · refine h.ordered.concat ⟨fun hmem => ?_, call, hcalled, hsuits⟩
    have hrange := h.everyone.mem_iff.mp (List.mem_append_left _ hmem)
    exact lt_irrefl calls (List.mem_range.mp hrange)
  · apply h.next
    rw [hsame, List.append_assoc]
    exact List.perm_middle
  · intro caller hcaller
    exact List.mem_append_left _ (h.startup caller hcaller)
  · intro caller hcaller
    obtain ⟨mode, hmem⟩ := h.stop caller hcaller
    exact ⟨mode, List.mem_append_left _ hmem⟩

/-- The next caller waits for the startup. -/
theorem Awaits.waitStartup (h : Awaits state calls history)
    (hcalled : .called calls .awaitReady ∈ history) :
    Awaits { state with startupWaiters := calls :: state.startupWaiters } (calls + 1) history where
  ordered := h.ordered
  everyone := h.next List.perm_middle
  startup caller hcaller := by
    rcases List.mem_cons.mp hcaller with rfl | hold
    · exact hcalled
    · exact h.startup caller hold
  stop := h.stop

/-- The next caller waits for the stop. -/
theorem Awaits.waitStop {mode : StopMode} (h : Awaits state calls history)
    (hcalled : .called calls (.stop mode) ∈ history) :
    Awaits (state.awaitStop calls) (calls + 1) history where
  ordered := h.ordered
  everyone := by
    apply h.next
    change (replied history ++ (state.startupWaiters ++ calls :: state.stopWaiters)).Perm _
    rw [← List.append_assoc, ← List.append_assoc]
    exact List.perm_middle
  startup := h.startup
  stop caller hcaller := by
    rcases List.mem_cons.mp hcaller with rfl | hold
    · exact ⟨mode, hcalled⟩
    · exact h.stop caller hold

end Waiters

section Steps

variable {state state' : State} {calls : ℕ} {history es : List Entry}

theorem quiet_of_isStop {e : Entry} (h : e.isStop = true) : e.caller = none := by
  cases e with
  | reply caller answer => cases h
  | _ => rfl

theorem quiet_of_isEnd {e : Entry} (h : e.isEnd = true) : e.caller = none := by
  cases e with
  | reply caller answer => cases h
  | _ => rfl

theorem quiet_of_requests {kind : RequestKind} {e : Entry} (h : e ∈ state.requests kind) :
    e.caller = none := by
  unfold State.requests at h
  split at h
  · rw [List.mem_singleton.mp h]
    rfl
  · cases h

/-- A stop that begins answers nobody. -/
theorem begun_waiters (mode : StopMode) (cause : Cause) :
    (state.begun mode cause).startupWaiters = state.startupWaiters ∧
      (state.begun mode cause).stopWaiters = state.stopWaiters := by
  unfold State.begun State.graceful
  split
  · exact ⟨rfl, rfl⟩
  · exact ⟨rfl, rfl⟩
  · exact ⟨rfl, rfl⟩
  · exact ⟨rfl, rfl⟩
  · exact ⟨rfl, rfl⟩
  · split <;> exact ⟨rfl, rfl⟩

theorem Awaits.begins (h : Awaits state calls history) (mode : StopMode) (cause : Cause) :
    Awaits (state.begun mode cause) calls (history ++ state.begins mode cause) := by
  obtain ⟨hstartup, hstop⟩ := @begun_waiters state mode cause
  exact h.other hstartup hstop fun e he => quiet_of_isStop (isStop_of_begins he)

theorem Proceeds.awaits {kind : RequestKind} {result : Except RequestError String}
    (hproceeds : Proceeds state kind result es state') (h : Awaits state calls history) :
    Awaits state' calls (history ++ es) := by
  have hone {e e' : Entry} (hmem : e ∈ [e']) (he' : e'.caller = none) : e.caller = none := by
    rw [List.mem_singleton.mp hmem]
    exact he'
  cases hproceeds with
  | pinged text =>
    refine h.other rfl rfl fun e he => ?_
    rcases List.mem_cons.mp he with rfl | hrequest
    · rfl
    · exact quiet_of_requests hrequest
  | created text => exact h.other rfl rfl fun e he => quiet_of_requests he
  | booted text => exact h.other rfl rfl fun e he => quiet_of_requests he
  | running =>
    have hready : Awaits state.ready calls (history ++ [.notify (.ready state.ready.status)]) :=
      h.other rfl rfl fun e he => hone he rfl
    have hfinished := hready.finishes (.ok state.ready.status)
    rw [List.append_assoc] at hfinished
    exact hfinished
  | waits vmState => exact h.other rfl rfl fun e he => hone he rfl
  | silent reason => exact h.other rfl rfl fun e he => hone he rfl
  | fails kind error => exact h.begins _ _

/-- A call is answered or its caller waits. -/
theorem Answers.awaits {call : Call} (hanswers : Answers state calls call es state')
    (h : Awaits state calls history) :
    Awaits state' (calls + 1) (history ++ .called calls call :: es) := by
  have hsplit : history ++ .called calls call :: es = history ++ [.called calls call] ++ es :=
    List.append_cons _ _ _
  have hcalling : Awaits state calls (history ++ [.called calls call]) := by
    refine h.other rfl rfl fun e he => ?_
    rw [List.mem_singleton.mp he]
    rfl
  have hcalled : .called calls call ∈ history ++ [.called calls call] :=
    List.mem_append_right _ (List.mem_singleton_self _)
  rw [hsplit]
  cases hanswers with
  | client => exact hcalling.answerCall hcalled trivial
  | status => exact hcalling.answerCall hcalled trivial
  | waits undecided =>
    rw [List.append_nil]
    exact hcalling.waitStartup hcalled
  | decided decided => exact hcalling.answerCall hcalled trivial
  | unclean mode unclean => exact hcalling.answerCall hcalled trivial
  | ended mode clean ended => exact hcalling.answerCall hcalled trivial
  | timedOut mode clean => exact hcalling.answerCall hcalled trivial
  | stops mode clean running timed => exact (hcalling.waitStop hcalled).begins _ _

/-- The runner has exited. -/
theorem Awaits.completes (h : Awaits state calls history) (reason : ExitReason) :
    Awaits (state.completed reason) calls (history ++ state.completes reason) := by
  have hexited : Awaits (exitedState state.hooked reason) calls
      (history ++ (state.cancels ++ (state.hooks ++
        (exitedState state.hooked reason).notifiesExit state.cleanupError.isSome))) := by
    refine h.other rfl rfl fun e he => ?_
    rcases List.mem_append.mp he with hcancel | hrest
    · exact quiet_of_isStop (isStop_of_cancels hcancel)
    · rcases List.mem_append.mp hrest with hhook | hnotify
      · exact quiet_of_isStop (isStop_of_hooks hhook)
      · exact quiet_of_isEnd (isEnd_of_notifiesExit hnotify)
  have hfinished := hexited.finishes (exitedState state.hooked reason).startupEnd
  have hstopped : Awaits (state.completed reason) calls _ :=
    hfinished.stopped (exitedState state.hooked reason).stopResult rfl rfl
  unfold State.completes
  simp only [List.append_assoc] at hstopped ⊢
  exact hstopped

/-- A failed cleanup is reported. -/
theorem Awaits.reportsUnclean (h : Awaits state calls history) (message : String) :
    Awaits (state.unclean message) calls (history ++ state.reportsUnclean message) := by
  unfold State.unclean State.reportsUnclean
  split
  · rw [List.append_nil]
    exact h
  · have hunclean : Awaits (uncleanState state.hooked message) calls
        (history ++ (state.hooks ++ (state.cancels ++
          [.notify (.failed (.cleanupFailed message))]))) := by
      refine h.other rfl rfl fun e he => ?_
      rcases List.mem_append.mp he with hhook | hrest
      · exact quiet_of_isStop (isStop_of_hooks hhook)
      · rcases List.mem_append.mp hrest with hcancel | hnotify
        · exact quiet_of_isStop (isStop_of_cancels hcancel)
        · rw [List.mem_singleton.mp hnotify]
          rfl
    have hfinished := hunclean.finishes (.error (.cleanupFailed message))
    have hstopped : Awaits { (uncleanState state.hooked message).finished
        (.error (.cleanupFailed message)) with stopWaiters := [] } calls _ :=
      hfinished.stopped (.error (some (.cleanupFailed message))) rfl rfl
    simp only [List.append_assoc, List.cons_append, List.nil_append] at hstopped
    exact hstopped

/-- A stop is given up. -/
theorem Awaits.givesUp (h : Awaits state calls history) :
    Awaits state.givenUp calls (history ++ state.givesUp) := by
  have htold : Awaits { state with
      status := { state.status with error := some .shutdownTimeout }
      stopWaiters := []
      shutdownTimer := false } calls (history ++ state.stopWaiters.map fun caller =>
        .reply caller (.stop (.error (some .shutdownTimeout)))) := h.stopped _ rfl rfl
  have hfinished := htold.finishes (.error .shutdownTimeout)
  rw [List.append_assoc] at hfinished
  exact hfinished

/-- Whatever is received, everyone stays accounted for. -/
theorem Handles.awaits {message : Message} (hhandles : Handles state message es state')
    (h : Awaits state calls history) :
    Awaits state' calls (history ++ .received message :: es) := by
  have hsplit : history ++ .received message :: es = history ++ [.received message] ++ es :=
    List.append_cons _ _ _
  have hreceived : Awaits state calls (history ++ [.received message]) := by
    refine h.other rfl rfl fun e he => ?_
    rw [List.mem_singleton.mp he]
    rfl
  rw [hsplit]
  cases hhandles with
  | ignored harmless =>
    rw [List.append_nil]
    exact hreceived
  | heard stream osPid bytes =>
    refine hreceived.other rfl rfl fun e he => ?_
    rw [List.mem_singleton.mp he]
    rfl
  | unclean message => exact hreceived.reportsUnclean message
  | exited reason runner => exact hreceived.completes reason
  | proceeds asked answer harmless starting proceeds =>
    exact proceeds.awaits (hreceived.same rfl rfl)
  | late kind result harmless late =>
    refine hreceived.other rfl rfl fun e he => ?_
    unfold State.stopReplied at he
    split at he
    · split at he
      · rw [List.mem_singleton.mp he]
        rfl
      · cases he
    · cases he
  | orphaned gone =>
    rw [List.append_nil]
    exact hreceived.same rfl rfl
  | ownerDown running =>
    have hdead : Awaits { state with ownerDead := true } calls
        (history ++ [.received .ownerDown]) := hreceived.same rfl rfl
    exact hdead.begins _ _
  | poll starting => exact hreceived.other rfl rfl fun e he => quiet_of_requests he
  | expires starting => exact hreceived.begins _ _
  | escalates graceful =>
    exact hreceived.other rfl rfl fun e he => quiet_of_isStop (isStop_of_forces he)
  | givesUp running force clean => exact hreceived.givesUp

/-- A server that is told to end answers nobody. -/
theorem terminate_quiet (state : State) (mailbox : List Message) :
    ∀ e ∈ (terminate state mailbox).effects, e.caller = none := by
  intro e he
  obtain ⟨heard, hheard, heffects⟩ := terminate_effects state mailbox
  rw [heffects] at he
  rcases List.mem_append.mp he with hcancel | hrest
  · exact quiet_of_isStop (isStop_of_cancels hcancel)
  · split at hrest
    · cases hrest
    · rcases List.mem_append.mp hrest with hhook | hlast
      · exact quiet_of_isStop (isStop_of_hooks hhook)
      · rcases List.mem_cons.mp hlast with rfl | hnotify
        · rfl
        · obtain ⟨event, rfl, _⟩ := hheard e hnotify
          rfl

end Steps

end Sower.Hypervisor
