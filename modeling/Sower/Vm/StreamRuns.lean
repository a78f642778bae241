import Sower.Vm.StreamState

/-!
# The process handles a message

A message is about something else, or it brings data, the end of a callback or a
cancel request. Each of them leads to a state of the invariant, and so the invariant
holds at every point of a run.
-/

namespace Sower.Vm.Streaming

open Protocol Framing

section Handling

variable {ε : Type} {codec : Codec} {k : Session} {w : World ε} {o : Oracle ε}

/-- No token is left: the socket is not armed, and no data are in the mailbox. -/
theorem tokens_eq_zero_iff :
    w.tokens k = 0 ↔ w.armed = false ∧ w.mailbox.countP (Msg.isData k.socket) = 0 := by
  unfold World.tokens
  cases w.armed with
  | false => simp
  | true => simp

/-- A callback has returned, or data have arrived: the buffer may be looked at. -/
structure Ready (codec : Codec) (k : Session) (w : World ε) : Prop where
  phase : w.io.phase = .receiving
  socket : w.io.socket = some k.socket
  cancelled : w.io.cancelled = none
  worker : w.io.worker = none
  result : w.NoResult
  returned : ∀ call ∈ w.calls, call.returned = true
  token : w.tokens k = 0
  parsed : Parses codec w.arrived w.events w.io.buffer
  sane : Sane codec k w

theorem Ready.arm (h : Ready codec k w) (hmore : decodeFrame codec w.io.buffer = .more) :
    Inv codec k (w.apply (w.io, [.arm])) := by
  obtain ⟨harmed, hcount⟩ := tokens_eq_zero_iff.mp h.token
  have htokens : World.tokens k (w.apply (w.io, [.arm])) = 1 := by
    change (if true then 1 else 0) + w.mailbox.countP (Msg.isData k.socket) = 1
    rw [hcount]
    rfl
  refine ⟨?_, h.sane.known, h.sane.calm, h.sane.ordered, h.sane.read⟩
  refine .flowing h.phase h.socket h.cancelled h.result ?_
    (.reading h.worker h.returned hmore htokens)
  change Parses codec w.arrived w.events
    (w.io.buffer ++ w.mailbox.flatMap (Msg.data k.socket))
  rw [data_eq_nil hcount, List.append_nil]
  exact h.parsed

theorem noResult_snoc {w' : World ε} {report : Report ε} (h : w.NoResult)
    (hreports : w'.reports = w.reports ++ [report])
    (hne : ∀ command result, report ≠ .commandFinished command result) : w'.NoResult := by
  intro command result hmem
  rw [hreports] at hmem
  rcases List.mem_append.mp hmem with hmem | hmem
  · exact h command result hmem
  · exact hne command result (List.mem_singleton.mp hmem).symm

/-- The process gives up. -/
theorem Inv.settled {io : Io} {failure : Failure ε} (hresult : w.NoResult)
    (hcause : w.disturbed = true ∨
      ∃ rest, Parses codec w.arrived w.events rest ∧ Unexpected codec rest)
    (hsane : Sane codec k w) : Inv codec k (w.apply (io.finish failure)) := by
  refine ⟨?_, hsane.known, hsane.calm, hsane.ordered, hsane.read⟩
  have hnone : World.NoResult (w.apply (io.finish failure)) := by
    refine noResult_snoc hresult rfl ?_
    intro command result h
    cases h
  refine .settled (Or.inl rfl) hnone ?_
  rcases hcause with hdisturbed | hunexpected
  · exact Or.inl hdisturbed
  · exact Or.inr (Or.inr hunexpected)

theorem Inv.crash {io : Io} (hresult : w.NoResult) (hphase : io.phase = .crashed)
    (hsane : Sane codec k w) : Inv codec k (w.apply (io, [])) :=
  ⟨.settled (Or.inr hphase) hresult (Or.inr (Or.inl hphase)), hsane.known, hsane.calm, hsane.ordered,
    hsane.read⟩

/-- The payload at the front is handed to a new worker. -/
theorem Ready.call (h : Ready codec k w) {e : Event} {rest bytes : List UInt8} {stream : Stream}
    (hdecode : decodeFrame codec w.io.buffer = .event e rest)
    (houtput : output? e = some (stream, bytes)) (hfresh : o.worker = k.first + w.calls.length) :
    Inv codec k (w.apply
      ({ w.io with buffer := rest, worker := some o.worker }, [.spawn o.worker stream bytes])) := by
  obtain ⟨harmed, hcount⟩ := tokens_eq_zero_iff.mp h.token
  have hparsed := h.parsed.snoc hdecode
  rw [event_of_output? houtput] at hparsed
  have hread : Parses codec w.arrived
      ((w.calls ++ [({ stream := stream, bytes := bytes } : Call)]).map Call.event) rest := by
    rw [List.map_append]
    exact hparsed
  refine ⟨?_, ?_, h.sane.calm, ?_, rest, hread⟩
  · refine .flowing h.phase h.socket h.cancelled h.result ?_ ?_
    · change Parses codec w.arrived ((w.calls ++ [_]).map Call.event)
        (rest ++ w.mailbox.flatMap (Msg.data k.socket))
      rw [data_eq_nil hcount, List.append_nil]
      exact hread
    · refine .calling w.calls { stream := stream, bytes := bytes } rfl ?_ h.returned ?_ h.token
      · exact congrArg some hfresh
      · refine .running rfl rfl ?_
        intro m hm habout
        have hknown := h.sane.known m hm
        cases m with
        | outputDone worker =>
          have hlt : worker < k.first + w.calls.length := hknown
          have heq : worker = k.first + w.calls.length := habout
          omega
        | exit worker =>
          have hlt : worker < k.first + w.calls.length := hknown
          have heq : worker = k.first + w.calls.length := habout
          omega
        | execute command request => exact habout
        | tcp socket bytes => exact habout
        | tcpClosed socket => exact habout
        | tcpError socket reason => exact habout
        | cancel command reason => exact habout
        | other => exact habout
  · intro m hm
    have hknown := h.sane.known m hm
    have hlength : (w.calls ++ [({ stream := stream, bytes := bytes } : Call)]).length =
        w.calls.length + 1 := List.length_append
    change m.Known k (w.calls ++ [({ stream := stream, bytes := bytes } : Call)]).length
    rw [hlength]
    cases m with
    | outputDone worker =>
      have hlt : worker < k.first + w.calls.length := hknown
      change worker < k.first + (w.calls.length + 1)
      omega
    | exit worker =>
      have hlt : worker < k.first + w.calls.length := hknown
      change worker < k.first + (w.calls.length + 1)
      omega
    | execute command request => trivial
    | tcp socket bytes => trivial
    | tcpClosed socket => trivial
    | tcpError socket reason => trivial
    | cancel command reason => trivial
    | other => trivial
  · intro earlier call hcalls
    have hcalls : w.calls ++ [_] = earlier ++ [call] := hcalls
    rw [← List.append_inj_left' hcalls rfl]
    exact h.returned

/-- The last frame has been read: its result is reported. -/
theorem Ready.complete (h : Ready codec k w) {e : Event} {rest : List UInt8}
    {result : Except CommandError Result} (hdecode : decodeFrame codec w.io.buffer = .event e rest)
    (houtput : output? e = none) (hanswers : Answers e result) :
    Inv codec k (w.apply (w.io.completed k.command result)) := by
  have hreports : World.reports (w.apply (w.io.completed k.command result)) =
      w.reports ++ [.commandFinished k.command result] := rfl
  refine ⟨?_, h.sane.known, h.sane.calm, h.sane.ordered, h.sane.read⟩
  refine .finished rfl h.cancelled e rest (h.parsed.snoc hdecode) houtput h.returned ?_ ?_
  · refine ⟨result, ?_⟩
    rw [hreports]
    exact List.mem_append_right _ List.mem_cons_self
  · intro command result' hmem
    rw [hreports] at hmem
    rcases List.mem_append.mp hmem with hmem | hmem
    · exact absurd hmem (h.result command result')
    · cases List.mem_singleton.mp hmem
      exact hanswers

theorem Ready.consume (h : Ready codec k w) (hfresh : o.worker = k.first + w.calls.length) :
    Inv codec k (w.apply (w.io.consume codec o k.command)) := by
  have hunexpected : Unexpected codec w.io.buffer → ∀ failure : Failure ε,
      Inv codec k (w.apply (w.io.finish failure)) := by
    intro hrest failure
    exact .settled h.result (Or.inr ⟨_, h.parsed, hrest⟩) h.sane
  cases hdecode : decodeFrame codec w.io.buffer with
  | more =>
    rw [consume_more h.worker hdecode]
    split
    · exact h.arm hdecode
    · exact .crash h.result rfl h.sane
  | error reason =>
    rw [consume_error h.worker hdecode]
    exact hunexpected (Or.inl ⟨reason, hdecode⟩) _
  | event e rest =>
    rw [consume_event h.worker hdecode]
    cases houtput : output? e with
    | some output =>
      obtain ⟨stream, bytes⟩ := output
      have hcancelled : ¬ w.io.cancelled.isSome = true := by
        rw [h.cancelled]
        exact Bool.false_ne_true
      dsimp only
      rw [if_neg hcancelled]
      exact h.call hdecode houtput hfresh
    | none =>
      dsimp only
      cases e with
      | exited code signal =>
        refine h.complete hdecode houtput ?_
        unfold Io.result
        rw [h.cancelled]
        exact ⟨_, rfl, rfl, rfl⟩
      | guestError message => exact h.complete hdecode houtput rfl
      | ready contract =>
        exact hunexpected (Or.inr ⟨_, rest, hdecode, houtput, fun _ habsurd => habsurd⟩) _
      | stdout bytes => cases houtput
      | stderr bytes => cases houtput

/-- A cancelled command after a message of the guest. -/
theorem Inv.drained {io : Io} {outcome : Io × List (Act ε)} (h : Drained o k.command io outcome)
    (hphase : io.phase = .receiving) (hsocket : io.socket = some k.socket)
    (hcancelled : io.cancelled.isSome) (hworker : io.worker = none) (hresult : w.NoResult)
    (hdisturbed : w.disturbed = true) (hsane : Sane codec k w) :
    Inv codec k (w.apply outcome) := by
  cases h with
  | armed buffer =>
    refine ⟨?_, hsane.known, hsane.calm, hsane.ordered, hsane.read⟩
    refine .draining hphase hsocket hcancelled hresult hworker hdisturbed ?_
    change 0 < (if true then 1 else 0) + w.mailbox.countP (Msg.isData k.socket)
    rw [if_pos rfl]
    omega
  | crashed buffer => exact .crash hresult rfl hsane
  | finished buffer failure => exact .settled hresult (Or.inl hdisturbed) hsane
  | completed buffer error =>
    refine ⟨?_, hsane.known, hsane.calm, hsane.ordered, hsane.read⟩
    refine .failed rfl hcancelled ?_
    intro command result hmem
    rcases List.mem_append.mp hmem with hmem | hmem
    · exact absurd hmem (hresult command result)
    · cases List.mem_singleton.mp hmem
      exact ⟨error, rfl⟩

theorem Sane.tail {m : Msg ε} {rest : List (Msg ε)} (h : Sane codec k w)
    (hmailbox : w.mailbox = m :: rest) : Sane codec k { w with mailbox := rest } := by
  have hsub : ∀ m' ∈ rest, m' ∈ w.mailbox := by
    intro m' hm'
    rw [hmailbox]
    exact List.mem_cons_of_mem m hm'
  exact ⟨fun m' hm' => h.known m' (hsub m' hm'), fun hd m' hm' => h.calm hd m' (hsub m' hm'),
    h.ordered, h.read⟩

/-- A message that the process passes over. -/
theorem Inv.skip {m : Msg ε} {rest : List (Msg ε)} (h : Inv codec k w)
    (hmailbox : w.mailbox = m :: rest) (hdata : m.isData k.socket = false)
    (habout : ∀ p, w.io.worker = some p → ¬ m.About p) :
    Inv codec k { w with mailbox := rest } := by
  have htokens : World.tokens k { w with mailbox := rest } = w.tokens k := by
    unfold World.tokens
    rw [hmailbox, List.countP_cons_of_neg (by rw [hdata]; exact Bool.false_ne_true)]
  refine ⟨?_, h.sane.tail hmailbox⟩
  cases h.state with
  | flowing phase socket cancelled result parsed attention =>
    rw [hmailbox, List.flatMap_cons, data_of_not_isData hdata, List.nil_append] at parsed
    refine .flowing phase socket cancelled result parsed ?_
    cases attention with
    | reading worker returned more token =>
      exact .reading worker returned more (htokens.trans token)
    | calling earlier call calls worker returned outstanding token =>
      rw [hmailbox] at outstanding
      rcases outstanding.next with ⟨-, hnext⟩ | ⟨hdone, -⟩ | ⟨hexit, -⟩
      · exact .calling earlier call calls worker returned hnext (htokens.trans token)
      · rw [hdone] at habout
        exact absurd rfl (habout _ worker)
      · rw [hexit] at habout
        exact absurd rfl (habout _ worker)
    | lost earlier call calls worker returned died reported token =>
      exact .lost earlier call calls worker returned died reported (htokens.trans token)
  | draining phase socket cancelled result worker disturbed token =>
    rw [← htokens] at token
    exact .draining phase socket cancelled result worker disturbed token
  | finished phase cancelled e later parsed terminal returned reported result =>
    exact .finished phase cancelled e later parsed terminal returned reported result
  | failed phase cancelled result => exact .failed phase cancelled result
  | settled phase result cause => exact .settled phase result cause

/-- The state in which messages are received. -/
theorem State.receiving (h : State codec k w) (hphase : w.io.phase = .receiving) :
    w.io.socket = some k.socket ∧ w.NoResult ∧
      ((w.io.cancelled = none ∧ Attention codec k w ∧ Parses codec w.arrived w.events
          (w.io.buffer ++ w.mailbox.flatMap (Msg.data k.socket))) ∨
        (w.io.cancelled.isSome ∧ w.io.worker = none ∧ w.disturbed = true)) := by
  cases h with
  | flowing phase socket cancelled result parsed attention =>
    exact ⟨socket, result, Or.inl ⟨cancelled, attention, parsed⟩⟩
  | draining phase socket cancelled result worker disturbed token =>
    exact ⟨socket, result, Or.inr ⟨cancelled, worker, disturbed⟩⟩
  | finished phase => rw [hphase] at phase; cases phase
  | failed phase => rw [hphase] at phase; cases phase
  | settled phase =>
    rw [hphase] at phase
    rcases phase with h | h
    · cases h
    · cases h

/-- Data arrive. -/
theorem Inv.handle_tcp {bytes : List UInt8} {rest : List (Msg ε)} (h : Inv codec k w)
    (hmailbox : w.mailbox = .tcp k.socket bytes :: rest) (hphase : w.io.phase = .receiving)
    (hfresh : o.worker = k.first + w.calls.length) :
    Inv codec k (World.apply { w with mailbox := rest }
      (Io.consume codec o k.command { w.io with buffer := w.io.buffer ++ bytes })) := by
  obtain ⟨hsocket, hresult, hstate⟩ := h.state.receiving hphase
  have hsane := h.sane.tail hmailbox
  have hcount : w.tokens k = World.tokens k { w with mailbox := rest } + 1 := by
    unfold World.tokens
    rw [hmailbox, List.countP_cons_of_pos (by exact decide_eq_true rfl)]
    exact (Nat.add_assoc _ _ _).symm
  rcases hstate with ⟨hcancelled, hattention, hparsed⟩ | ⟨hcancelled, hworker, hdisturbed⟩
  · cases hattention with
    | reading worker returned more token =>
      have htoken : World.tokens k { w with mailbox := rest } = 0 := by omega
      have hnone := data_eq_nil (tokens_eq_zero_iff.mp htoken).2
      have hready : Ready codec k { w with
          mailbox := rest
          io := { w.io with buffer := w.io.buffer ++ bytes } } := by
        refine ⟨hphase, hsocket, hcancelled, worker, hresult, returned, htoken, ?_,
          hsane.known, hsane.calm, hsane.ordered, hsane.read⟩
        rw [hmailbox, List.flatMap_cons] at hparsed
        dsimp only at hnone
        rw [hnone, List.append_nil] at hparsed
        have hdata : Msg.data k.socket (Msg.tcp (ε := ε) k.socket bytes) = bytes := if_pos rfl
        rw [hdata] at hparsed
        exact hparsed
      exact hready.consume hfresh
    | calling earlier call calls worker returned outstanding token => omega
    | lost earlier call calls worker returned died reported token => omega
  · have hdrained : Drained o k.command { w.io with buffer := w.io.buffer ++ bytes }
        (Io.consume codec o k.command { w.io with buffer := w.io.buffer ++ bytes }) :=
      consume_cancelled hworker hcancelled
    exact Inv.drained (w := { w with mailbox := rest }) hdrained hphase hsocket hcancelled hworker
      hresult hdisturbed hsane

/-- The callback that is waited for has returned. -/
theorem Inv.handle_done {worker : ℕ} {rest : List (Msg ε)} (h : Inv codec k w)
    (hmailbox : w.mailbox = .outputDone worker :: rest) (hphase : w.io.phase = .receiving)
    (hworker : w.io.worker = some worker) (hfresh : o.worker = k.first + w.calls.length) :
    Inv codec k (World.apply { w with mailbox := rest }
      (Io.consume codec o k.command { w.io with worker := none })) := by
  obtain ⟨hsocket, hresult, hstate⟩ := h.state.receiving hphase
  have hsane := h.sane.tail hmailbox
  have hcount : World.tokens k { w with mailbox := rest } = w.tokens k := by
    unfold World.tokens
    rw [hmailbox, List.countP_cons_of_neg (by exact Bool.false_ne_true)]
  rcases hstate with ⟨hcancelled, hattention, hparsed⟩ | ⟨-, hnone, -⟩
  · cases hattention with
    | reading none returned more token =>
      rw [hworker] at none
      cases none
    | calling earlier call calls worker' returned outstanding token =>
      rw [hworker] at worker'
      cases worker'
      rw [hmailbox] at outstanding
      rcases outstanding.next with ⟨habout, -⟩ | ⟨-, hreturned⟩ | ⟨hexit, -⟩
      · exact absurd rfl habout
      · have htoken : World.tokens k { w with mailbox := rest } = 0 := hcount.trans token
        have hnone := data_eq_nil (tokens_eq_zero_iff.mp htoken).2
        have hall : ∀ call ∈ w.calls, call.returned = true := by
          intro call' hcall'
          rw [calls] at hcall'
          rcases List.mem_append.mp hcall' with hmem | hmem
          · exact returned call' hmem
          · rw [List.mem_singleton.mp hmem]
            exact hreturned
        have hready : Ready codec k { w with
            mailbox := rest
            io := { w.io with worker := none } } := by
          refine ⟨hphase, hsocket, hcancelled, rfl, hresult, hall, htoken, ?_,
            hsane.known, hsane.calm, hsane.ordered, hsane.read⟩
          rw [hmailbox, List.flatMap_cons] at hparsed
          dsimp only at hnone
          rw [hnone, List.append_nil] at hparsed
          have hdata : Msg.data k.socket
              (Msg.outputDone (ε := ε) (k.first + earlier.length)) = [] := rfl
          rw [hdata, List.append_nil] at hparsed
          exact hparsed
        exact hready.consume hfresh
      · cases hexit
    | lost earlier call calls none returned died reported token =>
      rw [hworker] at none
      cases none
  · rw [hworker] at hnone
    cases hnone

/-- The worker that is waited for has ended before its function returned. -/
theorem Inv.handle_exit {worker : ℕ} {rest : List (Msg ε)} (h : Inv codec k w)
    (hmailbox : w.mailbox = .exit worker :: rest) (hphase : w.io.phase = .receiving)
    (hworker : w.io.worker = some worker) :
    Inv codec k (World.apply { w with mailbox := rest } ({ w.io with worker := none },
      [.report (.cancelCommand k.command .outputConsumerDown)])) := by
  obtain ⟨hsocket, hresult, hstate⟩ := h.state.receiving hphase
  have hsane := h.sane.tail hmailbox
  refine ⟨?_, hsane.known, hsane.calm, hsane.ordered, hsane.read⟩
  rcases hstate with ⟨hcancelled, hattention, hparsed⟩ | ⟨-, hnone, -⟩
  · rw [hmailbox, List.flatMap_cons] at hparsed
    have hreport : World.NoResult (World.apply { w with mailbox := rest }
        ({ w.io with worker := none },
          [.report (.cancelCommand k.command .outputConsumerDown)])) := by
      refine noResult_snoc hresult rfl ?_
      intro command result heq
      cases heq
    refine .flowing hphase hsocket hcancelled hreport hparsed ?_
    cases hattention with
    | reading none returned more token =>
      rw [hworker] at none
      cases none
    | calling earlier call calls worker' returned outstanding token =>
      rw [hworker] at worker'
      cases worker'
      have htoken : World.tokens k { w with mailbox := rest } = w.tokens k := by
        unfold World.tokens
        rw [hmailbox, List.countP_cons_of_neg (by exact Bool.false_ne_true)]
      rw [hmailbox] at outstanding
      rcases outstanding.next with ⟨habout, -⟩ | ⟨hdone, -⟩ | ⟨-, hdied⟩
      · exact absurd rfl habout
      · cases hdone
      · exact .lost earlier call calls rfl returned hdied
          (List.mem_append_right _ List.mem_cons_self) (htoken.trans token)
    | lost earlier call calls none returned died reported token =>
      rw [hworker] at none
      cases none
  · rw [hworker] at hnone
    cases hnone

/-- Killing a worker and writing to the guest changes nothing at once. -/
theorem apply_kill (io : Io) (worker : Option ℕ) (acts : List (Act ε)) :
    w.apply (io, worker.toList.map Act.kill ++ acts) = w.apply (io, acts) := by
  cases worker with
  | none => rfl
  | some worker => rfl

/-- A request to cancel the command. -/
theorem Inv.handle_cancel {reason : Reason} {rest : List (Msg ε)} (h : Inv codec k w)
    (hmailbox : w.mailbox = .cancel k.command reason :: rest) (hphase : w.io.phase = .receiving) :
    Inv codec k (World.apply { w with mailbox := rest }
      (w.io.cancel codec o k.command reason)) := by
  have hskip : Inv codec k { w with mailbox := rest } :=
    h.skip hmailbox rfl fun _ _ habout => habout
  obtain ⟨hsocket, hresult, -⟩ := h.state.receiving hphase
  have hdisturbed : w.disturbed = true := by
    by_contra hfalse
    have hcalm := h.sane.calm (Bool.eq_false_iff.mpr hfalse) (.cancel k.command reason)
    rw [hmailbox] at hcalm
    exact hcalm List.mem_cons_self rfl
  unfold Io.cancel
  by_cases hcancelled : w.io.cancelled.isSome = true
  · rw [if_pos hcancelled]
    exact hskip
  · rw [if_neg hcancelled]
    have hfinish : ∀ failure : Failure ε, Inv codec k (World.apply { w with mailbox := rest }
        ((w.io.finish failure).1, w.io.worker.toList.map Act.kill ++ (w.io.finish failure).2)) := by
      intro failure
      rw [apply_kill]
      exact .settled hresult (Or.inl hdisturbed) hskip.sane
    dsimp only
    split
    · cases o.sent with
      | ok sent =>
        have hdrained : Drained o k.command
            { w.io with worker := none, cancelled := some reason }
            (Io.consume codec o k.command
              { w.io with worker := none, cancelled := some reason }) :=
          consume_cancelled rfl rfl
        have hdone : Inv codec k (World.apply { w with mailbox := rest }
            (Io.consume codec o k.command
              { w.io with worker := none, cancelled := some reason })) :=
          .drained hdrained hphase hsocket rfl rfl hresult hdisturbed hskip.sane
        dsimp only
        rw [apply_kill]
        exact hdone
      | error error => exact hfinish _
    · exact hfinish _

/-- The process handles a message. -/
theorem Inv.handle {m : Msg ε} {rest : List (Msg ε)} (h : Inv codec k w)
    (hmailbox : w.mailbox = m :: rest) (hphase : w.io.phase = .receiving)
    (hfresh : o.worker = k.first + w.calls.length) :
    Inv codec k (World.apply { w with mailbox := rest }
      (w.io.receiveOutput codec o k.command m)) := by
  obtain ⟨hsocket, hresult, -⟩ := h.state.receiving hphase
  have hclosed : m.Disturbing k → m.isData k.socket = false →
      (∀ p, w.io.worker = some p → ¬ m.About p) → ∀ failure : Failure ε,
      Inv codec k (World.apply { w with mailbox := rest } (w.io.finish failure)) := by
    intro hdisturbing hdata habout failure
    have hskip : Inv codec k { w with mailbox := rest } := h.skip hmailbox hdata habout
    have hdisturbed : w.disturbed = true := by
      by_contra hfalse
      have hcalm := h.sane.calm (Bool.eq_false_iff.mpr hfalse) m
      rw [hmailbox] at hcalm
      exact hcalm List.mem_cons_self hdisturbing
    exact .settled hresult (Or.inl hdisturbed) hskip.sane
  unfold Io.receiveOutput
  cases m with
  | tcp socket bytes =>
    dsimp only
    split
    · rename_i heq
      rw [hsocket] at heq
      cases heq
      exact h.handle_tcp hmailbox hphase hfresh
    · rename_i hne
      rw [hsocket] at hne
      refine h.skip hmailbox ?_ fun _ _ habout => habout
      exact decide_eq_false fun heq => hne (congrArg some heq)
  | tcpClosed socket =>
    dsimp only
    rw [hsocket]
    split
    · rename_i heq
      exact hclosed (Option.some.inj heq) rfl (fun _ _ habout => habout) _
    · exact h.skip hmailbox rfl fun _ _ habout => habout
  | tcpError socket reason =>
    dsimp only
    rw [hsocket]
    split
    · rename_i heq
      exact hclosed (Option.some.inj heq) rfl (fun _ _ habout => habout) _
    · exact h.skip hmailbox rfl fun _ _ habout => habout
  | outputDone worker =>
    dsimp only
    split
    · rename_i heq
      exact h.handle_done hmailbox hphase heq.symm hfresh
    · rename_i hne
      refine h.skip hmailbox rfl ?_
      intro p hp habout
      have heq : worker = p := habout
      rw [heq, hp] at hne
      exact hne rfl
  | exit worker =>
    dsimp only
    split
    · rename_i heq
      exact h.handle_exit hmailbox hphase heq.symm
    · rename_i hne
      refine h.skip hmailbox rfl ?_
      intro p hp habout
      have heq : worker = p := habout
      rw [heq, hp] at hne
      exact hne rfl
  | cancel command reason =>
    dsimp only
    split
    · rename_i heq
      rw [heq] at hmailbox
      exact h.handle_cancel hmailbox hphase
    · exact h.skip hmailbox rfl fun _ _ habout => habout
  | execute command request => exact h.skip hmailbox rfl fun _ _ habout => habout
  | other => exact h.skip hmailbox rfl fun _ _ habout => habout

/-- One step keeps the invariant. -/
theorem Inv.step {w' : World ε} (h : Inv codec k w) (hstep : Step codec k w w') :
    Inv codec k w' := by
  cases hstep with
  | deliver bytes armed => exact h.deliver bytes armed
  | disturb m disturbing => exact h.disturb m disturbing
  | foreign m isForeign => exact h.foreign m isForeign
  | returns i call hcall running => exact h.returns hcall running
  | ends i call hcall alive => exact h.ends hcall alive
  | handle o m rest hmailbox receiving fresh => exact h.handle hmailbox receiving fresh

/-- So does every run. -/
theorem Inv.run {w' : World ε} (h : Inv codec k w) (hrun : Run codec k w w') :
    Inv codec k w' := by
  induction hrun with
  | refl => exact h
  | step before last ih => exact ih.step last

end Handling

end Sower.Vm.Streaming
