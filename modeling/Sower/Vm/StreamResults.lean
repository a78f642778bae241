import Sower.Vm.StreamRuns

/-!
# What the caller gets

The guest writes frames of output and one frame that ends the command. The callbacks
get the payloads in order, and the result follows the last of them. Once the command
is cancelled nobody is called.
-/

namespace Sower.Vm.Streaming

open Protocol Framing

section Results

variable {ε : Type} {codec : Codec} {k : Session} {w w' : World ε}

theorem execute_opened {io : Io} {opening : Opening ε} {now : ℤ} {command socket : ℕ}
    (hconnection : io.connection opening = .ok socket)
    (hphase : (io.execute opening now command).1.phase = .receiving) :
    (io.execute opening now command).1 = { io with
      command := some command
      started := now
      cancelled := none
      buffer := []
      socket := some socket
      phase := .receiving } := by
  have hsame : Io.connection opening { io with
      command := some command, started := now, cancelled := none, buffer := [] } = .ok socket :=
    hconnection
  unfold Io.execute at hphase ⊢
  dsimp only at hphase ⊢
  rw [hsame] at hphase ⊢
  cases hframe : opening.frame with
  | error reason =>
    rw [hframe] at hphase
    cases hphase
  | ok frame =>
    rw [hframe] at hphase
    cases hsent : opening.sent with
    | error reason =>
      rw [hsent] at hphase
      cases hphase
    | ok sent =>
      rw [hsent] at hphase
      cases harmed : opening.armed with
      | error reason =>
        rw [harmed] at hphase
        cases hphase
      | ok armed => rfl

theorem World.Opened.inv (h : w.Opened k) : Inv codec k w := by
  obtain ⟨io, opening, now, hworker, hconnection, hopened, hphase⟩ := h.io
  have hcount : w.mailbox.countP (Msg.isData k.socket) = 0 := by
    rw [List.countP_eq_zero]
    intro m hm
    exact Bool.eq_false_iff.mp (isData_of_foreign (h.mailbox m hm))
  have hphase' := hphase
  rw [← hopened] at hphase'
  have hio := execute_opened hconnection hphase'
  rw [hopened] at hio
  constructor
  · refine .flowing hphase ?_ ?_ ?_ ?_ (.reading ?_ ?_ ?_ ?_)
    · rw [hio]
    · rw [hio]
    · intro command result hmem
      rw [h.reports] at hmem
      cases hmem
    · rw [h.arrived, data_eq_nil hcount, hio]
      unfold World.events
      rw [h.calls]
      rfl
    · rw [hio]
      exact hworker
    · intro call hcall
      rw [h.calls] at hcall
      cases hcall
    · rw [hio]
      rfl
    · unfold World.tokens
      rw [h.armed, hcount]
      rfl
  · refine ⟨?_, ?_, ?_, [], ?_⟩
    · intro m hm
      exact known_of_foreign (h.mailbox m hm) _
    · intro _ m hm
      exact not_disturbing_of_foreign (h.mailbox m hm)
    · intro earlier call hcalls
      rw [h.calls] at hcalls
      have hne : earlier ++ [call] ≠ [] :=
        List.append_ne_nil_of_right_ne_nil earlier (List.cons_ne_nil call [])
      exact absurd hcalls.symm hne
    · unfold World.events
      rw [h.arrived, h.calls]
      rfl

/-- Frames of output, followed by the frame that ends the command. -/
structure Transcript (codec : Codec) where
  outputs : List (Stream × List UInt8)
  /-- Body of the last frame. -/
  metadata : List UInt8
  terminal : Event
  small : ∀ output ∈ outputs, output.2.length ≤ maxFrame
  bounded : metadata.length ≤ maxFrame
  decoded : Protocol.event codec 1 metadata = .ok terminal
  ends : ∃ result, Answers terminal result

/-- What the callbacks have been given. -/
def World.outputs (w : World ε) : List (Stream × List UInt8) := w.calls.map Call.output

def Stream.kind : Stream → UInt8
  | .stdout => 2
  | .stderr => 3

/-- What the guest writes. -/
def Transcript.bytes (t : Transcript codec) : List UInt8 :=
  t.outputs.flatMap (fun output => encode output.1.kind output.2) ++ encode 1 t.metadata

/-- What the host reads. -/
def Transcript.events (t : Transcript codec) : List Event :=
  t.outputs.map (fun output => output.1.event output.2) ++ [t.terminal]

theorem parses_frames (outputs : List (Stream × List UInt8))
    (hsmall : ∀ output ∈ outputs, output.2.length ≤ maxFrame) (rest : List UInt8) :
    Parses codec (outputs.flatMap (fun output => encode output.1.kind output.2) ++ rest)
      (outputs.map fun output => output.1.event output.2) rest := by
  induction outputs with
  | nil => rfl
  | cons output outputs ih =>
    obtain ⟨stream, bytes⟩ := output
    have hkind : stream.kind ∈ [1, 2, 3] := by
      cases stream <;> decide
    have hevent : Protocol.event codec stream.kind bytes = .ok (stream.event bytes) := by
      cases stream <;> rfl
    have hdecode : decodeFrame codec (encode stream.kind bytes ++
        (outputs.flatMap (fun output => encode output.1.kind output.2) ++ rest)) = _ :=
      decodeFrame_encode hkind (hsmall _ List.mem_cons_self) _
    rw [hevent] at hdecode
    rw [List.flatMap_cons, List.append_assoc]
    exact ⟨_, hdecode, ih fun output houtput => hsmall output (List.mem_cons_of_mem _ houtput)⟩

theorem Transcript.parses (t : Transcript codec) (rest : List UInt8) :
    Parses codec (t.bytes ++ rest) t.events rest := by
  have hfirst : Parses codec _ _ (encode 1 t.metadata ++ rest) :=
    parses_frames t.outputs t.small (encode 1 t.metadata ++ rest)
  have hlast : decodeFrame codec (encode 1 t.metadata ++ rest) = _ :=
    decodeFrame_encode (by decide) t.bounded rest
  rw [t.decoded] at hlast
  unfold Transcript.bytes
  rw [List.append_assoc]
  exact hfirst.snoc hlast

theorem Transcript.terminal_output? (t : Transcript codec) : output? t.terminal = none := by
  obtain ⟨result, hresult⟩ := t.ends
  cases hterminal : t.terminal with
  | exited code signal => rfl
  | guestError message => rfl
  | ready contract => rw [hterminal] at hresult; cases hresult
  | stdout bytes => rw [hterminal] at hresult; cases hresult
  | stderr bytes => rw [hterminal] at hresult; cases hresult

/-- An event that is output says of which stream and what. -/
theorem outputs_of_events {outputs : List (Stream × List UInt8)}
    (h : w.events = outputs.map fun output => output.1.event output.2) : w.outputs = outputs := by
  have hread : ∀ output : Stream × List UInt8, output? (output.1.event output.2) = some output :=
    fun output => output?_event output.1 output.2
  have hevents : w.events = w.outputs.map fun output => output.1.event output.2 := by
    unfold World.events World.outputs
    rw [List.map_map]
    rfl
  rw [hevents] at h
  have hmapped := congrArg (List.map output?) h
  rw [List.map_map, List.map_map] at hmapped
  have hsome : (output? ∘ fun output : Stream × List UInt8 => output.1.event output.2) = some :=
    funext hread
  rw [hsome] at hmapped
  exact List.map_injective_iff.mpr (fun _ _ => Option.some.inj) hmapped

/-- Only the last event of a transcript is no output. -/
theorem Transcript.not_mem_events (t : Transcript codec) : t.terminal ∉ w.events := by
  intro hmem
  obtain ⟨call, -, hcall⟩ := List.mem_map.mp hmem
  have hnone := t.terminal_output?
  rw [← hcall, Call.event, output?_event] at hnone
  cases hnone

/-- Whatever is read of a transcript, the transcript has more, or has been read whole. -/
theorem Transcript.compare (t : Transcript codec) {events : List Event}
    {rest later front : List UInt8} (hparsed : Parses codec w.arrived events rest)
    (harrived : w.arrived ++ later = t.bytes ++ front) :
    (∃ more, t.events = events ++ more ∧ Parses codec (rest ++ later) more front) ∨
      ∃ more, events = t.events ++ more := by
  have hread := hparsed.append later
  rw [harrived] at hread
  rcases hread.comparable (t.parses front) with ⟨more, hevents, hmore⟩ | ⟨more, hevents, -⟩
  · exact Or.inl ⟨more, hevents, hmore⟩
  · exact Or.inr ⟨more, hevents⟩

/-- Behind the payloads handed out the transcript has another frame. -/
theorem Transcript.rest_of_calls (t : Transcript codec) {rest later front : List UInt8}
    (hparsed : Parses codec w.arrived w.events rest)
    (harrived : w.arrived ++ later = t.bytes ++ front) :
    ∃ e more later', t.events = w.events ++ e :: more ∧
      decodeFrame codec (rest ++ later) = .event e later' := by
  rcases t.compare hparsed harrived with ⟨more, hevents, hmore⟩ | ⟨more, hevents⟩
  · cases more with
    | nil =>
      have hmem : t.terminal ∈ t.events := List.mem_append_right _ List.mem_cons_self
      rw [hevents, List.append_nil] at hmem
      exact absurd hmem t.not_mem_events
    | cons e more =>
      obtain ⟨later', hdecode, -⟩ := hmore
      exact ⟨e, more, later', hevents, hdecode⟩
  · have hmem : t.terminal ∈ w.events := by
      rw [hevents]
      exact List.mem_append_left _ (List.mem_append_right _ List.mem_cons_self)
    exact absurd hmem t.not_mem_events

/-- An event of the transcript is output, or it ends the command. -/
theorem Transcript.event_cases (t : Transcript codec) {e : Event} (h : e ∈ t.events) :
    (∃ output, output? e = some output) ∨ e = t.terminal := by
  rcases List.mem_append.mp h with hmem | hmem
  · obtain ⟨output, -, houtput⟩ := List.mem_map.mp hmem
    rw [← houtput]
    exact Or.inl ⟨_, output?_event output.1 output.2⟩
  · exact Or.inr (List.mem_singleton.mp hmem)

/-- The payloads handed out are a beginning of the transcript's. -/
theorem Transcript.outputs_prefix (t : Transcript codec) {later front : List UInt8}
    (h : Sane codec k w) (harrived : w.arrived ++ later = t.bytes ++ front) :
    w.outputs <+: t.outputs := by
  obtain ⟨rest, hparsed⟩ := h.read
  obtain ⟨e, more, later', hevents, -⟩ := t.rest_of_calls hparsed harrived
  have hlength : w.events.length ≤ t.outputs.length := by
    have hsame := congrArg List.length hevents
    unfold Transcript.events at hsame
    rw [List.length_append, List.length_append, List.length_map, List.length_singleton,
      List.length_cons] at hsame
    omega
  have htake : w.events =
      (t.outputs.take w.events.length).map fun output => output.1.event output.2 := by
    have hfront := congrArg (List.take w.events.length) hevents
    rw [List.take_left] at hfront
    unfold Transcript.events at hfront
    rw [List.take_append_of_le_length (by rw [List.length_map]; exact hlength)] at hfront
    rw [List.map_take]
    exact hfront.symm
  rw [outputs_of_events htake]
  exact List.take_prefix _ _

/-- A last event that is no output is the transcript's, behind all of its output. -/
theorem Transcript.outputs_of_terminal (t : Transcript codec) {e : Event}
    {rest later front : List UInt8} (hparsed : Parses codec w.arrived (w.events ++ [e]) rest)
    (hterminal : output? e = none) (harrived : w.arrived ++ later = t.bytes ++ front) :
    w.outputs = t.outputs ∧ e = t.terminal := by
  have hshort : ∀ more, t.events = w.events ++ [e] ++ more → w.outputs = t.outputs ∧
      e = t.terminal := by
    intro more hevents
    have hmem : e ∈ t.events := by
      rw [hevents]
      exact List.mem_append_left _ (List.mem_append_right _ List.mem_cons_self)
    rcases t.event_cases hmem with ⟨output, houtput⟩ | heq
    · rw [hterminal] at houtput
      cases houtput
    · refine ⟨?_, heq⟩
      rcases List.eq_nil_or_concat more with hnil | ⟨front', last, hconcat⟩
      · rw [hnil, List.append_nil] at hevents
        exact outputs_of_events (List.append_inj_left' hevents rfl).symm
      · rw [hconcat, List.concat_eq_append, ← List.append_assoc] at hevents
        have houtputs := List.append_inj_left' hevents rfl
        have hmem' : e ∈ t.outputs.map fun output => output.1.event output.2 := by
          rw [houtputs]
          exact List.mem_append_left _ (List.mem_append_right _ List.mem_cons_self)
        obtain ⟨output, -, houtput⟩ := List.mem_map.mp hmem'
        rw [← houtput, output?_event] at hterminal
        cases hterminal
  rcases t.compare hparsed harrived with ⟨more, hevents, -⟩ | ⟨more, hevents⟩
  · exact hshort more hevents
  · rcases List.eq_nil_or_concat more with hnil | ⟨front', last, hconcat⟩
    · rw [hnil, List.append_nil] at hevents
      exact hshort [] (by rw [List.append_nil]; exact hevents.symm)
    · rw [hconcat, List.concat_eq_append, ← List.append_assoc] at hevents
      have hmem : t.terminal ∈ w.events := by
        rw [List.append_inj_left' hevents rfl]
        exact List.mem_append_left _ (List.mem_append_right _ List.mem_cons_self)
      exact absurd hmem t.not_mem_events

/-- What a run has done with a transcript that arrives at the socket. -/
structure Streamed (t : Transcript codec) (k : Session) (w : World ε) : Prop where
  /-- The callbacks have been given the first payloads, in order. -/
  payloads : w.outputs <+: t.outputs
  /-- The result is that of the last frame, and follows all callbacks. -/
  result : ∀ command result, .commandFinished command result ∈ w.reports →
    w.outputs = t.outputs ∧ (∀ call ∈ w.calls, call.returned = true) ∧ Answers t.terminal result
  /-- Where nothing is left to handle, the result has been reported, or the socket is armed
  and part of the transcript has yet to arrive. -/
  progress : w.mailbox = [] → (∀ call ∈ w.calls, call.returned = true) → w.disturbed = false →
    w.io.phase ≠ .crashed → (∃ result, .commandFinished k.command result ∈ w.reports) ∨
      w.armed = true ∧ ¬ t.bytes <+: w.arrived

theorem Inv.streamed (t : Transcript codec) {later front : List UInt8} (h : Inv codec k w)
    (hcancelled : w.io.cancelled = none) (harrived : w.arrived ++ later = t.bytes ++ front) :
    Streamed t k w := by
  have hno : w.NoResult → ∀ command result, .commandFinished command result ∈ w.reports →
      w.outputs = t.outputs ∧ (∀ call ∈ w.calls, call.returned = true) ∧
        Answers t.terminal result := by
    intro hnone command result hmem
    exact absurd hmem (hnone command result)
  have hcancel : ∀ {P : Prop}, w.io.cancelled.isSome → P := by
    intro P hsome
    rw [hcancelled] at hsome
    cases hsome
  refine ⟨t.outputs_prefix h.sane harrived, ?_, ?_⟩
  · cases h.state with
    | flowing phase socket cancelled result => exact hno result
    | draining phase socket cancelled result => exact hno result
    | finished phase cancelled e rest parsed terminal returned reported result =>
      intro command result' hmem
      obtain ⟨houtputs, heq⟩ := t.outputs_of_terminal parsed terminal harrived
      rw [← heq]
      exact ⟨houtputs, returned, result command result' hmem⟩
    | failed phase cancelled result => exact hcancel cancelled
    | settled phase result cause => exact hno result
  · intro hmailbox hreturned hdisturbed hcrashed
    cases h.state with
    | flowing phase socket cancelled result parsed attention =>
      right
      rw [hmailbox, List.flatMap_nil, List.append_nil] at parsed
      cases attention with
      | reading worker returned more token =>
        refine ⟨?_, ?_⟩
        · by_contra hunarmed
          unfold World.tokens at token
          rw [if_neg hunarmed, hmailbox] at token
          cases token
        · intro hall
          obtain ⟨tail, htail⟩ := hall
          have hwhole : w.arrived ++ [] = t.bytes ++ tail := by
            rw [List.append_nil, htail]
          obtain ⟨e, more', later', -, hdecode⟩ := t.rest_of_calls parsed hwhole
          rw [List.append_nil, more] at hdecode
          cases hdecode
      | calling earlier call calls worker returned outstanding token =>
        have hcall := hreturned call (by rw [calls]; exact List.mem_append_right _ List.mem_cons_self)
        rw [hmailbox] at outstanding
        cases outstanding with
        | running hfalse =>
          rw [hcall] at hfalse
          cases hfalse
        | returned _ before after hnil =>
          exact absurd hnil.symm (List.append_ne_nil_of_right_ne_nil before (List.cons_ne_nil _ _))
        | died hfalse =>
          rw [hcall] at hfalse
          cases hfalse
      | lost earlier call calls worker returned died reported token =>
        have hcall := hreturned call (by rw [calls]; exact List.mem_append_right _ List.mem_cons_self)
        rw [hcall] at died
        cases died.1
    | draining phase socket cancelled => exact hcancel cancelled
    | finished phase cancelled e rest parsed terminal returned reported result =>
      exact Or.inl reported
    | failed phase cancelled => exact hcancel cancelled
    | settled phase result cause =>
      rcases cause with htrue | htrue | ⟨rest, hparsed, hunexpected⟩
      · rw [hdisturbed] at htrue
        cases htrue
      · exact absurd htrue hcrashed
      · obtain ⟨e, more, later', hevents, hdecode⟩ := t.rest_of_calls hparsed harrived
        have hmem : e ∈ t.events := by
          rw [hevents]
          exact List.mem_append_right _ List.mem_cons_self
        rcases hunexpected.append later with ⟨reason, herror⟩ | ⟨e', later'', hevent, hnone, hno'⟩
        · rw [hdecode] at herror
          cases herror
        · rw [hdecode] at hevent
          cases hevent
          rcases t.event_cases hmem with ⟨output, houtput⟩ | heq
          · rw [hnone] at houtput
            cases houtput
          · obtain ⟨result', hresult'⟩ := t.ends
            rw [← heq] at hresult'
            exact absurd hresult' (hno' result')

/-- The command is cancelled, or the process no longer receives its output. -/
def World.Silent (w : World ε) : Prop := w.io.cancelled.isSome ∨ w.io.phase ≠ .receiving

theorem apply_drained {o : Oracle ε} {io : Io} {outcome : Io × List (Act ε)}
    (h : Drained o k.command io outcome) :
    (w.apply outcome).calls = w.calls ∧ (w.apply outcome).io.cancelled = io.cancelled := by
  cases h with
  | armed buffer => exact ⟨rfl, rfl⟩
  | crashed buffer => exact ⟨rfl, rfl⟩
  | finished buffer failure => exact ⟨rfl, rfl⟩
  | completed buffer error => exact ⟨rfl, rfl⟩

/-- A silent process calls nobody, and stays silent. -/
theorem Inv.silent_step (h : Inv codec k w) (hsilent : w.Silent) (hstep : Step codec k w w') :
    w'.outputs = w.outputs ∧ w'.Silent := by
  cases hstep with
  | deliver bytes armed => exact ⟨rfl, hsilent⟩
  | disturb m disturbing => exact ⟨rfl, hsilent⟩
  | foreign m isForeign => exact ⟨rfl, hsilent⟩
  | returns i call hcall running => exact ⟨map_set hcall rfl, hsilent⟩
  | ends i call hcall alive => exact ⟨map_set hcall rfl, hsilent⟩
  | handle o m rest hmailbox receiving fresh =>
    have hcancelled : w.io.cancelled.isSome := by
      rcases hsilent with hcancelled | hphase
      · exact hcancelled
      · exact absurd receiving hphase
    obtain ⟨-, -, hstate⟩ := h.state.receiving receiving
    rcases hstate with ⟨hnone, -⟩ | ⟨-, hworker, -⟩
    · rw [hnone] at hcancelled
      cases hcancelled
    · have hcases : w.io.receiveOutput codec o k.command m = (w.io, []) ∨
          Drained o k.command w.io (w.io.receiveOutput codec o k.command m) :=
        receiveOutput_cancelled hworker hcancelled m
      rcases hcases with hskip | hdrained
      · rw [hskip]
        exact ⟨rfl, hsilent⟩
      · obtain ⟨hcalls, hsame⟩ := apply_drained (w := { w with mailbox := rest }) hdrained
        refine ⟨congrArg (List.map Call.output) hcalls, Or.inl ?_⟩
        rw [hsame]
        exact hcancelled

theorem Inv.silent_run (h : Inv codec k w) (hsilent : w.Silent) (hrun : Run codec k w w') :
    w'.outputs = w.outputs := by
  have hboth : w'.outputs = w.outputs ∧ w'.Silent := by
    induction hrun with
    | refl => exact ⟨rfl, hsilent⟩
    | step before last ih =>
      obtain ⟨hstep, hstill⟩ := (h.run before).silent_step ih.2 last
      exact ⟨hstep.trans ih.1, hstill⟩
  exact hboth.1

/-- In every order of data, callbacks, cancel requests and other messages: one callback runs at
a time; as long as the command is not cancelled, the callbacks get the payloads of what the
guest writes, in order, the result comes after the last of them, and the stream does not
stall; and once it is cancelled, or over, nobody is called and the result is an error. -/
theorem streamed_exactly {w₀ : World ε} (hopened : w₀.Opened k) (hrun : Run codec k w₀ w) :
    (∀ earlier call, w.calls = earlier ++ [call] → ∀ call' ∈ earlier, call'.returned = true) ∧
      (w.io.cancelled = none → ∀ (t : Transcript codec) (later front : List UInt8),
        w.arrived ++ later = t.bytes ++ front → Streamed t k w) ∧
      (w.io.cancelled.isSome ∨ w.io.phase ≠ .receiving →
        ∀ w', Run codec k w w' → w'.outputs = w.outputs) ∧
      (w.io.cancelled.isSome → ∀ command result, .commandFinished command result ∈ w.reports →
        ∃ error, result = .error error) := by
  have hinv := hopened.inv.run hrun
  refine ⟨hinv.sane.ordered, ?_, ?_, ?_⟩
  · intro hcancelled t later front harrived
    exact hinv.streamed t hcancelled harrived
  · intro hsilent w' hrun'
    exact hinv.silent_run hsilent hrun'
  · intro hcancelled command result hmem
    cases hinv.state with
    | flowing phase socket cancelled =>
      rw [cancelled] at hcancelled
      cases hcancelled
    | draining phase socket cancelled hnone => exact absurd hmem (hnone command result)
    | finished phase cancelled =>
      rw [cancelled] at hcancelled
      cases hcancelled
    | failed phase cancelled herror => exact herror command result hmem
    | settled phase hnone => exact absurd hmem (hnone command result)

end Results

section Example

/-- One byte of output, and the end of the command with code 0. -/
def letterTranscript : Transcript exitedCodec where
  outputs := [(.stdout, [65])]
  metadata := exitedText
  terminal := .exited (some 0) none
  small output houtput := by
    rw [List.mem_singleton.mp houtput]
    decide
  bounded := by decide
  decoded := event_of_json (exitedCodec_lossless _ rfl)
  ends := ⟨.ok ⟨some 0, none, 0, 0⟩, _, rfl, rfl, rfl⟩

def letterSession : Session where
  command := 1
  socket := 2
  first := 10

/-- The connection is open; the end of an earlier worker is still to be received. -/
def letterOpened : World String where
  io := { contract := 2, socket := some 2, command := some 1, phase := .receiving }
  armed := true
  mailbox := [.exit 9]

theorem letterOpened_opened : letterOpened.Opened letterSession where
  io := ⟨{ contract := 2 }, ⟨.ok 2, .ok [], .ok (), .ok ()⟩, 0, rfl, rfl, rfl, rfl⟩
  armed := rfl
  mailbox m hm := by
    rw [List.mem_singleton.mp hm]
    change 9 < 10
    decide
  calls := rfl
  arrived := rfl
  reports := rfl
  disturbed := rfl

/-- All has arrived, and the first callback has been started. -/
def letterCalled : World String where
  io := { letterOpened.io with buffer := encode 1 exitedText, worker := some 10 }
  armed := false
  mailbox := []
  calls := [{ stream := .stdout, bytes := [65] }]
  arrived := letterTranscript.bytes

theorem letterTranscript_bytes :
    letterTranscript.bytes = encode 2 [65] ++ encode 1 exitedText := by
  simp only [Transcript.bytes, letterTranscript, List.flatMap_cons, List.flatMap_nil,
    List.append_nil, Stream.kind]

theorem letter_received (o : Oracle String) (hworker : o.worker = 10) :
    letterOpened.io.receiveOutput exitedCodec o 1 (.tcp 2 letterTranscript.bytes) =
      (letterCalled.io, [.spawn 10 .stdout [65]]) := by
  have hdecode : decodeFrame exitedCodec letterTranscript.bytes =
      .event (.stdout [65]) (encode 1 exitedText) := by
    rw [letterTranscript_bytes]
    exact decodeFrame_encode (by decide) (by decide) (encode 1 exitedText)
  have hconsume : Io.consume exitedCodec o 1
      { letterOpened.io with buffer := letterTranscript.bytes } = _ := consume_event rfl hdecode
  have hsocket : some 2 = letterOpened.io.socket := rfl
  unfold Io.receiveOutput
  dsimp only
  rw [if_pos hsocket]
  change Io.consume exitedCodec o 1 { letterOpened.io with buffer := letterTranscript.bytes } = _
  rw [hconsume, hworker]
  rfl

theorem letter_run : Run exitedCodec letterSession letterOpened letterCalled := by
  have hdeliver : Run exitedCodec letterSession letterOpened { letterOpened with
      armed := false
      arrived := letterTranscript.bytes
      mailbox := [.exit 9, .tcp 2 letterTranscript.bytes] } :=
    .step .refl (.deliver letterTranscript.bytes rfl)
  have hskip : Run exitedCodec letterSession letterOpened { letterOpened with
      armed := false
      arrived := letterTranscript.bytes
      mailbox := [.tcp 2 letterTranscript.bytes] } :=
    .step hdeliver (.handle ⟨0, 10, .ok (), true⟩ (.exit 9) [.tcp 2 letterTranscript.bytes]
      rfl rfl rfl)
  refine .step hskip ?_
  have hhandle : Step exitedCodec letterSession { letterOpened with
      armed := false
      arrived := letterTranscript.bytes
      mailbox := [.tcp 2 letterTranscript.bytes] } _ :=
    .handle ⟨0, 10, .ok (), true⟩ (.tcp 2 letterTranscript.bytes) [] rfl rfl rfl
  change Step exitedCodec letterSession _ (World.apply _ (letterOpened.io.receiveOutput
    exitedCodec ⟨0, 10, .ok (), true⟩ 1 (.tcp 2 letterTranscript.bytes))) at hhandle
  rw [letter_received _ rfl] at hhandle
  exact hhandle

/-- The callback that was started has the first payload. -/
theorem streamed_exactly_letter : Streamed letterTranscript letterSession letterCalled :=
  (streamed_exactly letterOpened_opened letter_run).2.1 rfl letterTranscript [] [] rfl

end Example

end Sower.Vm.Streaming
