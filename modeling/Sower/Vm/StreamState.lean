import Sower.Vm.StreamWorld

/-!
# States of a streamed command

As long as a command is not cancelled, the process either waits for the socket, which
is armed or has delivered, or for the one callback that is running; in both cases the
frames that have arrived are the payloads handed out so far, followed by what is in
the buffer and in the mailbox. What happens around the process keeps this.
-/

namespace Sower.Vm.Streaming

open Protocol Framing

section Messages

variable {ε : Type} {p : ℕ} {call : Call} {m : Msg ε} {mailbox rest : List (Msg ε)}

/-- Data of the socket. -/
def Msg.data (socket : ℕ) : Msg ε → List UInt8
  | .tcp socket' bytes => if socket' = socket then bytes else []
  | _ => []

def Msg.isData (socket : ℕ) : Msg ε → Bool
  | .tcp socket' _ => socket' = socket
  | _ => false

/-- The message says that the callback has returned, or that its worker has ended. -/
def Msg.About (p : ℕ) : Msg ε → Prop
  | .outputDone worker => worker = p
  | .exit worker => worker = p
  | _ => False

theorem data_of_not_isData {socket : ℕ} (h : m.isData socket = false) : m.data socket = [] := by
  cases m with
  | tcp socket' bytes =>
    have hne : ¬ socket' = socket := of_decide_eq_false h
    exact if_neg hne
  | execute command request => rfl
  | tcpClosed socket' => rfl
  | tcpError socket' reason => rfl
  | outputDone worker => rfl
  | exit worker => rfl
  | cancel command reason => rfl
  | other => rfl

/-- Without a message of the socket there are no data. -/
theorem data_eq_nil {socket : ℕ} (h : mailbox.countP (Msg.isData socket) = 0) :
    mailbox.flatMap (Msg.data socket) = [] := by
  rw [List.countP_eq_zero] at h
  rw [List.flatMap_eq_nil_iff]
  intro m hm
  exact data_of_not_isData (Bool.eq_false_iff.mpr (h m hm))

/-- What the mailbox holds about the worker that the process waits for. -/
inductive Outstanding (p : ℕ) (call : Call) (mailbox : List (Msg ε)) : Prop
  | running (hreturned : call.returned = false) (hended : call.ended = false)
    (hsilent : ∀ m ∈ mailbox, ¬ m.About p)
  | returned (hreturned : call.returned = true) (before after : List (Msg ε))
    (hmailbox : mailbox = before ++ .outputDone p :: after) (hsilent : ∀ m ∈ before, ¬ m.About p)
  | died (hreturned : call.returned = false) (hended : call.ended = true)
    (before after : List (Msg ε)) (hmailbox : mailbox = before ++ .exit p :: after)
    (hsilent : ∀ m ∈ before, ¬ m.About p)

theorem Outstanding.receive (h : Outstanding p call mailbox) (hm : ¬ m.About p) :
    Outstanding p call (mailbox ++ [m]) := by
  cases h with
  | running hreturned hended hsilent =>
    refine .running hreturned hended ?_
    intro m' hm'
    rcases List.mem_append.mp hm' with hm' | hm'
    · exact hsilent m' hm'
    · rw [List.mem_singleton.mp hm']
      exact hm
  | returned hreturned before after hmailbox hsilent =>
    refine .returned hreturned before (after ++ [m]) ?_ hsilent
    rw [hmailbox, List.append_assoc]
    rfl
  | died hreturned hended before after hmailbox hsilent =>
    refine .died hreturned hended before (after ++ [m]) ?_ hsilent
    rw [hmailbox, List.append_assoc]
    rfl

theorem Outstanding.returns (h : Outstanding p call mailbox)
    (hrunning : call.returned = false ∧ call.ended = false) :
    Outstanding p { call with returned := true } (mailbox ++ [.outputDone p]) := by
  cases h with
  | running hreturned hended hsilent => exact .returned rfl mailbox [] rfl hsilent
  | returned hreturned before after hmailbox hsilent =>
    rw [hrunning.1] at hreturned
    cases hreturned
  | died hreturned hended before after hmailbox hsilent =>
    rw [hrunning.2] at hended
    cases hended

theorem Outstanding.ends (h : Outstanding p call mailbox) (halive : call.ended = false) :
    Outstanding p { call with ended := true } (mailbox ++ [.exit p]) := by
  cases h with
  | running hreturned hended hsilent => exact .died hreturned rfl mailbox [] rfl hsilent
  | returned hreturned before after hmailbox hsilent =>
    refine .returned hreturned before (after ++ [.exit p]) ?_ hsilent
    rw [hmailbox, List.append_assoc]
    rfl
  | died hreturned hended before after hmailbox hsilent =>
    rw [halive] at hended
    cases hended

/-- The next message is about something else, or it is the first one about the worker. -/
theorem Outstanding.next (h : Outstanding p call (m :: rest)) :
    (¬ m.About p ∧ Outstanding p call rest) ∨ (m = .outputDone p ∧ call.returned = true) ∨
      (m = .exit p ∧ call.returned = false ∧ call.ended = true) := by
  cases h with
  | running hreturned hended hsilent =>
    refine Or.inl ⟨hsilent m List.mem_cons_self, .running hreturned hended ?_⟩
    intro m' hm'
    exact hsilent m' (List.mem_cons_of_mem m hm')
  | returned hreturned before after hmailbox hsilent =>
    cases before with
    | nil =>
      cases hmailbox
      exact Or.inr (Or.inl ⟨rfl, hreturned⟩)
    | cons m' before =>
      cases hmailbox
      refine Or.inl ⟨hsilent m List.mem_cons_self, .returned hreturned before after rfl ?_⟩
      intro m' hm'
      exact hsilent m' (List.mem_cons_of_mem m hm')
  | died hreturned hended before after hmailbox hsilent =>
    cases before with
    | nil =>
      cases hmailbox
      exact Or.inr (Or.inr ⟨rfl, hreturned, hended⟩)
    | cons m' before =>
      cases hmailbox
      refine Or.inl ⟨hsilent m List.mem_cons_self, .died hreturned hended before after rfl ?_⟩
      intro m' hm'
      exact hsilent m' (List.mem_cons_of_mem m hm')

end Messages

section Invariant

variable {ε : Type}

/-- How often the socket may deliver before the process arms it again. -/
def World.tokens (k : Session) (w : World ε) : ℕ :=
  (if w.armed then 1 else 0) + w.mailbox.countP (Msg.isData k.socket)

def World.events (w : World ε) : List Event := w.calls.map Call.event

/-- No result has been reported. -/
def World.NoResult (w : World ε) : Prop :=
  ∀ command result, .commandFinished command result ∉ w.reports

/-- What the process waits for. -/
inductive Attention (codec : Codec) (k : Session) (w : World ε) : Prop
  /-- For the socket: no whole frame is in the buffer, and no callback is running. -/
  | reading (worker : w.io.worker = none) (returned : ∀ call ∈ w.calls, call.returned = true)
    (more : decodeFrame codec w.io.buffer = .more) (token : w.tokens k = 1)
  /-- For the last callback. -/
  | calling (earlier : List Call) (call : Call) (calls : w.calls = earlier ++ [call])
    (worker : w.io.worker = some (k.first + earlier.length))
    (returned : ∀ call ∈ earlier, call.returned = true)
    (outstanding : Outstanding (k.first + earlier.length) call w.mailbox) (token : w.tokens k = 0)
  /-- For the cancel request that follows from the end of a worker. -/
  | lost (earlier : List Call) (call : Call) (calls : w.calls = earlier ++ [call])
    (worker : w.io.worker = none) (returned : ∀ call ∈ earlier, call.returned = true)
    (died : call.returned = false ∧ call.ended = true)
    (reported : .cancelCommand k.command .outputConsumerDown ∈ w.reports) (token : w.tokens k = 0)

/-- The frame that follows is malformed or does not belong into a command. -/
def Unexpected (codec : Codec) (rest : List UInt8) : Prop :=
  (∃ reason, decodeFrame codec rest = .error reason) ∨
    ∃ e later, decodeFrame codec rest = .event e later ∧ output? e = none ∧
      ∀ result, ¬ Answers e result

/-- How far the command has got. -/
inductive State (codec : Codec) (k : Session) (w : World ε) : Prop
  | flowing (phase : w.io.phase = .receiving) (socket : w.io.socket = some k.socket)
    (cancelled : w.io.cancelled = none) (result : w.NoResult)
    (parsed : Parses codec w.arrived w.events
      (w.io.buffer ++ w.mailbox.flatMap (Msg.data k.socket)))
    (attention : Attention codec k w)
  /-- A cancelled command is read to its end. -/
  | draining (phase : w.io.phase = .receiving) (socket : w.io.socket = some k.socket)
    (cancelled : w.io.cancelled.isSome) (result : w.NoResult) (worker : w.io.worker = none)
    (disturbed : w.disturbed = true) (token : 0 < w.tokens k)
  | finished (phase : w.io.phase = .idle) (cancelled : w.io.cancelled = none) (e : Event)
    (rest : List UInt8) (parsed : Parses codec w.arrived (w.events ++ [e]) rest)
    (terminal : output? e = none) (returned : ∀ call ∈ w.calls, call.returned = true)
    (reported : ∃ result, .commandFinished k.command result ∈ w.reports)
    (result : ∀ command result, .commandFinished command result ∈ w.reports → Answers e result)
  | failed (phase : w.io.phase = .idle) (cancelled : w.io.cancelled.isSome)
    (result : ∀ command result, .commandFinished command result ∈ w.reports →
      ∃ error, result = .error error)
  | settled (phase : w.io.phase = .returned ∨ w.io.phase = .crashed) (result : w.NoResult)
    (cause : w.disturbed = true ∨ w.io.phase = .crashed ∨
      ∃ rest, Parses codec w.arrived w.events rest ∧ Unexpected codec rest)

/-- Messages are about workers that have been started. -/
def Msg.Known (k : Session) (calls : ℕ) : Msg ε → Prop
  | .outputDone worker => worker < k.first + calls
  | .exit worker => worker < k.first + calls
  | _ => True

/-- What holds of mailbox and callbacks in every state. -/
structure Sane (codec : Codec) (k : Session) (w : World ε) : Prop where
  known : ∀ m ∈ w.mailbox, m.Known k w.calls.length
  calm : w.disturbed = false → ∀ m ∈ w.mailbox, ¬ m.Disturbing k
  /-- A callback starts when all before it have returned. -/
  ordered : ∀ earlier call, w.calls = earlier ++ [call] → ∀ call' ∈ earlier, call'.returned = true
  /-- The payloads handed out are those at the front of what has arrived. -/
  read : ∃ rest, Parses codec w.arrived w.events rest

/-- The invariant of a run. -/
structure Inv (codec : Codec) (k : Session) (w : World ε) : Prop where
  state : State codec k w
  sane : Sane codec k w

end Invariant

theorem Unexpected.append {codec : Codec} {rest : List UInt8} (h : Unexpected codec rest)
    (more : List UInt8) : Unexpected codec (rest ++ more) := by
  rcases h with ⟨reason, herror⟩ | ⟨e, later, hevent, hunknown⟩
  · exact Or.inl ⟨reason, decodeFrame_append_of_error herror more⟩
  · exact Or.inr ⟨e, later ++ more, decodeFrame_append_of_event hevent more, hunknown⟩

section Surroundings

variable {ε : Type} {codec : Codec} {k : Session} {w w' : World ε}

/-- What happens around the process: what it has done so far stays, and it waits as before. -/
structure Around (k : Session) (w w' : World ε) (more : List UInt8) : Prop where
  io : w'.io = w.io
  reports : w'.reports = w.reports
  arrived : w'.arrived = w.arrived ++ more
  events : w'.events = w.events
  returned : (∀ call ∈ w.calls, call.returned = true) → ∀ call ∈ w'.calls, call.returned = true
  data : w'.mailbox.flatMap (Msg.data k.socket) = w.mailbox.flatMap (Msg.data k.socket) ++ more
  tokens : w'.tokens k = w.tokens k
  disturbed : w.disturbed = true → w'.disturbed = true

theorem State.around {more : List UInt8} (h : State codec k w) (ha : Around k w w' more)
    (hattention : Attention codec k w → Attention codec k w') : State codec k w' := by
  have hresult : w.NoResult → w'.NoResult := by
    intro hnone command result
    rw [ha.reports]
    exact hnone command result
  cases h with
  | flowing phase socket cancelled result parsed attention =>
    have hparsed := parsed.append more
    rw [List.append_assoc, ← ha.data, ← ha.arrived, ← ha.events, ← ha.io] at hparsed
    rw [← ha.io] at phase socket cancelled
    exact .flowing phase socket cancelled (hresult result) hparsed (hattention attention)
  | draining phase socket cancelled result worker disturbed token =>
    rw [← ha.io] at phase socket cancelled worker
    rw [← ha.tokens] at token
    exact .draining phase socket cancelled (hresult result) worker (ha.disturbed disturbed) token
  | finished phase cancelled e rest parsed terminal returned reported result =>
    have hparsed := parsed.append more
    rw [← ha.arrived, ← ha.events] at hparsed
    rw [← ha.io] at phase cancelled
    rw [← ha.reports] at reported result
    exact .finished phase cancelled e _ hparsed terminal (ha.returned returned) reported result
  | failed phase cancelled result =>
    rw [← ha.io] at phase cancelled
    rw [← ha.reports] at result
    exact .failed phase cancelled result
  | settled phase result cause =>
    rw [← ha.io] at phase
    refine .settled phase (hresult result) ?_
    rcases cause with hdisturbed | hcrashed | hparsed
    · exact Or.inl (ha.disturbed hdisturbed)
    · rw [← ha.io] at hcrashed
      exact Or.inr (Or.inl hcrashed)
    · obtain ⟨rest, hparsed, hunexpected⟩ := hparsed
      have hmore := hparsed.append more
      rw [← ha.arrived, ← ha.events] at hmore
      exact Or.inr (Or.inr ⟨rest ++ more, hmore, hunexpected.append more⟩)

/-- A message that does not concern the worker that is waited for. -/
theorem Attention.receive {m : Msg ε} (h : Attention codec k w) (hio : w'.io = w.io)
    (hcalls : w'.calls = w.calls) (hreports : w'.reports = w.reports)
    (hmailbox : w'.mailbox = w.mailbox ++ [m]) (htokens : w'.tokens k = w.tokens k)
    (hm : ∀ p, k.first ≤ p → ¬ m.About p) : Attention codec k w' := by
  cases h with
  | reading worker returned more token =>
    rw [← hio] at worker more
    rw [← hcalls] at returned
    rw [← htokens] at token
    exact .reading worker returned more token
  | calling earlier call calls worker returned outstanding token =>
    have hmore := outstanding.receive (hm _ (Nat.le_add_right _ _))
    rw [← hio] at worker
    rw [← hcalls] at calls
    rw [← htokens] at token
    rw [← hmailbox] at hmore
    exact .calling earlier call calls worker returned hmore token
  | lost earlier call calls worker returned died reported token =>
    rw [← hio] at worker
    rw [← hcalls] at calls
    rw [← hreports] at reported
    rw [← htokens] at token
    exact .lost earlier call calls worker returned died reported token

theorem about_of_foreign {m : Msg ε} (h : m.Foreign k) : ∀ p, k.first ≤ p → ¬ m.About p := by
  intro p hp habout
  cases m with
  | outputDone worker =>
    have hlt : worker < k.first := h
    have heq : worker = p := habout
    omega
  | exit worker =>
    have hlt : worker < k.first := h
    have heq : worker = p := habout
    omega
  | execute command request => exact habout
  | tcp socket bytes => exact habout
  | tcpClosed socket => exact habout
  | tcpError socket reason => exact habout
  | cancel command reason => exact habout
  | other => exact habout

theorem about_of_disturbing {m : Msg ε} (h : m.Disturbing k) : ∀ p, k.first ≤ p → ¬ m.About p := by
  intro p _ habout
  cases m with
  | outputDone worker => exact h
  | exit worker => exact h
  | execute command request => exact habout
  | tcp socket bytes => exact habout
  | tcpClosed socket => exact habout
  | tcpError socket reason => exact habout
  | cancel command reason => exact habout
  | other => exact habout

theorem isData_of_foreign {m : Msg ε} (h : m.Foreign k) : m.isData k.socket = false := by
  cases m with
  | tcp socket bytes => exact decide_eq_false h
  | outputDone worker => rfl
  | exit worker => rfl
  | execute command request => rfl
  | tcpClosed socket => rfl
  | tcpError socket reason => rfl
  | cancel command reason => rfl
  | other => rfl

theorem isData_of_disturbing {m : Msg ε} (h : m.Disturbing k) : m.isData k.socket = false := by
  cases m with
  | tcp socket bytes => cases h
  | outputDone worker => rfl
  | exit worker => rfl
  | execute command request => rfl
  | tcpClosed socket => rfl
  | tcpError socket reason => rfl
  | cancel command reason => rfl
  | other => rfl

/-- A message without data leaves the tokens as they are. -/
theorem tokens_of_receive {m : Msg ε} (harmed : w'.armed = w.armed)
    (hmailbox : w'.mailbox = w.mailbox ++ [m]) (hm : m.isData k.socket = false) :
    w'.tokens k = w.tokens k := by
  unfold World.tokens
  rw [harmed, hmailbox, List.countP_append, List.countP_singleton, hm]
  rfl

theorem data_of_receive {m : Msg ε} (hmailbox : w'.mailbox = w.mailbox ++ [m])
    (hm : m.isData k.socket = false) :
    w'.mailbox.flatMap (Msg.data k.socket) = w.mailbox.flatMap (Msg.data k.socket) ++ [] := by
  rw [hmailbox, List.flatMap_append, List.flatMap_singleton, data_of_not_isData hm]

theorem known_of_foreign {m : Msg ε} (h : m.Foreign k) (calls : ℕ) : m.Known k calls := by
  cases m with
  | outputDone worker => exact Nat.lt_of_lt_of_le h (Nat.le_add_right _ _)
  | exit worker => exact Nat.lt_of_lt_of_le h (Nat.le_add_right _ _)
  | tcp socket bytes => trivial
  | execute command request => trivial
  | tcpClosed socket => trivial
  | tcpError socket reason => trivial
  | cancel command reason => trivial
  | other => trivial

theorem known_of_disturbing {m : Msg ε} (h : m.Disturbing k) (calls : ℕ) : m.Known k calls := by
  cases m with
  | outputDone worker => cases h
  | exit worker => cases h
  | tcp socket bytes => trivial
  | execute command request => trivial
  | tcpClosed socket => trivial
  | tcpError socket reason => trivial
  | cancel command reason => trivial
  | other => trivial

theorem not_disturbing_of_foreign {m : Msg ε} (h : m.Foreign k) : ¬ m.Disturbing k := by
  intro hd
  cases m with
  | tcpClosed socket => exact h hd
  | tcpError socket reason => exact h hd
  | cancel command reason => exact h hd
  | outputDone worker => exact hd
  | exit worker => exact hd
  | tcp socket bytes => exact hd
  | execute command request => exact hd
  | other => exact hd

theorem forall_mem_snoc {m : Msg ε} {mailbox : List (Msg ε)} {P : Msg ε → Prop}
    (h : ∀ m ∈ mailbox, P m) (hm : P m) : ∀ m' ∈ mailbox ++ [m], P m' := by
  intro m' hm'
  rcases List.mem_append.mp hm' with hm' | hm'
  · exact h m' hm'
  · rw [List.mem_singleton.mp hm']
    exact hm

theorem Sane.read_append {more : List UInt8} (h : Sane codec k w)
    (harrived : w'.arrived = w.arrived ++ more) (hevents : w'.events = w.events) :
    ∃ rest, Parses codec w'.arrived w'.events rest := by
  obtain ⟨rest, hparsed⟩ := h.read
  rw [harrived, hevents]
  exact ⟨rest ++ more, hparsed.append more⟩

/-- The socket delivers. -/
theorem Inv.deliver (h : Inv codec k w) (bytes : List UInt8) (harmed : w.armed = true) :
    Inv codec k { w with
      armed := false
      arrived := w.arrived ++ bytes
      mailbox := w.mailbox ++ [.tcp k.socket bytes] } := by
  have htokens : World.tokens k { w with
      armed := false
      arrived := w.arrived ++ bytes
      mailbox := w.mailbox ++ [.tcp k.socket bytes] } = w.tokens k := by
    unfold World.tokens
    dsimp only
    rw [List.countP_append, List.countP_singleton, harmed]
    simp only [Msg.isData, decide_true, if_true, Bool.false_eq_true, if_false]
    omega
  constructor
  · refine h.state.around ⟨rfl, rfl, rfl, rfl, fun hr => hr, ?_, htokens, fun hd => hd⟩ ?_
    · dsimp only
      rw [List.flatMap_append, List.flatMap_singleton]
      simp only [Msg.data, if_true]
    · intro hattention
      exact hattention.receive rfl rfl rfl rfl htokens (fun _ _ habout => habout)
  · refine ⟨forall_mem_snoc h.sane.known trivial, ?_, h.sane.ordered, h.sane.read_append rfl rfl⟩
    intro hd
    exact forall_mem_snoc (h.sane.calm hd) (fun hdisturbing => hdisturbing)

theorem Inv.disturb (h : Inv codec k w) (m : Msg ε) (hm : m.Disturbing k) :
    Inv codec k { w with disturbed := true, mailbox := w.mailbox ++ [m] } := by
  have hdata := isData_of_disturbing hm
  have htokens : World.tokens k { w with disturbed := true, mailbox := w.mailbox ++ [m] } =
      w.tokens k := tokens_of_receive rfl rfl hdata
  have haround : Around k w { w with disturbed := true, mailbox := w.mailbox ++ [m] } [] :=
    ⟨rfl, rfl, (List.append_nil _).symm, rfl, fun hr => hr, data_of_receive rfl hdata, htokens,
      fun _ => rfl⟩
  constructor
  · refine h.state.around haround ?_
    intro hattention
    exact hattention.receive rfl rfl rfl rfl htokens (about_of_disturbing hm)
  · refine ⟨forall_mem_snoc h.sane.known (known_of_disturbing hm _), ?_, h.sane.ordered,
      h.sane.read⟩
    intro hd
    cases hd

theorem Inv.foreign (h : Inv codec k w) (m : Msg ε) (hm : m.Foreign k) :
    Inv codec k { w with mailbox := w.mailbox ++ [m] } := by
  have hdata := isData_of_foreign hm
  have htokens : World.tokens k { w with mailbox := w.mailbox ++ [m] } = w.tokens k :=
    tokens_of_receive rfl rfl hdata
  have haround : Around k w { w with mailbox := w.mailbox ++ [m] } [] :=
    ⟨rfl, rfl, (List.append_nil _).symm, rfl, fun hr => hr, data_of_receive rfl hdata, htokens,
      fun hd => hd⟩
  constructor
  · refine h.state.around haround ?_
    intro hattention
    exact hattention.receive rfl rfl rfl rfl htokens (about_of_foreign hm)
  · refine ⟨forall_mem_snoc h.sane.known (known_of_foreign hm _), ?_, h.sane.ordered, h.sane.read⟩
    intro hd
    exact forall_mem_snoc (h.sane.calm hd) (not_disturbing_of_foreign hm)

end Surroundings

section Workers

variable {ε : Type} {codec : Codec} {k : Session} {w w' : World ε} {calls earlier : List Call}
  {call call' last : Call} {i : ℕ}

theorem map_set {β : Type} {f : Call → β} (hcall : calls[i]? = some call)
    (hf : f call' = f call) : (calls.set i call').map f = calls.map f := by
  obtain ⟨hi, hget⟩ := List.getElem?_eq_some_iff.mp hcall
  apply List.ext_getElem?
  intro j
  rw [List.getElem?_map, List.getElem?_map, List.getElem?_set]
  by_cases hij : i = j
  · rw [if_pos hij, if_pos hi, ← hij, hcall]
    exact congrArg some hf
  · rw [if_neg hij]

/-- A call that has returned stays so. -/
theorem returned_set (h : ∀ call ∈ calls, call.returned = true) (hreturned : call'.returned = true) :
    ∀ call ∈ calls.set i call', call.returned = true := by
  intro call hcall
  rcases List.mem_or_eq_of_mem_set hcall with hmem | heq
  · exact h call hmem
  · rw [heq]
    exact hreturned

/-- The call that changes is the last one or one before it. -/
theorem set_snoc (hcall : (earlier ++ [last])[i]? = some call) (call' : Call) :
    (i = earlier.length ∧ call = last ∧ (earlier ++ [last]).set i call' = earlier ++ [call']) ∨
      (earlier[i]? = some call ∧
        (earlier ++ [last]).set i call' = earlier.set i call' ++ [last]) := by
  by_cases hi : i < earlier.length
  · rw [List.getElem?_append_left hi] at hcall
    exact Or.inr ⟨hcall, List.set_append_left i call' hi⟩
  · have hlength : i < (earlier ++ [last]).length := (List.getElem?_eq_some_iff.mp hcall).1
    rw [List.length_append, List.length_singleton] at hlength
    have heq : i = earlier.length := by omega
    rw [heq, List.getElem?_append_right (le_refl _), Nat.sub_self] at hcall
    left
    refine ⟨heq, (Option.some.inj hcall).symm, ?_⟩
    rw [heq, List.set_append_right _ _ (le_refl _), Nat.sub_self]
    rfl

/-- What returns and what ends is, of all the calls, the one that is waited for. -/
theorem about_succ {m : Msg ε} {p q : ℕ} (hm : m.About q) (hpq : p ≠ q) : ¬ m.About p := by
  intro habout
  cases m with
  | outputDone worker => exact hpq (habout.symm.trans hm)
  | exit worker => exact hpq (habout.symm.trans hm)
  | execute command request => exact hm
  | tcp socket bytes => exact hm
  | tcpClosed socket => exact hm
  | tcpError socket reason => exact hm
  | cancel command reason => exact hm
  | other => exact hm

/-- One call changes, and a message says so. -/
theorem Inv.worker (h : Inv codec k w) (m : Msg ε) (hcall : w.calls[i]? = some call)
    (hevent : call'.event = call.event) (hreturned : call.returned = true → call'.returned = true)
    (halive : call.ended = false)
    (hm : m.About (k.first + i))
    (houtstanding : Outstanding (k.first + i) call w.mailbox →
      Outstanding (k.first + i) call' (w.mailbox ++ [m])) :
    Inv codec k { w with calls := w.calls.set i call', mailbox := w.mailbox ++ [m] } := by
  have hi : i < w.calls.length := (List.getElem?_eq_some_iff.mp hcall).1
  have hdata : m.isData k.socket = false := by
    cases m <;> first | rfl | cases hm
  have htokens : World.tokens k
      { w with calls := w.calls.set i call', mailbox := w.mailbox ++ [m] } = w.tokens k :=
    tokens_of_receive rfl rfl hdata
  have hkeeps : ∀ calls : List Call, calls[i]? = some call →
      (∀ call ∈ calls, call.returned = true) →
      ∀ call ∈ calls.set i call', call.returned = true := by
    intro calls hcall hr
    exact returned_set hr (hreturned (hr call (List.mem_of_getElem? hcall)))
  have haround : Around k w
      { w with calls := w.calls.set i call', mailbox := w.mailbox ++ [m] } [] :=
    ⟨rfl, rfl, (List.append_nil _).symm, map_set hcall hevent, hkeeps w.calls hcall,
      data_of_receive rfl hdata, htokens, fun hd => hd⟩
  constructor
  · refine h.state.around haround ?_
    intro hattention
    cases hattention with
    | reading worker returned more token =>
      exact .reading worker (hkeeps w.calls hcall returned) more (htokens.trans token)
    | calling earlier last calls worker returned outstanding token =>
      rw [calls] at hcall
      rcases set_snoc hcall call' with ⟨heq, hlast, hset⟩ | ⟨hearlier, hset⟩
      · rw [← hlast, ← heq] at outstanding
        rw [← heq] at worker
        refine .calling earlier call' ?_ ?_ returned ?_ (htokens.trans token)
        · dsimp only
          rw [calls, hset]
        · rw [← heq]
          exact worker
        · rw [← heq]
          exact houtstanding outstanding
      · have hlt : i < earlier.length := (List.getElem?_eq_some_iff.mp hearlier).1
        refine .calling (earlier.set i call') last ?_ ?_ (hkeeps earlier hearlier returned) ?_
          (htokens.trans token)
        · dsimp only
          rw [calls, hset]
        · rw [List.length_set]
          exact worker
        · rw [List.length_set]
          exact outstanding.receive (about_succ hm (by omega))
    | lost earlier last calls worker returned died reported token =>
      rw [calls] at hcall
      rcases set_snoc hcall call' with ⟨heq, hlast, hset⟩ | ⟨hearlier, hset⟩
      · rw [← hlast, halive] at died
        cases died.2
      · refine .lost (earlier.set i call') last ?_ worker (hkeeps earlier hearlier returned) died
          reported (htokens.trans token)
        dsimp only
        rw [calls, hset]
  · refine ⟨?_, ?_, ?_, ?_⟩
    · dsimp only
      rw [List.length_set]
      refine forall_mem_snoc h.sane.known ?_
      cases m with
      | outputDone worker =>
        have heq : worker = k.first + i := hm
        change worker < _
        omega
      | exit worker =>
        have heq : worker = k.first + i := hm
        change worker < _
        omega
      | execute command request => cases hm
      | tcp socket bytes => cases hm
      | tcpClosed socket => cases hm
      | tcpError socket reason => cases hm
      | cancel command reason => cases hm
      | other => cases hm
    · intro hd
      refine forall_mem_snoc (h.sane.calm hd) ?_
      intro hdisturbing
      cases m <;> first | exact hdisturbing | exact hm
    · intro earlier last hcalls
      dsimp only at hcalls
      rcases List.eq_nil_or_concat w.calls with hnil | ⟨earlier', last', hconcat⟩
      · rw [hnil] at hi
        cases hi
      · rw [List.concat_eq_append] at hconcat
        have hordered := h.sane.ordered earlier' last' hconcat
        rw [hconcat] at hcall hcalls
        rcases set_snoc hcall call' with ⟨-, -, hset⟩ | ⟨hearlier, hset⟩
        · rw [hset] at hcalls
          rw [← List.append_inj_left' hcalls rfl]
          exact hordered
        · rw [hset] at hcalls
          rw [← List.append_inj_left' hcalls rfl]
          exact hkeeps earlier' hearlier hordered
    · exact h.sane.read_append haround.arrived haround.events

theorem Inv.returns (h : Inv codec k w) (hcall : w.calls[i]? = some call)
    (hrunning : call.returned = false ∧ call.ended = false) :
    Inv codec k { w with
      calls := w.calls.set i { call with returned := true }
      mailbox := w.mailbox ++ [.outputDone (k.first + i)] } :=
  h.worker (.outputDone (k.first + i)) hcall rfl (fun _ => rfl) hrunning.2 rfl
    fun houtstanding => houtstanding.returns hrunning

theorem Inv.ends (h : Inv codec k w) (hcall : w.calls[i]? = some call)
    (halive : call.ended = false) :
    Inv codec k { w with
      calls := w.calls.set i { call with ended := true }
      mailbox := w.mailbox ++ [.exit (k.first + i)] } :=
  h.worker (.exit (k.first + i)) hcall rfl (fun hr => hr) halive rfl
    fun houtstanding => houtstanding.ends halive

end Workers

end Sower.Vm.Streaming
