import Sower.Lib.Framing

/-!
# Frames between host and guest

The guest of a virtual machine writes metadata, standard output and standard
error as frames. The host reads them in two ways: from a buffer of received
bytes, and with blocking reads from the socket. Metadata are JSON texts, written
and read by libraries of the two languages.
-/

namespace Sower.Vm.Protocol

open Framing

section Json

/-- JSON values. -/
inductive Json where
  | null
  | bool (value : Bool)
  | int (value : ℤ)
  /-- A number with a fraction or an exponent. -/
  | float (text : String)
  | string (value : String)
  | array (values : List Json)
  | object (fields : List (String × Json))

def Json.int? : Json → Option ℤ
  | .int value => some value
  | _ => none

def Json.string? : Json → Option String
  | .string value => some value
  | _ => none

def Json.isNull : Json → Bool
  | .null => true
  | _ => false

/-- The writer of the guest and the reader of the host. -/
structure Codec where
  /-- `serde_json::to_vec`. -/
  toVec : Json → List UInt8
  /-- `Jason.decode`; none is an error. -/
  decode : List UInt8 → Option Json

end Json

section Guest

/-- Largest payload of a frame. -/
def maxFrame : ℕ := 65536

/-- Version of the execute request. -/
inductive Version where
  | one
  | two
  deriving DecidableEq, Repr

def Version.number : Version → ℤ
  | .one => 1
  | .two => 2

/-- There are exit codes. -/
instance neZero_codes : NeZero 256 := ⟨by decide⟩

/-- How a process ended: with a code, or by one of the signals of the system. -/
inductive ExitStatus where
  | code (code : Fin 256)
  | signal (signal : ℕ) (pos : 0 < signal) (le : signal ≤ 64)
  deriving DecidableEq, Repr

/-- Metadata that the guest sends. -/
inductive GuestMessage where
  | ready
  | exited (version : Version) (status : ExitStatus)
  | error (version : Version) (message : String)
  deriving DecidableEq, Repr

def GuestMessage.json : GuestMessage → Json
  | .ready => .object [("type", .string "ready"), ("version", .int 1), ("contract", .int 2)]
  | .exited version (.code code) =>
    .object [("type", .string "exited"), ("version", .int version.number), ("code", .int code.val),
      ("signal", .null)]
  | .exited version (.signal signal _ _) =>
    .object [("type", .string "exited"), ("version", .int version.number), ("code", .null),
      ("signal", .int signal)]
  | .error version message =>
    .object [("type", .string "error"), ("version", .int version.number),
      ("message", .string message)]

/-- What the guest frames. -/
inductive GuestFrame where
  | metadata (message : GuestMessage)
  | stdout (payload : List UInt8)
  | stderr (payload : List UInt8)
  deriving DecidableEq, Repr

def GuestFrame.kind : GuestFrame → UInt8
  | .metadata _ => 1
  | .stdout _ => 2
  | .stderr _ => 3

def GuestFrame.body (codec : Codec) : GuestFrame → List UInt8
  | .metadata message => codec.toVec message.json
  | .stdout payload => payload
  | .stderr payload => payload

/-- `frame`: the bytes written, in three writes. -/
def frame (kind : UInt8) (body : List UInt8) : Except String (List UInt8) :=
  if maxFrame < body.length then .error "frame exceeds 65536 bytes"
  else .ok ([kind] ++ be32 body.length ++ body)

end Guest

section Host

/-- Events that the host reads. -/
inductive Event where
  /-- The contract of the guest; the first one has no number. -/
  | ready (contract : Option ℕ)
  | stdout (bytes : List UInt8)
  | stderr (bytes : List UInt8)
  | exited (code : Option ℤ) (signal : Option ℤ)
  | guestError (message : String)
  deriving DecidableEq, Repr

inductive FrameError where
  | frameTooLarge (length : ℕ)
  | unknownFrameKind (kind : UInt8)
  | unsupportedEventVersion (version : Json)
  | invalidMetadataEvent
  | invalidMetadataJson
  | invalidExitStatus
  | invalidErrorEvent
  | unknownEventType (type : Json)

/-- `metadata`. -/
def metadata (fields : List (String × Json)) : Except FrameError Event :=
  match fields.lookup "type" with
  | none => .error .invalidMetadataEvent
  | some type =>
    if type.string? = some "ready" then
      if (fields.lookup "contract").bind Json.int? = some 2 then .ok (.ready (some 2))
      else .ok (.ready none)
    else if type.string? = some "exited" then
      match fields.lookup "code", fields.lookup "signal" with
      | some (.int code), some .null =>
        if 0 ≤ code ∧ code ≤ 255 then .ok (.exited (some code) none) else .error .invalidExitStatus
      | some .null, some (.int signal) =>
        if 0 < signal ∧ signal ≤ 64 then .ok (.exited none (some signal))
        else .error .invalidExitStatus
      | _, _ => .error .invalidExitStatus
    else if type.string? = some "error" then
      match (fields.lookup "message").bind Json.string? with
      | some message => .ok (.guestError message)
      | none => .error .invalidErrorEvent
    else .error (.unknownEventType type)

/-- `event`. -/
def event (codec : Codec) (kind : UInt8) (bytes : List UInt8) : Except FrameError Event :=
  if kind = 2 then .ok (.stdout bytes)
  else if kind = 3 then .ok (.stderr bytes)
  else match codec.decode bytes with
    | none => .error .invalidMetadataJson
    | some (.object fields) =>
      match fields.lookup "version" with
      | none => .error .invalidMetadataEvent
      | some version =>
        if version.int? = some 1 ∨ version.int? = some 2 then metadata fields
        else .error (.unsupportedEventVersion version)
    | some _ => .error .invalidMetadataEvent

/-- Answers of `decode_frame`. -/
inductive Decoded where
  | more
  | event (event : Event) (remaining : List UInt8)
  | error (reason : FrameError)

/-- `decode_frame`. -/
def decodeFrame (codec : Codec) (bytes : List UInt8) : Decoded :=
  match header? bytes with
  | none => .more
  | some (kind, length, rest) =>
    if maxFrame < length then .error (.frameTooLarge length)
    else if kind ∉ [1, 2, 3] then .error (.unknownFrameKind kind)
    else if rest.length < length then .more
    else match Protocol.event codec kind (rest.take length) with
      | .ok e => .event e (rest.drop length)
      | .error reason => .error reason

/-- Errors of a blocking read. -/
inductive RecvError where
  | closed
  | frame (reason : FrameError)

/-- `:gen_tcp.recv` of a positive length: all of it, or the peer has closed. -/
def recvExact (length : ℕ) (stream : List UInt8) : Except RecvError (List UInt8) × List UInt8 :=
  if stream.length < length then (.error .closed, [])
  else (.ok (stream.take length), stream.drop length)

/-- `payload`: a length of zero would read whatever is there. -/
def recvPayload (length : ℕ) (stream : List UInt8) : Except RecvError (List UInt8) × List UInt8 :=
  if length = 0 then (.ok [], stream) else recvExact length stream

/-- `recv`: the event, and the bytes left in the stream. -/
def recv (codec : Codec) (stream : List UInt8) : Except RecvError Event × List UInt8 :=
  match recvExact 5 stream with
  | (.error reason, stream) => (.error reason, stream)
  | (.ok header, stream) =>
    match decodeFrame codec header with
    | .event event _ => (.ok event, stream)
    | .error reason => (.error (.frame reason), stream)
    | .more =>
      match header? header with
      | none => (.error .closed, stream)
      | some (kind, length, _) =>
        match recvPayload length stream with
        | (.error reason, stream) => (.error reason, stream)
        | (.ok payload, stream) =>
          match Protocol.event codec kind payload with
          | .ok event => (.ok event, stream)
          | .error reason => (.error (.frame reason), stream)

end Host

section Agreement

variable {codec : Codec} {kind : UInt8} {payload bytes rest more front : List UInt8}

/-- The event that the host is to read. -/
def GuestFrame.event : GuestFrame → Event
  | .metadata .ready => .ready (some 2)
  | .metadata (.exited _ (.code code)) => .exited (some code.val) none
  | .metadata (.exited _ (.signal signal _ _)) => .exited none (some signal)
  | .metadata (.error _ message) => .guestError message
  | .stdout payload => .stdout payload
  | .stderr payload => .stderr payload

/-- The host reads back the JSON value that the guest wrote, if the frame has one. -/
def GuestFrame.Lossless (codec : Codec) (f : GuestFrame) : Prop :=
  ∀ message, f = .metadata message →
    codec.decode (codec.toVec message.json) = some message.json

theorem version_int? (version : Version) :
    version.number = 1 ∨ version.number = 2 := by
  cases version
  · exact Or.inl rfl
  · exact Or.inr rfl

/-- Every message of the guest is one that the host knows. -/
theorem event_of_json {message : GuestMessage} (h : codec.decode bytes = some message.json) :
    event codec 1 bytes = .ok (GuestFrame.metadata message).event := by
  cases message with
  | ready =>
    simp [event, h, GuestMessage.json, List.lookup_cons, Json.int?, metadata, Json.string?,
      GuestFrame.event]
  | exited version status =>
    have hversion := version_int? version
    cases status with
    | code code =>
      have hcode := code.isLt
      have hrange : (0 : ℤ) ≤ code.val ∧ (code.val : ℤ) ≤ 255 := by omega
      simp [event, h, GuestMessage.json, List.lookup_cons, Json.int?, hversion, metadata, Json.string?,
        GuestFrame.event, hrange]
    | signal signal pos le =>
      have hrange : signal ≠ 0 ∧ (signal : ℤ) ≤ 64 := by omega
      simp [event, h, GuestMessage.json, List.lookup_cons, Json.int?, hversion, metadata, Json.string?,
        GuestFrame.event, Nat.pos_iff_ne_zero, hrange]
  | error version message =>
    have hversion := version_int? version
    simp [event, h, GuestMessage.json, List.lookup_cons, Json.int?, hversion, metadata, Json.string?,
      GuestFrame.event]

theorem event_body {f : GuestFrame} (h : f.Lossless codec) :
    event codec f.kind (f.body codec) = .ok f.event := by
  cases f with
  | metadata message => exact event_of_json (h message rfl)
  | stdout payload => rfl
  | stderr payload => rfl

theorem kind_mem (f : GuestFrame) : f.kind ∈ [1, 2, 3] := by
  cases f <;> simp [GuestFrame.kind]

/-- The guest frames exactly the payloads up to the limit. -/
theorem frame_eq_ok_iff :
    frame kind payload = .ok bytes ↔ payload.length ≤ maxFrame ∧ bytes = encode kind payload := by
  unfold frame
  split
  · rename_i hlong
    constructor
    · intro h
      cases h
    · intro h
      omega
  · rename_i hshort
    constructor
    · intro h
      cases h
      exact ⟨by omega, rfl⟩
    · intro h
      rw [h.2]
      rfl

/-- What `decode_frame` answers to a whole frame followed by further bytes. -/
def Decoded.ofEvent (remaining : List UInt8) : Except FrameError Event → Decoded
  | .ok e => .event e remaining
  | .error reason => .error reason

/-- Every payload up to the limit comes back as it was, and so do the bytes behind it. -/
theorem decodeFrame_encode (hkind : kind ∈ [1, 2, 3]) (hlength : payload.length ≤ maxFrame)
    (rest : List UInt8) :
    decodeFrame codec (encode kind payload ++ rest) =
      Decoded.ofEvent rest (event codec kind payload) := by
  have hword : payload.length < 2 ^ 32 := by
    unfold maxFrame at hlength
    omega
  unfold decodeFrame
  rw [header?_encode hword]
  dsimp only
  rw [if_neg (by omega), if_neg (not_not_intro hkind), if_neg (by simp), List.take_left,
    List.drop_left]
  cases event codec kind payload with
  | ok event => rfl
  | error reason => rfl

/-- All that `decode_frame` looks at when it does not ask for more. -/
theorem decodeFrame_cases (codec : Codec) (bytes : List UInt8) :
    decodeFrame codec bytes = .more ∨
      ∃ kind length rest, header? bytes = some (kind, length, rest) ∧
        ((∃ reason, ∀ more, decodeFrame codec (bytes ++ more) = .error reason) ∨
          length ≤ rest.length ∧ ∀ more, decodeFrame codec (bytes ++ more) =
            Decoded.ofEvent (rest.drop length ++ more)
              (event codec kind (rest.take length))) := by
  cases hheader : header? bytes with
  | none =>
    left
    unfold decodeFrame
    rw [hheader]
  | some header =>
    obtain ⟨kind, length, rest⟩ := header
    by_cases hlarge : maxFrame < length
    · right
      refine ⟨kind, length, rest, rfl, Or.inl ⟨.frameTooLarge length, ?_⟩⟩
      intro more
      unfold decodeFrame
      rw [header?_append hheader]
      dsimp only
      rw [if_pos hlarge]
    · by_cases hkind : kind ∉ [1, 2, 3]
      · right
        refine ⟨kind, length, rest, rfl, Or.inl ⟨.unknownFrameKind kind, ?_⟩⟩
        intro more
        unfold decodeFrame
        rw [header?_append hheader]
        dsimp only
        rw [if_neg hlarge, if_pos hkind]
      · by_cases hshort : rest.length < length
        · left
          unfold decodeFrame
          rw [hheader]
          dsimp only
          rw [if_neg hlarge, if_neg hkind, if_pos hshort]
        · right
          have hle : length ≤ rest.length := by omega
          refine ⟨kind, length, rest, rfl, Or.inr ⟨hle, ?_⟩⟩
          intro more
          have hlong : ¬ (rest ++ more).length < length := by
            rw [List.length_append]
            omega
          unfold decodeFrame
          rw [header?_append hheader]
          dsimp only
          rw [if_neg hlarge, if_neg hkind, if_neg hlong, List.take_append_of_le_length hle,
            List.drop_append_of_le_length hle]
          cases event codec kind (rest.take length) with
          | ok event => rfl
          | error reason => rfl

/-- An event stays the same when bytes are appended, and they are left over. -/
theorem decodeFrame_append_of_event {e : Event}
    (h : decodeFrame codec bytes = .event e rest) (more : List UInt8) :
    decodeFrame codec (bytes ++ more) = .event e (rest ++ more) := by
  have hnil : bytes ++ [] = bytes := List.append_nil bytes
  rcases decodeFrame_cases codec bytes with hmore | ⟨kind, length, tail, -, herror | ⟨-, hevent⟩⟩
  · rw [hmore] at h
    cases h
  · obtain ⟨reason, hreason⟩ := herror
    have hnow := hreason []
    rw [hnil, h] at hnow
    cases hnow
  · have hnow := hevent []
    rw [hnil, h, List.append_nil] at hnow
    rw [hevent more]
    cases he : event codec kind (tail.take length) with
    | ok event =>
      rw [he] at hnow
      cases hnow
      rfl
    | error reason =>
      rw [he] at hnow
      cases hnow

/-- An error stays the same when bytes are appended. -/
theorem decodeFrame_append_of_error {reason : FrameError}
    (h : decodeFrame codec bytes = .error reason) (more : List UInt8) :
    decodeFrame codec (bytes ++ more) = .error reason := by
  have hnil : bytes ++ [] = bytes := List.append_nil bytes
  rcases decodeFrame_cases codec bytes with hmore | ⟨kind, length, tail, -, herror | ⟨-, hevent⟩⟩
  · rw [hmore] at h
    cases h
  · obtain ⟨reason', hreason⟩ := herror
    have hnow := hreason []
    rw [hnil, h] at hnow
    rw [hreason more, hnow]
  · have hnow := hevent []
    rw [hnil, h, List.append_nil] at hnow
    rw [hevent more]
    cases he : event codec kind (tail.take length) with
    | ok event =>
      rw [he] at hnow
      cases hnow
    | error reason' =>
      rw [he] at hnow
      cases hnow
      rfl

/-- An event that leaves nothing over needed every byte. -/
theorem decodeFrame_more_of_prefix {e : Event} (h : decodeFrame codec bytes = .event e [])
    (hbegins : front <+: bytes) (hne : front ≠ bytes) : decodeFrame codec front = .more := by
  obtain ⟨tail, htail⟩ := hbegins
  cases hfront : decodeFrame codec front with
  | more => rfl
  | event e' rest =>
    have happend := decodeFrame_append_of_event hfront tail
    rw [htail, h] at happend
    obtain ⟨-, hrest⟩ := Decoded.event.inj happend
    have hnil : tail = [] := (List.append_eq_nil_iff.mp hrest.symm).2
    rw [hnil, List.append_nil] at htail
    exact absurd htail hne
  | error reason =>
    have happend := decodeFrame_append_of_error hfront tail
    rw [htail, h] at happend
    cases happend

/-- The blocking read answers what `decode_frame` answers to the same bytes; where that
asks for more, the stream has ended. -/
theorem recv_of_decodeFrame (codec : Codec) (stream : List UInt8) :
    match decodeFrame codec stream with
    | .event e rest => recv codec stream = (.ok e, rest)
    | .error reason => (recv codec stream).1 = .error (.frame reason)
    | .more => (recv codec stream).1 = .error .closed := by
  cases hheader : header? stream with
  | none =>
    have hshort := header?_eq_none_iff.mp hheader
    have hmore : decodeFrame codec stream = .more := by
      unfold decodeFrame
      rw [hheader]
    rw [hmore]
    dsimp only
    unfold recv recvExact
    rw [if_pos hshort]
  | some header =>
    obtain ⟨kind, length, rest⟩ := header
    have hlength := length_of_header? hheader
    obtain ⟨hfront, hdrop⟩ := split_of_header? hheader
    unfold recv recvExact
    rw [if_neg (by omega), hdrop]
    dsimp only
    unfold decodeFrame
    rw [hheader, hfront]
    dsimp only
    by_cases hlarge : maxFrame < length
    · rw [if_pos hlarge, if_pos hlarge]
    · rw [if_neg hlarge, if_neg hlarge]
      by_cases hkind : kind ∉ [1, 2, 3]
      · rw [if_pos hkind, if_pos hkind]
      · rw [if_neg hkind, if_neg hkind]
        rcases Nat.eq_zero_or_pos length with hzero | hpos
        · -- the header alone is a whole frame
          rw [hzero]
          simp only [Nat.not_lt_zero, if_false, List.take_zero, List.drop_zero]
          cases event codec kind [] with
          | ok e => rfl
          | error reason => rfl
        · have hwait : ([] : List UInt8).length < length := hpos
          have hne : ¬ length = 0 := by omega
          rw [if_pos hwait]
          dsimp only
          unfold recvPayload recvExact
          rw [if_neg hne]
          by_cases hshort : rest.length < length
          · rw [if_pos hshort, if_pos hshort]
          · rw [if_neg hshort, if_neg hshort]
            dsimp only
            cases event codec kind (rest.take length) with
            | ok e => rfl
            | error reason => rfl

/-- Whatever the guest frames, the host reads back from the buffer and from the socket,
with the bytes behind it untouched; no proper part of it is read as a frame; and bytes
that arrive later change no answer but a request for more. -/
theorem guest_host_framing (codec : Codec) (f : GuestFrame) (bytes : List UInt8)
    (hlossless : f.Lossless codec) (hframe : frame f.kind (f.body codec) = .ok bytes) :
    (∀ rest, decodeFrame codec (bytes ++ rest) = .event f.event rest ∧
        recv codec (bytes ++ rest) = (.ok f.event, rest)) ∧
      (∀ front, front <+: bytes → front ≠ bytes → decodeFrame codec front = .more) ∧
      ∀ received, (∀ e rest, decodeFrame codec received = .event e rest →
          ∀ more, decodeFrame codec (received ++ more) = .event e (rest ++ more)) ∧
        ∀ reason, decodeFrame codec received = .error reason →
          ∀ more, decodeFrame codec (received ++ more) = .error reason := by
  obtain ⟨hlength, hbytes⟩ := frame_eq_ok_iff.mp hframe
  have hdecode : ∀ rest, decodeFrame codec (bytes ++ rest) = .event f.event rest := by
    intro rest
    rw [hbytes, decodeFrame_encode (kind_mem f) hlength, event_body hlossless]
    rfl
  refine ⟨?_, ?_, ?_⟩
  · intro rest
    have hrecv := recv_of_decodeFrame codec (bytes ++ rest)
    rw [hdecode rest] at hrecv
    exact ⟨hdecode rest, hrecv⟩
  · intro front hbegins hne
    have hwhole := hdecode []
    rw [List.append_nil] at hwhole
    exact decodeFrame_more_of_prefix hwhole hbegins hne
  · intro received
    constructor
    · intro e rest hevent more
      exact decodeFrame_append_of_event hevent more
    · intro reason herror more
      exact decodeFrame_append_of_error herror more

end Agreement

section Example

/-- The metadata of a process that ended with code 0. -/
def exitedText : List UInt8 :=
  "\x7b\"code\":0,\"signal\":null,\"type\":\"exited\",\"version\":2\x7d".toList.map fun c =>
    c.val.toUInt8

/-- Writer and reader of that text. -/
def exitedCodec : Codec where
  toVec _ := exitedText
  decode bytes :=
    if bytes = exitedText then some (GuestMessage.exited .two (.code 0)).json else none

theorem exitedCodec_lossless :
    (GuestFrame.metadata (.exited .two (.code 0))).Lossless exitedCodec := by
  intro message hmessage
  cases hmessage
  simp [exitedCodec]

/-- The host reads the exit of the process, and leaves the bytes of a later frame. -/
theorem guest_host_framing_exited :
    decodeFrame exitedCodec (encode 1 exitedText ++ [2, 0, 0]) =
      .event (.exited (some 0) none) [2, 0, 0] :=
  ((guest_host_framing exitedCodec (.metadata (.exited .two (.code 0))) (encode 1 exitedText)
    exitedCodec_lossless (frame_eq_ok_iff.mpr ⟨by decide, rfl⟩)).1 [2, 0, 0]).1

end Example

end Sower.Vm.Protocol
