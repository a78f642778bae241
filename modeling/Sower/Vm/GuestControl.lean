import Sower.Vm.Guest

/-!
# The control channel of the guest

The control channel is read into a header and a body whose sizes are known one
after the other. What has been read of the current frame, the two buffers taken
together, is what an incremental reader of cancel frames has left over; so the
requests that are recognised depend on the bytes alone and not on how they arrive.
-/

namespace Sower.Vm.GuestLoop

open Framing Incremental Stateful Protocol

section Reader

variable (serde : Serde) (version : Version)

/-- The cancel frame at the front. -/
def nextCancel (input : List UInt8) : Next UInt8 Unit IoError :=
  match header? input with
  | none => .more
  | some (kind, length, rest) =>
    if kind ≠ 1 ∨ length = 0 ∨ maxFrame < length then
      .error (.invalid "expected bounded cancel metadata frame")
    else if rest.length < length then .more
    else match checkCancel serde version (rest.take length) with
      | .ok () => .item () (rest.drop length)
      | .error error => .error error

variable {serde version} {input rest later : List UInt8} {kind : UInt8} {length : ℕ}

theorem nextCancel_of_header (h : header? input = some (kind, length, rest)) :
    nextCancel serde version input =
      if kind ≠ 1 ∨ length = 0 ∨ maxFrame < length then
        .error (.invalid "expected bounded cancel metadata frame")
      else if rest.length < length then .more
      else match checkCancel serde version (rest.take length) with
        | .ok () => .item () (rest.drop length)
        | .error error => .error error := by
  unfold nextCancel
  rw [h]

theorem nextCancel_short (h : input.length < 5) : nextCancel serde version input = .more := by
  unfold nextCancel
  rw [header?_eq_none_iff.mpr h]

/-- An answer other than a request for more is given for all later input. -/
theorem nextCancel_append (hnext : nextCancel serde version input ≠ .more) (later : List UInt8) :
    nextCancel serde version (input ++ later) =
      match nextCancel serde version input with
      | .more => .more
      | .item value rest => .item value (rest ++ later)
      | .error error => .error error := by
  cases hheader : header? input with
  | none =>
    exact absurd (nextCancel_short (header?_eq_none_iff.mp hheader)) hnext
  | some header =>
    obtain ⟨kind, length, rest⟩ := header
    rw [nextCancel_of_header hheader] at hnext ⊢
    rw [nextCancel_of_header (header?_append hheader later)]
    by_cases hbad : kind ≠ 1 ∨ length = 0 ∨ maxFrame < length
    · rw [if_pos hbad, if_pos hbad]
    · rw [if_neg hbad] at hnext ⊢
      rw [if_neg hbad]
      by_cases hshort : rest.length < length
      · rw [if_pos hshort] at hnext
        exact absurd rfl hnext
      · have hle : length ≤ rest.length := by omega
        have hlong : ¬ (rest ++ later).length < length := by
          rw [List.length_append]
          omega
        rw [if_neg hlong, if_neg hshort, List.take_append_of_le_length hle,
          List.drop_append_of_le_length hle]
        cases checkCancel serde version (rest.take length) with
        | ok value => rfl
        | error error => rfl

theorem nextCancel_shrinks {value : Unit}
    (h : nextCancel serde version input = .item value rest) : rest.length < input.length := by
  cases hheader : header? input with
  | none =>
    rw [nextCancel_short (header?_eq_none_iff.mp hheader)] at h
    cases h
  | some header =>
    obtain ⟨kind, length, tail⟩ := header
    have hlength := length_of_header? hheader
    rw [nextCancel_of_header hheader] at h
    split at h
    · cases h
    · split at h
      · cases h
      · split at h
        · cases h
          rw [List.length_drop]
          omega
        · cases h

/-- The reader of cancel frames. -/
def cancelFrames (serde : Serde) (version : Version) : Reader UInt8 Unit IoError where
  next := nextCancel serde version
  shrinks := nextCancel_shrinks
  item_append {input value rest} h later := by
    have hnext : nextCancel serde version input ≠ .more := by
      intro hmore
      rw [h] at hmore
      cases hmore
    rw [nextCancel_append hnext later, h]
  error_append {input reason} h later := by
    have hnext : nextCancel serde version input ≠ .more := by
      intro hmore
      rw [h] at hmore
      cases hmore
    rw [nextCancel_append hnext later, h]

end Reader

section Receiving

/-- What has been read of the current frame. -/
def Control.partialFrame (c : Control) : List UInt8 :=
  c.header.take c.headerLength ++ if c.headerLength < 5 then [] else c.body.take c.bodyLength

/-- The header is incomplete, or it is valid and the body is incomplete. -/
structure Control.Reading (c : Control) : Prop where
  header : c.headerLength < 5 → c.bodyLength = 0
  body : ¬ c.headerLength < 5 → c.headerLength = 5 ∧ c.bodyLength < c.body.length ∧
    c.body.length ≤ maxFrame ∧ header? c.header = some (1, c.body.length, [])

variable {serde : Serde} {version : Version} {c c' : Control} {data : List UInt8}

/-- A header that has been read whole is the header of all that is read. -/
theorem header?_partialFrame (h : c.Reading) (hbody : ¬ c.headerLength < 5) :
    header? c.partialFrame = some (1, c.body.length, c.body.take c.bodyLength) := by
  obtain ⟨hlength, -, -, hheader⟩ := h.body hbody
  have htake : c.header.take c.headerLength = c.header := by
    rw [hlength, ← c.headerSize, List.take_length]
  unfold Control.partialFrame
  rw [if_neg hbody, htake, header?_append hheader, List.nil_append]

/-- The reader asks for more as long as the frame is incomplete. -/
theorem next_partialFrame (h : c.Reading) :
    (cancelFrames serde version).next c.partialFrame = .more := by
  by_cases hheader : c.headerLength < 5
  · refine nextCancel_short ?_
    unfold Control.partialFrame
    rw [if_pos hheader, List.append_nil, List.length_take]
    omega
  · obtain ⟨-, hless, hmax, -⟩ := h.body hheader
    have hgood : ¬ ((1 : UInt8) ≠ 1 ∨ c.body.length = 0 ∨ maxFrame < c.body.length) := by
      intro hbad
      rcases hbad with hkind | hzero | hlarge
      · exact hkind rfl
      · omega
      · omega
    have hshort : (c.body.take c.bodyLength).length < c.body.length := by
      rw [List.length_take]
      omega
    change nextCancel serde version c.partialFrame = .more
    rw [nextCancel_of_header (header?_partialFrame h hheader), if_neg hgood, if_pos hshort]

theorem room_pos (h : c.Reading) : 0 < c.room := by
  unfold Control.room
  split
  · omega
  · rename_i hbody
    obtain ⟨-, hless, -⟩ := h.body hbody
    omega

/-- What the bytes of one read do to the current frame. -/
def Control.Received (serde : Serde) (version : Version) (c : Control) (data : List UInt8) :
    Except IoError (Control × Bool) → Prop
  | .error error =>
    (cancelFrames serde version).next (c.partialFrame ++ data) = .error error
  | .ok (c', false) => c'.Reading ∧ c'.partialFrame = c.partialFrame ++ data
  | .ok (c', true) => c'.Reading ∧ c'.partialFrame = [] ∧
    (cancelFrames serde version).next (c.partialFrame ++ data) = .item () []

/-- Bytes of the header. -/
theorem receive_header (h : c.Reading) (hheader : c.headerLength < 5)
    (hdata : data.length ≤ 5 - c.headerLength) :
    c.Received serde version data (c.receive serde version data) := by
  have hsize := c.headerSize
  have htake : (overwrite c.header c.headerLength data).take (c.headerLength + data.length) =
      c.header.take c.headerLength ++ data :=
    take_overwrite (by omega)
  have hleftover : c.partialFrame = c.header.take c.headerLength := by
    unfold Control.partialFrame
    rw [if_pos hheader, List.append_nil]
  unfold Control.receive
  rw [if_pos hheader]
  dsimp only
  by_cases hfull : c.headerLength + data.length = 5
  · rw [if_pos hfull]
    have hwhole : overwrite c.header c.headerLength data = c.partialFrame ++ data := by
      rw [hleftover, ← htake, List.take_of_length_le]
      rw [length_overwrite]
      omega
    cases hfound : header? (overwrite c.header c.headerLength data) with
    | none =>
      have hshort := header?_eq_none_iff.mp hfound
      rw [length_overwrite] at hshort
      omega
    | some header =>
      obtain ⟨kind, length, rest⟩ := header
      have hlength := length_of_header? hfound
      rw [length_overwrite] at hlength
      have hnil : rest = [] := List.length_eq_zero_iff.mp (by omega)
      rw [hnil] at hfound
      dsimp only
      by_cases hbad : kind ≠ 1 ∨ length = 0 ∨ maxFrame < length
      · rw [if_pos hbad]
        change nextCancel serde version (c.partialFrame ++ data) = _
        rw [nextCancel_of_header (hwhole ▸ hfound), if_pos hbad]
      · rw [if_neg hbad]
        have hkind : kind = 1 := by
          by_contra hkind
          exact hbad (Or.inl hkind)
        have hpos : length ≠ 0 := fun hzero => hbad (Or.inr (Or.inl hzero))
        have hmax : length ≤ maxFrame := by
          by_contra hlarge
          exact hbad (Or.inr (Or.inr (by omega)))
        have hbody := h.header hheader
        constructor
        · constructor
          · intro hless
            dsimp only at hless
            omega
          · intro _
            dsimp only
            rw [length_resize, hbody]
            exact ⟨hfull, by omega, hmax, hkind ▸ hfound⟩
        · unfold Control.partialFrame
          dsimp only
          rw [hfull, if_neg (lt_irrefl 5), hbody, List.take_zero, List.append_nil, if_pos hheader,
            List.append_nil, ← htake, hfull]
  · rw [if_neg hfull]
    have hless : c.headerLength + data.length < 5 := by omega
    constructor
    · exact ⟨fun _ => h.header hheader, fun hbody => absurd hless hbody⟩
    · unfold Control.partialFrame
      dsimp only
      rw [if_pos hless, if_pos hheader, List.append_nil, List.append_nil, htake]

/-- Bytes of the body. -/
theorem receive_body (h : c.Reading) (hheader : ¬ c.headerLength < 5)
    (hdata : data.length ≤ c.body.length - c.bodyLength) :
    c.Received serde version data (c.receive serde version data) := by
  obtain ⟨hfive, hless, hmax, hfound⟩ := h.body hheader
  have htake : (overwrite c.body c.bodyLength data).take (c.bodyLength + data.length) =
      c.body.take c.bodyLength ++ data :=
    take_overwrite (by omega)
  have hread : header? (c.partialFrame ++ data) =
      some (1, c.body.length, c.body.take c.bodyLength ++ data) :=
    header?_append (header?_partialFrame h hheader) data
  have hgood : ¬ ((1 : UInt8) ≠ 1 ∨ c.body.length = 0 ∨ maxFrame < c.body.length) := by
    intro hbad
    rcases hbad with hkind | hzero | hlarge
    · exact hkind rfl
    · omega
    · omega
  unfold Control.receive
  rw [if_neg hheader]
  dsimp only
  rw [length_overwrite]
  by_cases hfull : c.bodyLength + data.length = c.body.length
  · rw [if_pos hfull]
    have hwhole : overwrite c.body c.bodyLength data = c.body.take c.bodyLength ++ data := by
      rw [← htake, List.take_of_length_le]
      rw [length_overwrite]
      omega
    have hbodyLength : (c.body.take c.bodyLength ++ data).length = c.body.length := by
      rw [List.length_append, List.length_take]
      omega
    have hnext : nextCancel serde version (c.partialFrame ++ data) =
        match checkCancel serde version (overwrite c.body c.bodyLength data) with
        | .ok () => .item () []
        | .error error => .error error := by
      rw [nextCancel_of_header hread, if_neg hgood, if_neg (by omega),
        List.take_of_length_le (by omega), List.drop_of_length_le (by omega), hwhole]
    cases hcheck : checkCancel serde version (overwrite c.body c.bodyLength data) with
    | error error =>
      rw [hcheck] at hnext
      exact hnext
    | ok value =>
      rw [hcheck] at hnext
      refine ⟨⟨fun _ => rfl, fun hbody => absurd (Nat.zero_lt_succ 4) hbody⟩, rfl, hnext⟩
  · rw [if_neg hfull]
    constructor
    · refine ⟨fun hlow => absurd hlow hheader, fun _ => ?_⟩
      dsimp only
      rw [length_overwrite]
      exact ⟨hfive, by omega, hmax, hfound⟩
    · unfold Control.partialFrame
      dsimp only
      rw [if_neg hheader, if_neg hheader, htake, List.append_assoc]

/-- What is read takes the current frame further, as the reader says. -/
theorem receive_spec (h : c.Reading) (hdata : data.length ≤ c.room) :
    c.Received serde version data (c.receive serde version data) := by
  unfold Control.room at hdata
  split at hdata
  · rename_i hheader
    exact receive_header h hheader hdata
  · rename_i hheader
    exact receive_body h hheader hdata

end Receiving

end Sower.Vm.GuestLoop
