import Mathlib.Data.List.Basic

/-!
# Texts as UTF-8

Bytes of a text, and where a sequence of bytes may be cut without breaking a character:
not in front of a continuation byte. Bytes that are no text are made one by putting the
replacement character in the place of what is no character.
-/

namespace Utf8

section Encoding

/-- Bytes of a text. -/
def encode (text : List Char) : List UInt8 := text.flatMap String.utf8EncodeChar

/-- The bytes are those of a text. -/
def Valid (bytes : List UInt8) : Prop := ∃ text, bytes = encode text

/-- The byte continues a character. -/
def isContinuation (b : UInt8) : Bool := b &&& 0xC0 == 0x80

variable {text : List Char} {c : Char} {b : UInt8} {bytes bytes' : List UInt8}

@[simp] theorem encode_nil : encode [] = [] := rfl

theorem encode_cons : encode (c :: text) = String.utf8EncodeChar c ++ encode text := rfl

theorem encode_append {text' : List Char} :
    encode (text ++ text') = encode text ++ encode text' := List.flatMap_append

theorem Valid.append (h : Valid bytes) (h' : Valid bytes') : Valid (bytes ++ bytes') := by
  obtain ⟨text, htext⟩ := h
  obtain ⟨text', htext'⟩ := h'
  exact ⟨text ++ text', by rw [htext, htext', encode_append]⟩

theorem Valid.flatten {parts : List (List UInt8)} (h : ∀ part ∈ parts, Valid part) :
    Valid parts.flatten := by
  induction parts with
  | nil => exact ⟨[], rfl⟩
  | cons part parts ih =>
    rw [List.forall_mem_cons] at h
    exact h.1.append (ih h.2)

/-- What is valid passes Lean's own check. -/
theorem Valid.validateUTF8 (h : Valid bytes) : bytes.toByteArray.validateUTF8 = true := by
  obtain ⟨text, htext⟩ := h
  rw [ByteArray.validateUTF8_eq_true_iff, htext]
  exact ByteArray.isValidUTF8_utf8Encode

/-- Low bits do not show in the two high ones. -/
theorem isContinuation_low (b : UInt8) : isContinuation (b &&& 0x3F ||| 0x80) = true := by
  have hbits : ∀ v : BitVec 8, (v &&& 0x3F#8 ||| 0x80#8) &&& 0xC0#8 = 0x80#8 := by decide
  have hb : (b &&& 0x3F ||| 0x80) &&& 0xC0 = 0x80 := UInt8.toBitVec_inj.mp (hbits b.toBitVec)
  unfold isContinuation
  rw [hb]
  rfl

/-- The first byte of a character continues none. -/
theorem isContinuation_first (h : b.IsUTF8FirstByte) : isContinuation b = false := by
  have hbits : ∀ v : BitVec 8, (UInt8.ofBitVec v).IsUTF8FirstByte →
      UInt8.ofBitVec v &&& 0xC0 ≠ 0x80 := by decide
  exact beq_eq_false_iff_ne.mpr (hbits b.toBitVec h)

/-- A character is a first byte and up to three that continue it. -/
theorem encodeChar_shape (c : Char) : ∃ first others, String.utf8EncodeChar c = first :: others ∧
    isContinuation first = false ∧ (∀ b ∈ others, isContinuation b = true) ∧
    others.length ≤ 3 := by
  have hzero : 0 < (String.utf8EncodeChar c).length := by
    rw [String.length_utf8EncodeChar]
    exact c.utf8Size_pos
  have hfirst := isContinuation_first (UInt8.isUTF8FirstByte_getElem_utf8EncodeChar.mpr rfl :
    ((String.utf8EncodeChar c)[0]).IsUTF8FirstByte)
  have hshape {first : UInt8} {others : List UInt8} (hchar : String.utf8EncodeChar c = first :: others)
      (hothers : ∀ b ∈ others, isContinuation b = true) (hlength : others.length ≤ 3) :
      ∃ first others, String.utf8EncodeChar c = first :: others ∧
        isContinuation first = false ∧ (∀ b ∈ others, isContinuation b = true) ∧
        others.length ≤ 3 := by
    simp only [hchar, List.getElem_cons_zero] at hfirst
    exact ⟨first, others, hchar, hfirst, hothers, hlength⟩
  have hpos := c.utf8Size_pos
  have hle := c.utf8Size_le_four
  have hsize : c.utf8Size = 1 ∨ c.utf8Size = 2 ∨ c.utf8Size = 3 ∨ c.utf8Size = 4 := by omega
  rcases hsize with hone | htwo | hthree | hfour
  · exact hshape (String.utf8EncodeChar_eq_singleton hone) (by simp) (by simp)
  · refine hshape (String.utf8EncodeChar_eq_cons_cons htwo) ?_ (by simp)
    simp [isContinuation_low]
  · refine hshape (String.utf8EncodeChar_eq_cons_cons_cons hthree) ?_ (by simp)
    simp [isContinuation_low]
  · refine hshape (String.utf8EncodeChar_eq_cons_cons_cons_cons hfour) ?_ (by simp)
    simp [isContinuation_low]

/-- The character that a position is in: its first byte continues nothing, and the bytes
behind that, up to the position, continue it. -/
theorem exists_boundary {position : ℕ} (h : position < (encode text).length) :
    ∃ front behind, text = front ++ behind ∧ (encode front).length ≤ position ∧
      position ≤ (encode front).length + 3 ∧
      (∃ b, (encode text)[(encode front).length]? = some b ∧ isContinuation b = false) ∧
      ∀ q, (encode front).length < q → q ≤ position →
        ∃ b, (encode text)[q]? = some b ∧ isContinuation b = true := by
  induction text generalizing position with
  | nil => cases h
  | cons c text ih =>
    obtain ⟨first, others, hchar, hfirst, hothers, hlength⟩ := encodeChar_shape c
    rw [encode_cons, hchar] at h ⊢
    rw [List.length_append, List.length_cons] at h
    by_cases hin : position ≤ others.length
    · refine ⟨[], c :: text, rfl, Nat.zero_le _, ?_, ⟨first, rfl, hfirst⟩, fun q hq hqle => ?_⟩
      · rw [encode_nil, List.length_nil]
        omega
      · rw [encode_nil, List.length_nil] at hq
        obtain ⟨q, rfl⟩ : ∃ r, q = r + 1 := ⟨q - 1, by omega⟩
        have hbound : q < others.length := by omega
        refine ⟨others[q], ?_, hothers _ (List.getElem_mem hbound)⟩
        rw [List.cons_append, List.getElem?_cons_succ, List.getElem?_append_left hbound,
          List.getElem?_eq_getElem hbound]
    · have hrest : position - (others.length + 1) < (encode text).length := by omega
      obtain ⟨front, behind, htext, hle, hclose, ⟨b, hb, hlead⟩, hcontinued⟩ := ih hrest
      have hfront : (encode (c :: front)).length = others.length + 1 + (encode front).length := by
        rw [encode_cons, hchar, List.length_append, List.length_cons]
      have hshift (q : ℕ) (hq : others.length + 1 ≤ q) :
          (first :: others ++ encode text)[q]? = (encode text)[q - (others.length + 1)]? := by
        rw [List.getElem?_append_right hq, List.length_cons]
      refine ⟨c :: front, behind, congrArg (c :: ·) htext, by omega, by omega, ⟨b, ?_, hlead⟩,
        fun q hq hqle => ?_⟩
      · rw [hfront, hshift _ (by omega)]
        have hsub : others.length + 1 + (encode front).length - (others.length + 1) =
            (encode front).length := by omega
        rw [hsub, hb]
      · rw [hfront] at hq
        obtain ⟨b', hb', hcont⟩ := hcontinued (q - (others.length + 1)) (by omega) (by omega)
        exact ⟨b', by rw [hshift q (by omega), hb'], hcont⟩

end Encoding

section Replacement

/-- The two bytes begin a character of three or four. -/
def beginsChar (a b : UInt8) : Bool :=
  if a == 0xE0 then 0xA0 ≤ b && b ≤ 0xBF
  else if a == 0xED then 0x80 ≤ b && b ≤ 0x9F
  else if a == 0xF0 then 0x90 ≤ b && b ≤ 0xBF
  else if a == 0xF4 then 0x80 ≤ b && b ≤ 0x8F
  else 0xE1 ≤ a && a ≤ 0xF3 && (0x80 ≤ b && b ≤ 0xBF)

/-- Bytes that one replacement character stands for: the longest beginning of a character
that is not finished, or a single byte. -/
def brokenLength : List UInt8 → ℕ
  | a :: b :: c :: _ =>
    if beginsChar a b then (if 0xF0 ≤ a && (0x80 ≤ c && c ≤ 0xBF) then 3 else 2) else 1
  | [a, b] => if beginsChar a b then 2 else 1
  | _ => 1

theorem brokenLength_pos (bytes : List UInt8) : 0 < brokenLength bytes := by
  unfold brokenLength
  split
  · split
    · split
      · exact Nat.succ_pos _
      · exact Nat.succ_pos _
    · exact Nat.one_pos
  · split
    · exact Nat.succ_pos _
    · exact Nat.one_pos
  · exact Nat.one_pos

/-- The bytes as a text, with replacement characters for what is none. -/
def replaceInvalid : List UInt8 → List Char
  | [] => []
  | a :: rest =>
    match (a :: rest).toByteArray.utf8DecodeChar? 0 with
    | some c => c :: replaceInvalid ((a :: rest).drop c.utf8Size)
    | none => Char.ofNat 0xFFFD :: replaceInvalid ((a :: rest).drop (brokenLength (a :: rest)))
termination_by bytes => bytes.length
decreasing_by
  · have hpos := c.utf8Size_pos
    rw [List.length_drop, List.length_cons]
    omega
  · have hpos := brokenLength_pos (a :: rest)
    rw [List.length_drop, List.length_cons]
    omega

end Replacement

end Utf8
