import Mathlib.Algebra.GroupWithZero.Nat
import Mathlib.Data.List.Infix
import Mathlib.Data.List.TakeDrop

/-!
# Length-prefixed frames

A frame is one byte for its kind, the length of its payload in four bytes, the
most significant first, and the payload. A header is read from the front of a
byte string as soon as its five bytes are there; what it says does not depend on
the bytes behind it.
-/

namespace Framing

section Words

/-- The four bytes of a number, the most significant first. -/
def be32 (n : ℕ) : List UInt8 :=
  [.ofNat (n / 2 ^ 24), .ofNat (n / 2 ^ 16), .ofNat (n / 2 ^ 8), .ofNat n]

def fromBe32 (a b c d : UInt8) : ℕ :=
  a.toNat * 2 ^ 24 + b.toNat * 2 ^ 16 + c.toNat * 2 ^ 8 + d.toNat

@[simp] theorem length_be32 (n : ℕ) : (be32 n).length = 4 := rfl

theorem fromBe32_be32 {n : ℕ} (h : n < 2 ^ 32) :
    fromBe32 (.ofNat (n / 2 ^ 24)) (.ofNat (n / 2 ^ 16)) (.ofNat (n / 2 ^ 8)) (.ofNat n) = n := by
  unfold fromBe32
  simp only [UInt8.toNat_ofNat']
  omega

end Words

section Frames

/-- A frame as it is sent. -/
def encode (kind : UInt8) (payload : List UInt8) : List UInt8 :=
  kind :: (be32 payload.length ++ payload)

/-- Kind and length at the front of the bytes, and what follows. -/
def header? : List UInt8 → Option (UInt8 × ℕ × List UInt8)
  | kind :: a :: b :: c :: d :: rest => some (kind, fromBe32 a b c d, rest)
  | _ => none

variable {kind : UInt8} {payload bytes rest more : List UInt8} {n : ℕ}

@[simp] theorem length_encode : (encode kind payload).length = payload.length + 5 := by
  simp [encode]
  omega

theorem header?_eq_none_iff : header? bytes = none ↔ bytes.length < 5 := by
  match bytes with
  | [] | [_] | [_, _] | [_, _, _] | [_, _, _, _] => simp [header?]
  | _ :: _ :: _ :: _ :: _ :: _ => simp [header?]

/-- The header is read off the first five bytes. -/
theorem length_of_header? (h : header? bytes = some (kind, n, rest)) :
    bytes.length = rest.length + 5 := by
  match bytes, h with
  | _ :: _ :: _ :: _ :: _ :: _, h =>
    cases h
    rfl

theorem header?_append (h : header? bytes = some (kind, n, rest)) (more : List UInt8) :
    header? (bytes ++ more) = some (kind, n, rest ++ more) := by
  match bytes, h with
  | _ :: _ :: _ :: _ :: _ :: _, h =>
    cases h
    rfl

/-- The first five bytes are a header without payload, and what follows is the rest. -/
theorem split_of_header? (h : header? bytes = some (kind, n, rest)) :
    header? (bytes.take 5) = some (kind, n, []) ∧ bytes.drop 5 = rest := by
  match bytes, h with
  | _ :: _ :: _ :: _ :: _ :: _, h =>
    cases h
    exact ⟨rfl, rfl⟩

theorem header?_encode (hlength : payload.length < 2 ^ 32) (rest : List UInt8) :
    header? (encode kind payload ++ rest) = some (kind, payload.length, payload ++ rest) := by
  simp only [encode, be32, header?, List.cons_append, List.nil_append, fromBe32_be32 hlength]

end Frames

end Framing
