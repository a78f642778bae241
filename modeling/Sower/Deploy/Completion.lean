import Mathlib.Data.List.DropRight
import Mathlib.Data.List.Infix
import Sower.Lib.Incremental
import Sower.Lib.Traced

/-!
# The completion decoder of a deployment over SSH

The remote side mixes what commands print with responses of the activator. A
response is framed by a marker in front and a newline behind it. The decoder
passes on what is not framed, shows the output of responses with the request's
identifier and takes the exit code from the one that completes the request.
-/

namespace Sower.Deploy

open Incremental Traced

section Protocol

inductive ResponseType where
  | output
  | error
  | complete
  deriving DecidableEq, Repr

/-- A response of the activator; the data are UTF-8. -/
structure Response where
  id : String
  kind : ResponseType
  data : List UInt8 := []
  exitCode : Option ℤ := none
  deriving DecidableEq, Repr

/-- `serde_json::from_slice` of a response; none is an error. -/
abbrev ResponseParser := List UInt8 → Option Response

/-- Marker in front of a response. -/
def framePrefix : List UInt8 :=
  [0x1e] ++ "sower-activator".toList.map (fun c => c.val.toUInt8) ++ [0x1f]

def newline : UInt8 := 10

def carriageReturn : UInt8 := 13

end Protocol

section Decoder

structure Decoder where
  pending : List UInt8 := []
  inFrame : Bool := false
  completion : Option ℤ := none
  deriving DecidableEq, Repr

/-- Why decoding fails. -/
inductive DecoderError where
  | invalidResponse
  | afterCompletion
  | missingExitCode
  | closedInFrame
  | noCompletion
  deriving DecidableEq, Repr

/-- A computation that writes bytes to the terminal. -/
abbrev Writing := Run UInt8 DecoderError

/-- The first newline: what is before it and what is behind it. -/
def splitLine : List UInt8 → Option (List UInt8 × List UInt8)
  | [] => none
  | byte :: bytes =>
    if byte = newline then some ([], bytes)
    else (splitLine bytes).map fun (line, rest) => (byte :: line, rest)

/-- The first marker: what is before it and what is behind it. -/
def splitMarker : List UInt8 → Option (List UInt8 × List UInt8)
  | [] => none
  | byte :: bytes =>
    if framePrefix <+: byte :: bytes then some ([], (byte :: bytes).drop framePrefix.length)
    else (splitMarker bytes).map fun (before, after) => (byte :: before, after)

/-- The longest beginning of the marker, of the given length at most, at the end of the bytes. -/
def retained (bytes : List UInt8) : ℕ → ℕ
  | 0 => 0
  | length + 1 =>
    if framePrefix.take (length + 1) <:+ bytes then length + 1 else retained bytes length

/-- `split_inclusive` at newlines. -/
def splitInclusive : List UInt8 → List (List UInt8)
  | [] => []
  | byte :: bytes =>
    if byte = newline then [newline] :: splitInclusive bytes
    else match splitInclusive bytes with
      | [] => [[byte]]
      | line :: lines => (byte :: line) :: lines

/-- The lines of the data, each ended as a raw terminal needs it. -/
def shownData (data : List UInt8) : List UInt8 :=
  (splitInclusive data).flatMap fun line =>
    line.rdropWhile (fun byte => byte = carriageReturn || byte = newline) ++
      [carriageReturn, newline]

/-- One framed response. -/
def respond (parse : ResponseParser) (id : String) (completion : Option ℤ) (line : List UInt8) :
    Writing (Option ℤ) :=
  match parse line with
  | none => Run.lift (.error .invalidResponse)
  | some response =>
    if response.id = id then
      if completion.isSome then Run.lift (.error .afterCompletion)
      else match response.kind with
        | .complete =>
          match response.exitCode with
          | none => Run.lift (.error .missingExitCode)
          | some code => pure (some code)
        | .output | .error => do
          Run.performAll (shownData response.data)
          pure completion
    else pure completion

theorem eq_of_splitLine {bytes line rest : List UInt8} (h : splitLine bytes = some (line, rest)) :
    bytes = line ++ newline :: rest := by
  induction bytes generalizing line with
  | nil => cases h
  | cons byte bytes ih =>
    unfold splitLine at h
    split at h
    · rename_i hnewline
      cases h
      rw [hnewline, List.nil_append]
    · obtain ⟨⟨line', rest'⟩, hsplit, heq⟩ := Option.map_eq_some_iff.mp h
      cases heq
      rw [List.cons_append, ← ih hsplit]

theorem eq_of_splitMarker {bytes before after : List UInt8}
    (h : splitMarker bytes = some (before, after)) : bytes = before ++ framePrefix ++ after := by
  induction bytes generalizing before with
  | nil => cases h
  | cons byte bytes ih =>
    unfold splitMarker at h
    split at h
    · rename_i hbegins
      cases h
      rw [List.nil_append, List.prefix_iff_eq_append.mp hbegins]
    · obtain ⟨⟨before', after'⟩, hsplit, heq⟩ := Option.map_eq_some_iff.mp h
      cases heq
      rw [List.cons_append, List.cons_append, ← ih hsplit]

theorem framePrefix_length_pos : 0 < framePrefix.length := by decide

/-- The loop of `push`: `remaining` is what is pending from the cursor on. -/
def scan (parse : ResponseParser) (id : String) (inFrame : Bool) (completion : Option ℤ)
    (remaining : List UInt8) : Writing Decoder :=
  if remaining = [] then pure ⟨[], inFrame, completion⟩
  else if inFrame then
    match hline : splitLine remaining with
    | none => pure ⟨remaining, true, completion⟩
    | some (line, rest) => do
      have _shorter := congrArg List.length (eq_of_splitLine hline)
      let completion ← respond parse id completion line
      scan parse id false completion rest
  else
    match hmarker : splitMarker remaining with
    | some (before, after) => do
      have _shorter := congrArg List.length (eq_of_splitMarker hmarker)
      Run.performAll before
      scan parse id true completion after
    | none => do
      -- keep only a possible split marker, never a partial prompt
      let emitted := remaining.length -
        retained remaining (min framePrefix.length (remaining.length + 1) - 1)
      Run.performAll (remaining.take emitted)
      pure ⟨remaining.drop emitted, false, completion⟩
  termination_by remaining.length
  decreasing_by
    all_goals
      have hpos := framePrefix_length_pos
      simp only [List.length_append, List.length_cons] at _shorter
      omega

def Decoder.push (parse : ResponseParser) (id : String) (d : Decoder) (bytes : List UInt8) :
    Writing Decoder :=
  scan parse id d.inFrame d.completion (d.pending ++ bytes)

def Decoder.finish (d : Decoder) : Writing ℤ :=
  if d.inFrame then Run.lift (.error .closedInFrame)
  else do
    Run.performAll d.pending
    match d.completion with
    | none => Run.lift (.error .noCompletion)
    | some code => pure code

/-- The pushes of a stream that is read in chunks. -/
def Decoder.pushAll (parse : ResponseParser) (id : String) (d : Decoder) :
    List (List UInt8) → Writing Decoder
  | [] => pure d
  | chunk :: chunks => d.push parse id chunk >>= fun d' => d'.pushAll parse id chunks

/-- `stream`: push every chunk that is read, and finish at the end. -/
def stream (parse : ResponseParser) (id : String) (chunks : List (List UInt8)) : Writing ℤ :=
  Decoder.pushAll parse id {} chunks >>= Decoder.finish

end Decoder

section Pieces

/-- A byte that is not framed, or the text of a frame. -/
inductive Piece where
  | text (byte : UInt8)
  | frame (line : List UInt8)
  deriving DecidableEq, Repr

def Piece.bytes : Piece → List UInt8
  | .text byte => [byte]
  | .frame line => framePrefix ++ line ++ [newline]

/-- The texts of the frames. -/
def framesOf : List Piece → List (List UInt8)
  | [] => []
  | .text _ :: rest => framesOf rest
  | .frame line :: rest => line :: framesOf rest

@[simp] theorem framesOf_text (byte : UInt8) (rest : List Piece) :
    framesOf (.text byte :: rest) = framesOf rest := rfl

@[simp] theorem framesOf_frame (line : List UInt8) (rest : List Piece) :
    framesOf (.frame line :: rest) = line :: framesOf rest := rfl

/-- The piece at the front: a marker begins a frame, and the beginning of a marker waits. -/
def nextPiece (input : List UInt8) : Next UInt8 Piece Empty :=
  if framePrefix <+: input then
    match splitLine (input.drop framePrefix.length) with
    | none => .more
    | some (line, rest) => .item (.frame line) rest
  else if input <+: framePrefix then .more
  else
    match input with
    | [] => .more
    | byte :: rest => .item (.text byte) rest

variable {input rest later line after : List UInt8} {piece : Piece}

theorem splitLine_append (h : splitLine input = some (line, rest)) (later : List UInt8) :
    splitLine (input ++ later) = some (line, rest ++ later) := by
  induction input generalizing line with
  | nil => cases h
  | cons byte bytes ih =>
    unfold splitLine at h
    rw [List.cons_append, splitLine]
    split at h
    · rename_i hnewline
      cases h
      rw [if_pos hnewline]
    · rename_i hother
      obtain ⟨⟨line', rest'⟩, hsplit, heq⟩ := Option.map_eq_some_iff.mp h
      cases heq
      rw [if_neg hother, ih hsplit]
      rfl

theorem nextPiece_frame (h : splitLine after = some (line, rest)) :
    nextPiece (framePrefix ++ after) = .item (.frame line) rest := by
  unfold nextPiece
  rw [if_pos (List.prefix_append _ _), List.drop_left, h]

theorem nextPiece_open (h : splitLine after = none) : nextPiece (framePrefix ++ after) = .more := by
  unfold nextPiece
  rw [if_pos (List.prefix_append _ _), List.drop_left, h]

theorem nextPiece_text {byte : UInt8} (hmarker : ¬ framePrefix <+: byte :: rest)
    (hbegins : ¬ byte :: rest <+: framePrefix) :
    nextPiece (byte :: rest) = .item (.text byte) rest := by
  unfold nextPiece
  rw [if_neg hmarker, if_neg hbegins]

theorem nextPiece_begins (hmarker : ¬ framePrefix <+: input) (hbegins : input <+: framePrefix) :
    nextPiece input = .more := by
  unfold nextPiece
  rw [if_neg hmarker, if_pos hbegins]

/-- All ways in which a piece is taken. -/
theorem nextPiece_item_cases (h : nextPiece input = .item piece rest) :
    (∃ line after, piece = .frame line ∧ input = framePrefix ++ after ∧
        splitLine after = some (line, rest)) ∨
      ∃ byte, piece = .text byte ∧ input = byte :: rest ∧ ¬ framePrefix <+: input ∧
        ¬ input <+: framePrefix := by
  by_cases hmarker : framePrefix <+: input
  · obtain ⟨after, hafter⟩ := hmarker
    left
    rw [← hafter] at h
    cases hsplit : splitLine after with
    | none =>
      rw [nextPiece_open hsplit] at h
      cases h
    | some found =>
      obtain ⟨line, tail⟩ := found
      rw [nextPiece_frame hsplit] at h
      cases h
      exact ⟨line, after, rfl, hafter.symm, hsplit⟩
  · right
    by_cases hbegins : input <+: framePrefix
    · rw [nextPiece_begins hmarker hbegins] at h
      cases h
    · cases input with
      | nil => exact absurd (List.nil_prefix) hbegins
      | cons byte bytes =>
        rw [nextPiece_text hmarker hbegins] at h
        cases h
        exact ⟨byte, rfl, rfl, hmarker, hbegins⟩

/-- The reader of pieces. -/
def pieces : Reader UInt8 Piece Empty where
  next := nextPiece
  shrinks {input piece rest} h := by
    have hpos := framePrefix_length_pos
    rcases nextPiece_item_cases h with ⟨line, after, -, hinput, hsplit⟩ | ⟨byte, -, hinput, -⟩
    · have hlength := congrArg List.length (eq_of_splitLine hsplit)
      rw [hinput]
      simp only [List.length_append, List.length_cons] at hlength ⊢
      omega
    · rw [hinput, List.length_cons]
      omega
  item_append {input piece rest} h later := by
    rcases nextPiece_item_cases h with
      ⟨line, after, hpiece, hinput, hsplit⟩ | ⟨byte, hpiece, hinput, hmarker, hbegins⟩
    · rw [hinput, hpiece, List.append_assoc]
      exact nextPiece_frame (splitLine_append hsplit later)
    · rw [hinput] at hmarker hbegins
      rw [hinput, hpiece, List.cons_append]
      refine nextPiece_text ?_ ?_
      · intro hlater
        have heither := List.prefix_or_prefix_of_prefix hlater (List.prefix_append (byte :: rest) later)
        rcases heither with hnow | hnow
        · exact hmarker hnow
        · exact hbegins hnow
      · intro hlater
        exact hbegins ((List.prefix_append (byte :: rest) later).trans hlater)
  error_append {_ reason} := nomatch reason

/-- Pieces and what is left over are the input. -/
theorem bytes_of_drain {rest : List UInt8} (h : (pieces.drain input).2 = .waiting rest) :
    input = (pieces.drain input).1.flatMap Piece.bytes ++ rest := by
  induction input using pieces.drain_induction with
  | more input hnext =>
    rw [drain_of_more hnext] at h ⊢
    cases h
    rfl
  | error input reason => exact nomatch reason
  | item input piece tail hnext ih =>
    rw [drain_of_item hnext] at h ⊢
    rw [List.flatMap_cons, List.append_assoc, ← ih h]
    rcases nextPiece_item_cases hnext with ⟨line, after, hpiece, hinput, hsplit⟩ |
      ⟨byte, hpiece, hinput, -⟩
    · rw [hinput, hpiece, eq_of_splitLine hsplit]
      simp [Piece.bytes]
    · rw [hinput, hpiece]
      rfl

/-- Draining never fails: every input is the beginning of some stream. -/
theorem exists_drain (input : List UInt8) :
    ∃ taken rest, pieces.drain input = (taken, .waiting rest) := by
  cases h : (pieces.drain input).2 with
  | waiting rest => exact ⟨(pieces.drain input).1, rest, Prod.ext rfl h⟩
  | failed reason => exact nomatch reason

end Pieces

section Text

variable {input before after : List UInt8}

/-- The bytes before the first marker are text. -/
theorem drain_of_splitMarker (h : splitMarker input = some (before, after)) :
    pieces.drain input = (before.map Piece.text ++ (pieces.drain (framePrefix ++ after)).1,
      (pieces.drain (framePrefix ++ after)).2) := by
  induction input generalizing before with
  | nil => cases h
  | cons byte bytes ih =>
    have heq := eq_of_splitMarker h
    unfold splitMarker at h
    split at h
    · cases h
      rw [List.nil_append] at heq
      rw [← heq]
      rfl
    · rename_i hmarker
      obtain ⟨⟨before', after'⟩, hsplit, hpair⟩ := Option.map_eq_some_iff.mp h
      cases hpair
      have hbegins : ¬ byte :: bytes <+: framePrefix := by
        intro hbegins
        have hshort := hbegins.length_le
        have hlong := congrArg List.length (eq_of_splitMarker hsplit)
        simp only [List.length_cons, List.length_append] at hshort hlong
        omega
      have hnext : pieces.next (byte :: bytes) = .item (.text byte) bytes :=
        nextPiece_text hmarker hbegins
      rw [drain_of_item hnext, ih hsplit]
      rfl

theorem retained_le (bytes : List UInt8) (length : ℕ) : retained bytes length ≤ length := by
  induction length with
  | zero => exact le_rfl
  | succ length ih =>
    unfold retained
    split
    · exact le_rfl
    · omega

/-- A byte in front makes no difference to shorter endings. -/
theorem retained_cons (byte : UInt8) (bytes : List UInt8) {length : ℕ}
    (h : length ≤ bytes.length) : retained (byte :: bytes) length = retained bytes length := by
  induction length with
  | zero => rfl
  | succ length ih =>
    have hiff : framePrefix.take (length + 1) <:+ byte :: bytes ↔
        framePrefix.take (length + 1) <:+ bytes := by
      rw [List.suffix_cons_iff]
      constructor
      · intro heither
        rcases heither with heq | hsuffix
        · have hlength := congrArg List.length heq
          simp only [List.length_take, List.length_cons] at hlength
          omega
        · exact hsuffix
      · intro hsuffix
        exact Or.inr hsuffix
    unfold retained
    simp only [hiff]
    rw [ih (by omega)]

/-- What `push` keeps back of bytes without a marker. -/
def keptBack (bytes : List UInt8) : ℕ :=
  retained bytes (min framePrefix.length (bytes.length + 1) - 1)

theorem keptBack_le (bytes : List UInt8) : keptBack bytes ≤ bytes.length := by
  have hle := retained_le bytes (min framePrefix.length (bytes.length + 1) - 1)
  unfold keptBack
  omega

/-- The beginning of a marker is kept back as a whole. -/
theorem keptBack_of_begins {byte : UInt8} {bytes : List UInt8}
    (hbegins : byte :: bytes <+: framePrefix) (hmarker : ¬ framePrefix <+: byte :: bytes) :
    keptBack (byte :: bytes) = (byte :: bytes).length := by
  have hle := hbegins.length_le
  have hne : (byte :: bytes).length ≠ framePrefix.length := by
    intro heq
    rw [hbegins.eq_of_length heq] at hmarker
    exact hmarker (List.prefix_refl _)
  have hmin : min framePrefix.length ((byte :: bytes).length + 1) - 1 = bytes.length + 1 := by
    simp only [List.length_cons] at hle hne ⊢
    omega
  have htake : framePrefix.take (bytes.length + 1) = byte :: bytes :=
    (List.prefix_iff_eq_take.mp hbegins).symm
  unfold keptBack
  rw [hmin, retained, htake, if_pos (List.suffix_refl _), List.length_cons]

/-- A byte that begins no marker is not kept back. -/
theorem keptBack_cons {byte : UInt8} {bytes : List UInt8}
    (hbegins : ¬ byte :: bytes <+: framePrefix) : keptBack (byte :: bytes) = keptBack bytes := by
  unfold keptBack
  rw [List.length_cons]
  by_cases hlong : framePrefix.length ≤ bytes.length + 1
  · have hleft : min framePrefix.length (bytes.length + 1 + 1) - 1 = framePrefix.length - 1 := by
      omega
    have hright : min framePrefix.length (bytes.length + 1) - 1 = framePrefix.length - 1 := by
      omega
    rw [hleft, hright, retained_cons byte bytes (by omega)]
  · have hleft : min framePrefix.length (bytes.length + 1 + 1) - 1 = bytes.length + 1 := by
      omega
    have hright : min framePrefix.length (bytes.length + 1) - 1 = bytes.length := by
      omega
    have hsuffix : ¬ framePrefix.take (bytes.length + 1) <:+ byte :: bytes := by
      intro hends
      have hlength : (framePrefix.take (bytes.length + 1)).length = (byte :: bytes).length := by
        rw [List.length_take, List.length_cons]
        omega
      exact hbegins (hends.eq_of_length hlength ▸ List.take_prefix _ _)
    rw [hleft, hright, retained, if_neg hsuffix, retained_cons byte bytes le_rfl]

/-- Without a marker everything is text but what is kept back. -/
theorem drain_of_no_marker (h : splitMarker input = none) :
    pieces.drain input =
      ((input.take (input.length - keptBack input)).map Piece.text,
        .waiting (input.drop (input.length - keptBack input))) := by
  induction input with
  | nil =>
    have hnext : pieces.next [] = .more :=
      nextPiece_begins (by decide) List.nil_prefix
    rw [drain_of_more hnext]
    rfl
  | cons byte bytes ih =>
    unfold splitMarker at h
    split at h
    · cases h
    · rename_i hmarker
      have hrest : splitMarker bytes = none := Option.map_eq_none_iff.mp h
      by_cases hbegins : byte :: bytes <+: framePrefix
      · have hnext : pieces.next (byte :: bytes) = .more := nextPiece_begins hmarker hbegins
        rw [drain_of_more hnext, keptBack_of_begins hbegins hmarker, Nat.sub_self]
        rfl
      · have hnext : pieces.next (byte :: bytes) = .item (.text byte) bytes :=
          nextPiece_text hmarker hbegins
        have hle := keptBack_le bytes
        have hlength : (byte :: bytes).length - keptBack bytes =
            bytes.length - keptBack bytes + 1 := by
          rw [List.length_cons]
          omega
        rw [drain_of_item hnext, ih hrest, keptBack_cons hbegins, hlength]
        rfl

end Text

section Scanning

variable (parse : ResponseParser) (id : String)

/-- What the decoder does with one piece. -/
def takePiece (completion : Option ℤ) : Piece → Writing (Option ℤ)
  | .text byte => Run.performAll [byte] >>= fun _ => pure completion
  | .frame line => respond parse id completion line

def takePieces : Option ℤ → List Piece → Writing (Option ℤ)
  | completion, [] => pure completion
  | completion, piece :: rest =>
    takePiece parse id completion piece >>= fun completion' => takePieces completion' rest

theorem takePieces_append (completion : Option ℤ) (taken later : List Piece) :
    takePieces parse id completion (taken ++ later) =
      takePieces parse id completion taken >>= fun completion' =>
        takePieces parse id completion' later := by
  induction taken generalizing completion with
  | nil => rw [List.nil_append, takePieces, Run.pure_bind_run]
  | cons piece taken ih =>
    rw [List.cons_append, takePieces, takePieces, Run.bind_assoc_run]
    simp only [ih]

theorem takePieces_text (completion : Option ℤ) (bytes : List UInt8) :
    takePieces parse id completion (bytes.map Piece.text) =
      Run.performAll bytes >>= fun _ => pure completion := by
  induction bytes with
  | nil => rfl
  | cons byte bytes ih =>
    rw [List.map_cons, takePieces, takePiece, Run.bind_assoc_run]
    simp only [Run.pure_bind_run, ih]
    exact (Run.performAll_append_bind [byte] bytes _).symm

/-- The decoder that has this left over. -/
def Decoder.waiting (rest : List UInt8) (completion : Option ℤ) : Decoder :=
  if framePrefix <+: rest then ⟨rest.drop framePrefix.length, true, completion⟩
  else ⟨rest, false, completion⟩

/-- What the decoder has not taken yet, with the marker of an open frame. -/
def unread (inFrame : Bool) (pending : List UInt8) : List UInt8 :=
  if inFrame then framePrefix ++ pending else pending

section Equations

variable {remaining line rest before after : List UInt8} (completion : Option ℤ)

theorem scan_nil (inFrame : Bool) :
    scan parse id inFrame completion [] = pure ⟨[], inFrame, completion⟩ := by
  rw [scan, if_pos rfl]

theorem scan_open (hsplit : splitLine remaining = none) :
    scan parse id true completion remaining = pure ⟨remaining, true, completion⟩ := by
  rw [scan]
  split
  · rename_i hnil
    rw [hnil]
  · rw [if_pos rfl]
    split
    · rfl
    · rename_i hline
      rw [hsplit] at hline
      cases hline

theorem scan_line (hsplit : splitLine remaining = some (line, rest)) :
    scan parse id true completion remaining =
      respond parse id completion line >>= fun completion' =>
        scan parse id false completion' rest := by
  have hne : remaining ≠ [] := by
    intro hnil
    rw [hnil] at hsplit
    cases hsplit
  rw [scan, if_neg hne, if_pos rfl]
  split
  · rename_i hline
    rw [hsplit] at hline
    cases hline
  · rename_i hline
    rw [hsplit] at hline
    cases hline
    rfl

theorem scan_marker (hsplit : splitMarker remaining = some (before, after)) :
    scan parse id false completion remaining =
      Run.performAll before >>= fun _ => scan parse id true completion after := by
  have hne : remaining ≠ [] := by
    intro hnil
    rw [hnil] at hsplit
    cases hsplit
  rw [scan, if_neg hne, if_neg Bool.false_ne_true]
  split
  · rename_i hmarker
    rw [hsplit] at hmarker
    cases hmarker
    rfl
  · rename_i hmarker
    rw [hsplit] at hmarker
    cases hmarker

theorem scan_text (hsplit : splitMarker remaining = none) :
    scan parse id false completion remaining =
      Run.performAll (remaining.take (remaining.length - keptBack remaining)) >>= fun _ =>
        pure ⟨remaining.drop (remaining.length - keptBack remaining), false, completion⟩ := by
  by_cases hnil : remaining = []
  · rw [hnil, scan_nil]
    rfl
  · rw [scan, if_neg hnil, if_neg Bool.false_ne_true]
    split
    · rename_i hmarker
      rw [hsplit] at hmarker
      cases hmarker
    · rfl

end Equations

theorem waiting_of_open (rest : List UInt8) (completion : Option ℤ) :
    Decoder.waiting (framePrefix ++ rest) completion = ⟨rest, true, completion⟩ := by
  unfold Decoder.waiting
  rw [if_pos (List.prefix_append _ _), List.drop_left]

theorem waiting_of_text {rest : List UInt8} (h : ¬ framePrefix <+: rest)
    (completion : Option ℤ) : Decoder.waiting rest completion = ⟨rest, false, completion⟩ := by
  unfold Decoder.waiting
  rw [if_neg h]

theorem not_marker_of_split_eq_none {input : List UInt8} (h : splitMarker input = none) (n : ℕ) :
    ¬ framePrefix <+: input.drop n := by
  induction input generalizing n with
  | nil =>
    rw [List.drop_nil]
    decide
  | cons byte bytes ih =>
    unfold splitMarker at h
    split at h
    · cases h
    · rename_i hmarker
      cases n with
      | zero => exact hmarker
      | succ n => exact ih (Option.map_eq_none_iff.mp h) n

/-- Scanning takes the pieces of what is unread, and keeps what is left over. -/
theorem scan_eq (inFrame : Bool) (completion : Option ℤ) (remaining : List UInt8)
    {taken : List Piece} {rest : List UInt8}
    (h : pieces.drain (unread inFrame remaining) = (taken, .waiting rest)) :
    scan parse id inFrame completion remaining =
      takePieces parse id completion taken >>= fun completion' =>
        pure (Decoder.waiting rest completion') := by
  induction hlength : remaining.length using Nat.strongRecOn
    generalizing remaining inFrame completion taken with
  | ind n ih =>
    cases inFrame with
    | true =>
      change pieces.drain (framePrefix ++ remaining) = _ at h
      cases hsplit : splitLine remaining with
      | none =>
        rw [drain_of_more (nextPiece_open hsplit)] at h
        cases h
        rw [scan_open parse id completion hsplit, takePieces, Run.pure_bind_run, waiting_of_open]
      | some found =>
        obtain ⟨line, after⟩ := found
        have hshort := congrArg List.length (eq_of_splitLine hsplit)
        simp only [List.length_append, List.length_cons] at hshort
        obtain ⟨taken', rest', hdrain⟩ := exists_drain after
        rw [drain_of_item (nextPiece_frame hsplit), hdrain] at h
        cases h
        rw [scan_line parse id completion hsplit, takePieces, Run.bind_assoc_run]
        refine congrArg _ (funext fun completion' => ?_)
        exact ih after.length (by omega) false completion' after hdrain rfl
    | false =>
      change pieces.drain remaining = _ at h
      cases hsplit : splitMarker remaining with
      | none =>
        rw [drain_of_no_marker hsplit] at h
        cases h
        rw [scan_text parse id completion hsplit, takePieces_text, Run.bind_assoc_run]
        simp only [Run.pure_bind_run, waiting_of_text (not_marker_of_split_eq_none hsplit _)]
      | some found =>
        obtain ⟨before, after⟩ := found
        have hpos := framePrefix_length_pos
        have hshort := congrArg List.length (eq_of_splitMarker hsplit)
        simp only [List.length_append] at hshort
        obtain ⟨taken', rest', hdrain⟩ := exists_drain (framePrefix ++ after)
        rw [drain_of_splitMarker hsplit, hdrain] at h
        cases h
        rw [scan_marker parse id completion hsplit, takePieces_append, takePieces_text,
          Run.bind_assoc_run, Run.bind_assoc_run]
        refine congrArg _ (funext fun _ => ?_)
        rw [Run.pure_bind_run]
        exact ih after.length (by omega) true completion after hdrain rfl

theorem unread_waiting (rest : List UInt8) (completion : Option ℤ) :
    unread (Decoder.waiting rest completion).inFrame (Decoder.waiting rest completion).pending =
      rest := by
  by_cases hmarker : framePrefix <+: rest
  · obtain ⟨after, hafter⟩ := hmarker
    rw [← hafter, waiting_of_open]
    rfl
  · rw [waiting_of_text hmarker]
    rfl

@[simp] theorem completion_waiting (rest : List UInt8) (completion : Option ℤ) :
    (Decoder.waiting rest completion).completion = completion := by
  unfold Decoder.waiting
  split <;> rfl

theorem unread_append (inFrame : Bool) (pending bytes : List UInt8) :
    unread inFrame (pending ++ bytes) = unread inFrame pending ++ bytes := by
  unfold unread
  split
  · rw [List.append_assoc]
  · rfl

/-- A push takes the pieces of what was left over and the new bytes. -/
theorem push_waiting {rest bytes rest' : List UInt8} {taken : List Piece}
    (completion : Option ℤ) (h : pieces.drain (rest ++ bytes) = (taken, .waiting rest')) :
    (Decoder.waiting rest completion).push parse id bytes =
      takePieces parse id completion taken >>= fun completion' =>
        pure (Decoder.waiting rest' completion') := by
  have hunread : unread (Decoder.waiting rest completion).inFrame
      ((Decoder.waiting rest completion).pending ++ bytes) = rest ++ bytes := by
    rw [unread_append, unread_waiting]
  have hscan := scan_eq parse id (Decoder.waiting rest completion).inFrame completion
    ((Decoder.waiting rest completion).pending ++ bytes) (hunread ▸ h)
  unfold Decoder.push
  rw [completion_waiting]
  exact hscan

/-- The pushes of all chunks take the pieces of all their bytes. -/
theorem pushAll_waiting {chunks : List (List UInt8)} {rest rest' : List UInt8}
    {taken : List Piece} (completion : Option ℤ) (hmore : pieces.next rest = .more)
    (h : pieces.drain (rest ++ chunks.flatten) = (taken, .waiting rest')) :
    (Decoder.waiting rest completion).pushAll parse id chunks =
      takePieces parse id completion taken >>= fun completion' =>
        pure (Decoder.waiting rest' completion') := by
  induction chunks generalizing rest completion taken with
  | nil =>
    rw [List.flatten_nil, List.append_nil, drain_of_more hmore] at h
    cases h
    rfl
  | cons chunk chunks ih =>
    obtain ⟨first, left, hfirst⟩ := exists_drain (rest ++ chunk)
    obtain ⟨second, last, hsecond⟩ := exists_drain (left ++ chunks.flatten)
    have hwaiting : (pieces.drain (rest ++ chunk)).2 = .waiting left := by
      rw [hfirst]
    have hnext : pieces.next left = .more := next_of_waiting hwaiting
    rw [List.flatten_cons, ← List.append_assoc, drain_append, hfirst] at h
    unfold Reader.resume at h
    dsimp only at h
    rw [hsecond] at h
    cases h
    rw [Decoder.pushAll, push_waiting parse id completion hfirst, takePieces_append,
      Run.bind_assoc_run, Run.bind_assoc_run]
    refine congrArg _ (funext fun completion' => ?_)
    rw [Run.pure_bind_run]
    exact ih completion' hnext hsecond

theorem next_nil : pieces.next [] = .more := nextPiece_begins (by decide) List.nil_prefix

theorem initial_eq : ({} : Decoder) = Decoder.waiting [] none :=
  (waiting_of_text (by decide) none).symm

theorem pushAll_eq {chunks : List (List UInt8)} {rest : List UInt8} {taken : List Piece}
    (h : pieces.drain chunks.flatten = (taken, .waiting rest)) :
    Decoder.pushAll parse id {} chunks =
      takePieces parse id none taken >>= fun completion =>
        pure (Decoder.waiting rest completion) := by
  rw [initial_eq]
  exact pushAll_waiting parse id none next_nil h

/-- However the stream is cut into chunks, the terminal is written the same bytes, and the
decoder ends in the same state or with the same error. -/
theorem pushAll_eq_push (chunks : List (List UInt8)) :
    Decoder.pushAll parse id {} chunks = Decoder.push parse id {} chunks.flatten := by
  obtain ⟨taken, rest, hdrain⟩ := exists_drain chunks.flatten
  rw [pushAll_eq parse id hdrain, initial_eq]
  exact (push_waiting parse id none hdrain).symm

end Scanning

section Outcome

variable (parse : ResponseParser) (id : String)

/-- The frame is a response to the request. -/
def Matches (line : List UInt8) : Prop := ∃ response, parse line = some response ∧ response.id = id

/-- The frame is a response that completes the request. -/
def Completes (line : List UInt8) : Prop :=
  ∃ response, parse line = some response ∧ response.id = id ∧ response.kind = .complete

/-- The frame completes the request with the exit code. -/
def CompletesWith (code : ℤ) (line : List UInt8) : Prop :=
  ∃ response, parse line = some response ∧ response.id = id ∧ response.kind = .complete ∧
    response.exitCode = some code

/-- Exactly one of the frames completes the request, it does so with the code, and no
response to the request follows it. -/
def CompletedBy (code : ℤ) (frames : List (List UInt8)) : Prop :=
  ∃ before line after, frames = before ++ line :: after ∧ CompletesWith parse id code line ∧
    (∀ other ∈ before ++ after, ¬ Completes parse id other) ∧
    ∀ other ∈ after, ¬ Matches parse id other

/-- What a piece shows on the terminal. -/
def shown : Piece → List UInt8
  | .text byte => [byte]
  | .frame line =>
    match parse line with
    | none => []
    | some response =>
      if response.id = id ∧ response.kind ≠ .complete then shownData response.data else []

variable {parse id} {completion completion' : Option ℤ} {line : List UInt8} {code : ℤ}

theorem CompletesWith.completes (h : CompletesWith parse id code line) :
    Completes parse id line := by
  obtain ⟨response, hparse, hid, hkind, -⟩ := h
  exact ⟨response, hparse, hid, hkind⟩

theorem Completes.matches (h : Completes parse id line) : Matches parse id line := by
  obtain ⟨response, hparse, hid, -⟩ := h
  exact ⟨response, hparse, hid⟩

theorem matches_iff {response : Response} (h : parse line = some response) :
    Matches parse id line ↔ response.id = id := by
  simp [Matches, h]

theorem completes_iff {response : Response} (h : parse line = some response) :
    Completes parse id line ↔ response.id = id ∧ response.kind = .complete := by
  simp [Completes, h]

theorem completesWith_iff {response : Response} (h : parse line = some response) :
    CompletesWith parse id code line ↔
      response.id = id ∧ response.kind = .complete ∧ response.exitCode = some code := by
  simp [CompletesWith, h]

/-- All endings of one framed response, with what it shows. -/
theorem respond_cases (parse : ResponseParser) (id : String) (completion : Option ℤ)
    (line : List UInt8) :
    (∃ error, respond parse id completion line = Run.lift (.error error)) ∧
        (parse line = none ∨ Matches parse id line ∧ (completion.isSome = true ∨
          Completes parse id line ∧ ∀ code, ¬ CompletesWith parse id code line)) ∨
      (∃ code, completion = none ∧ CompletesWith parse id code line ∧
        respond parse id completion line = pure (some code)) ∨
      respond parse id completion line =
          (Run.performAll (shown parse id (.frame line)) >>= fun _ => pure completion) ∧
        (∃ response, parse line = some response) ∧ ¬ Completes parse id line ∧
        (completion.isSome = true → ¬ Matches parse id line) := by
  cases hparse : parse line with
  | none =>
    left
    unfold respond
    rw [hparse]
    exact ⟨⟨_, rfl⟩, Or.inl rfl⟩
  | some response =>
    rw [matches_iff hparse, completes_iff hparse]
    simp only [completesWith_iff hparse]
    have hshown : shown parse id (.frame line) =
        if response.id = id ∧ response.kind ≠ .complete then shownData response.data else [] := by
      unfold shown
      dsimp only
      rw [hparse]
    rw [hshown]
    unfold respond
    rw [hparse]
    dsimp only
    by_cases hid : response.id = id
    · rw [if_pos hid]
      by_cases hdone : completion.isSome = true
      · left
        rw [if_pos hdone]
        exact ⟨⟨_, rfl⟩, Or.inr ⟨hid, Or.inl hdone⟩⟩
      · rw [if_neg hdone]
        have hnone : completion = none := by
          rw [← Option.not_isSome_iff_eq_none]
          exact hdone
        cases hkind : response.kind with
        | complete =>
          cases hcode : response.exitCode with
          | none =>
            left
            refine ⟨⟨_, rfl⟩, Or.inr ⟨hid, Or.inr ⟨⟨hid, rfl⟩, ?_⟩⟩⟩
            intro code hcompletes
            cases hcompletes.2.2
          | some code =>
            right
            left
            exact ⟨code, hnone, ⟨hid, rfl, rfl⟩, rfl⟩
        | output =>
          right
          right
          rw [if_pos ⟨hid, by decide⟩]
          exact ⟨rfl, ⟨_, rfl⟩, by simp, fun h => absurd h hdone⟩
        | error =>
          right
          right
          rw [if_pos ⟨hid, by decide⟩]
          exact ⟨rfl, ⟨_, rfl⟩, by simp, fun h => absurd h hdone⟩
    · right
      right
      rw [if_neg hid, if_neg (by simp [hid])]
      exact ⟨rfl, ⟨_, rfl⟩, by simp [hid], fun _ => hid⟩

theorem respond_ok_iff :
    (respond parse id completion line).ending = .ok completion' ↔
      completion = none ∧ (∃ code, completion' = some code ∧ CompletesWith parse id code line) ∨
        completion' = completion ∧ (∃ response, parse line = some response) ∧
          ¬ Completes parse id line ∧ (completion.isSome = true → ¬ Matches parse id line) := by
  rcases respond_cases parse id completion line with
    ⟨⟨error, hrespond⟩, hcause⟩ | ⟨code, hnone, hcompletes, hrespond⟩ |
      ⟨hrespond, hparsed, hother, hquiet⟩
  · rw [hrespond, Run.ending_lift]
    constructor
    · intro h
      cases h
    · intro h
      rcases hcause with hunparsed | ⟨hmatches, hbad⟩
      · rcases h with ⟨-, code, -, response, hparse, -⟩ | ⟨-, ⟨response, hparse⟩, -⟩
        · rw [hunparsed] at hparse
          cases hparse
        · rw [hunparsed] at hparse
          cases hparse
      · rcases hbad with hdone | ⟨hcompletes, hcodeless⟩
        · rcases h with ⟨hnone, -⟩ | ⟨-, -, -, hquiet⟩
          · rw [hnone] at hdone
            cases hdone
          · exact absurd hmatches (hquiet hdone)
        · rcases h with ⟨-, code, -, hcode⟩ | ⟨-, -, hother, -⟩
          · exact absurd hcode (hcodeless code)
          · exact absurd hcompletes hother
  · rw [hrespond, Run.ending_pure]
    constructor
    · intro h
      cases h
      exact Or.inl ⟨hnone, code, rfl, hcompletes⟩
    · intro h
      rcases h with ⟨-, code', hcode', response, hparse, -, -, hexit⟩ | ⟨-, -, hother, -⟩
      · rw [completesWith_iff hparse] at hcompletes
        rw [hcode', ← hexit, hcompletes.2.2]
      · exact absurd hcompletes.completes hother
  · rw [hrespond]
    change Except.ok completion = .ok completion' ↔ _
    constructor
    · intro h
      cases h
      exact Or.inr ⟨rfl, hparsed, hother, hquiet⟩
    · intro h
      rcases h with ⟨-, code, -, hcompletes⟩ | ⟨hsame, -⟩
      · exact absurd hcompletes.completes hother
      · rw [hsame]

/-- A response that ends with an error shows nothing. -/
theorem respond_effects :
    (respond parse id completion line).effects =
      match (respond parse id completion line).ending with
      | .ok _ => shown parse id (.frame line)
      | .error _ => [] := by
  rcases respond_cases parse id completion line with
    ⟨⟨error, hrespond⟩, -⟩ | ⟨code, -, hcompletes, hrespond⟩ | ⟨hrespond, -⟩
  · rw [hrespond]
    rfl
  · obtain ⟨response, hparse, -, hkind, -⟩ := hcompletes
    have hshown : shown parse id (.frame line) = [] := by
      simp [shown, hparse, hkind]
    rw [hrespond, hshown]
    rfl
  · rw [hrespond]
    change shown parse id (.frame line) ++ [] = _
    rw [List.append_nil]
    rfl

theorem takePiece_text (byte : UInt8) :
    (takePiece parse id completion (.text byte)).ending = .ok completion := rfl

/-- After the completion, responses to other requests alone are accepted. -/
theorem takePieces_some_ok_iff {taken : List Piece} :
    (takePieces parse id (some code) taken).ending = .ok completion' ↔
      completion' = some code ∧ ∀ line ∈ framesOf taken,
        (∃ response, parse line = some response) ∧ ¬ Matches parse id line := by
  induction taken with
  | nil =>
    change Except.ok (some code) = .ok completion' ↔ _
    simp [framesOf, eq_comm]
  | cons piece taken ih =>
    rw [takePieces, Run.ending_bind_ok]
    cases piece with
    | text byte =>
      rw [framesOf_text, ← ih]
      constructor
      · intro h
        obtain ⟨next, hnext, hrest⟩ := h
        rw [takePiece_text] at hnext
        cases hnext
        exact hrest
      · intro h
        exact ⟨some code, rfl, h⟩
    | frame line =>
      rw [framesOf_frame, List.forall_mem_cons]
      change (∃ next, (respond parse id (some code) line).ending = .ok next ∧ _) ↔ _
      simp only [respond_ok_iff]
      constructor
      · intro h
        obtain ⟨next, hnext, hrest⟩ := h
        rcases hnext with ⟨hnone, -⟩ | ⟨hsame, hparsed, -, hquiet⟩
        · cases hnone
        · rw [hsame] at hrest
          obtain ⟨hcompletion, hlines⟩ := ih.mp hrest
          exact ⟨hcompletion, ⟨hparsed, hquiet rfl⟩, hlines⟩
      · intro h
        obtain ⟨hcompletion, ⟨hparsed, hquiet⟩, hlines⟩ := h
        refine ⟨some code, Or.inr ⟨rfl, hparsed, ?_, fun _ => hquiet⟩, ih.mpr ⟨hcompletion, hlines⟩⟩
        intro hcompletes
        exact hquiet hcompletes.matches

/-- The pieces complete the request with a code exactly when the frames do. -/
theorem takePieces_none_ok_iff {taken : List Piece} :
    (takePieces parse id none taken).ending = .ok (some code) ↔
      (∀ line ∈ framesOf taken, ∃ response, parse line = some response) ∧
        CompletedBy parse id code (framesOf taken) := by
  induction taken with
  | nil =>
    change Except.ok none = .ok (some code) ↔ _
    simp [CompletedBy, framesOf]
  | cons piece taken ih =>
    rw [takePieces, Run.ending_bind_ok]
    cases piece with
    | text byte =>
      rw [framesOf_text, ← ih]
      constructor
      · intro h
        obtain ⟨next, hnext, hrest⟩ := h
        rw [takePiece_text] at hnext
        cases hnext
        exact hrest
      · intro h
        exact ⟨none, rfl, h⟩
    | frame line =>
      rw [framesOf_frame, List.forall_mem_cons]
      change (∃ next, (respond parse id none line).ending = .ok next ∧ _) ↔ _
      simp only [respond_ok_iff]
      constructor
      · intro h
        obtain ⟨next, hnext, hrest⟩ := h
        rcases hnext with ⟨-, code', hcode', hcompletes⟩ | ⟨hsame, hparsed, hother, -⟩
        · rw [hcode'] at hrest
          obtain ⟨hcode, hlines⟩ := takePieces_some_ok_iff.mp hrest
          cases hcode
          have hparsed : ∃ response, parse line = some response := by
            obtain ⟨response, hparse, -⟩ := hcompletes
            exact ⟨response, hparse⟩
          refine ⟨⟨hparsed, fun other hmem => (hlines other hmem).1⟩, [], line, _, rfl, hcompletes,
            ?_, fun other hmem => (hlines other hmem).2⟩
          intro other hmem hcompletes'
          exact (hlines other hmem).2 hcompletes'.matches
        · rw [hsame] at hrest
          obtain ⟨hall, before, last, after, hframes, hcompletes, hothers, hquiet⟩ := ih.mp hrest
          refine ⟨⟨hparsed, hall⟩, line :: before, last, after, by rw [hframes]; rfl, hcompletes,
            ?_, hquiet⟩
          rw [List.cons_append, List.forall_mem_cons]
          exact ⟨hother, hothers⟩
      · intro h
        obtain ⟨⟨hparsed, hall⟩, before, last, after, hframes, hcompletes, hothers, hquiet⟩ := h
        cases before with
        | nil =>
          obtain ⟨hline, hafter⟩ := List.cons.inj hframes
          rw [← hline] at hcompletes
          refine ⟨some code, Or.inl ⟨trivial, code, rfl, hcompletes⟩,
            takePieces_some_ok_iff.mpr ⟨rfl, ?_⟩⟩
          intro other hmem
          exact ⟨hall other hmem, hquiet other (hafter ▸ hmem)⟩
        | cons first before =>
          obtain ⟨hline, hrest⟩ := List.cons.inj hframes
          rw [List.cons_append, List.forall_mem_cons] at hothers
          refine ⟨none, Or.inr ⟨rfl, hparsed, hline ▸ hothers.1, ?_⟩,
            ih.mpr ⟨hall, before, last, after, hrest, hcompletes, hothers.2, hquiet⟩⟩
          intro hsome
          cases hsome

/-- The terminal shows the pieces in order, up to the frame with an error if there is one. -/
theorem takePieces_effects (completion : Option ℤ) (taken : List Piece) :
    ∃ n, (takePieces parse id completion taken).effects =
        (taken.take n).flatMap (shown parse id) ∧
      ∀ completion', (takePieces parse id completion taken).ending = .ok completion' →
        n = taken.length := by
  induction taken generalizing completion with
  | nil => exact ⟨0, rfl, fun _ _ => rfl⟩
  | cons piece taken ih =>
    have heffects : (takePiece parse id completion piece).effects =
        match (takePiece parse id completion piece).ending with
        | .ok _ => shown parse id piece
        | .error _ => [] := by
      cases piece with
      | text byte => rfl
      | frame line => exact respond_effects
    rw [takePieces]
    cases hfirst : (takePiece parse id completion piece).ending with
    | error error =>
      rw [hfirst] at heffects
      rw [Run.bind_of_error hfirst, heffects]
      refine ⟨0, rfl, ?_⟩
      intro completion' hok
      cases hok
    | ok next =>
      rw [hfirst] at heffects
      rw [Run.bind_of_ok hfirst, heffects]
      obtain ⟨n, hshown, hall⟩ := ih next
      refine ⟨n + 1, ?_, ?_⟩
      · rw [hshown]
        rfl
      · intro completion' hok
        rw [List.length_cons, hall completion' hok]

/-- `finish` returns a code outside a frame, once there is a completion. -/
theorem finish_waiting_ok_iff {rest : List UInt8} :
    ((Decoder.waiting rest completion).finish).ending = .ok code ↔
      ¬ framePrefix <+: rest ∧ completion = some code := by
  by_cases hmarker : framePrefix <+: rest
  · obtain ⟨after, hafter⟩ := hmarker
    rw [← hafter, waiting_of_open]
    constructor
    · intro h
      cases h
    · intro h
      exact absurd (List.prefix_append _ _) h.1
  · rw [waiting_of_text hmarker]
    cases completion with
    | none =>
      constructor
      · intro h
        cases h
      · intro h
        cases h.2
    | some found =>
      change Except.ok found = .ok code ↔ _
      simp [hmarker]

theorem finish_waiting_effects (rest : List UInt8) (completion : Option ℤ) :
    ((Decoder.waiting rest completion).finish).effects =
      if framePrefix <+: rest then [] else rest := by
  by_cases hmarker : framePrefix <+: rest
  · rw [if_pos hmarker]
    obtain ⟨after, hafter⟩ := hmarker
    rw [← hafter, waiting_of_open]
    rfl
  · rw [if_neg hmarker, waiting_of_text hmarker]
    cases completion with
    | none => exact List.append_nil rest
    | some found => exact List.append_nil rest

/-- What the decoder makes of a stream in any chunks. The bytes are text, frames and what
is left over: the beginning of a marker or of a frame. The chunks make no difference. The
terminal shows the text and the output of the request in order, up to an error. The exit
code is returned exactly when every frame is a response, the stream does not end inside
a frame and the frames complete the request with the code; nothing else sets it. -/
theorem stream_exact (parse : ResponseParser) (id : String) (chunks : List (List UInt8)) :
    Decoder.pushAll parse id {} chunks = Decoder.push parse id {} chunks.flatten ∧
      ∃ taken rest, pieces.drain chunks.flatten = (taken, .waiting rest) ∧
        chunks.flatten = taken.flatMap Piece.bytes ++ rest ∧
        (∀ code, (stream parse id chunks).ending = .ok code ↔
          (∀ line ∈ framesOf taken, ∃ response, parse line = some response) ∧
            ¬ framePrefix <+: rest ∧ CompletedBy parse id code (framesOf taken)) ∧
        (∃ n, (Decoder.pushAll parse id {} chunks).effects =
            (taken.take n).flatMap (shown parse id) ∧
          ∀ d, (Decoder.pushAll parse id {} chunks).ending = .ok d →
            n = taken.length ∧ (stream parse id chunks).effects =
              taken.flatMap (shown parse id) ++ if framePrefix <+: rest then [] else rest) ∧
        ∀ d code, (Decoder.pushAll parse id {} chunks).ending = .ok d →
          d.completion = some code → CompletedBy parse id code (framesOf taken) := by
  obtain ⟨taken, rest, hdrain⟩ := exists_drain chunks.flatten
  have hpush := pushAll_eq parse id hdrain
  have hstream : stream parse id chunks = takePieces parse id none taken >>= fun completion =>
      (Decoder.waiting rest completion).finish := by
    unfold stream
    rw [hpush, Run.bind_assoc_run]
    simp only [Run.pure_bind_run]
  have hending : ∀ d, (Decoder.pushAll parse id {} chunks).ending = .ok d →
      ∃ completion, (takePieces parse id none taken).ending = .ok completion ∧
        d = Decoder.waiting rest completion := by
    intro d hd
    rw [hpush, Run.ending_bind_ok] at hd
    obtain ⟨completion, hok, hpure⟩ := hd
    cases hpure
    exact ⟨completion, hok, rfl⟩
  refine ⟨pushAll_eq_push parse id chunks, taken, rest, hdrain, ?_, ?_, ?_, ?_⟩
  · have hwaiting : (pieces.drain chunks.flatten).2 = .waiting rest := by
      rw [hdrain]
    have hbytes := bytes_of_drain hwaiting
    rw [hdrain] at hbytes
    exact hbytes
  · intro code
    rw [hstream, Run.ending_bind_ok]
    constructor
    · intro h
      obtain ⟨completion, hok, hfinish⟩ := h
      obtain ⟨hclosed, hcode⟩ := finish_waiting_ok_iff.mp hfinish
      rw [hcode] at hok
      obtain ⟨hparsed, hcompleted⟩ := takePieces_none_ok_iff.mp hok
      exact ⟨hparsed, hclosed, hcompleted⟩
    · intro h
      obtain ⟨hparsed, hclosed, hcompleted⟩ := h
      exact ⟨some code, takePieces_none_ok_iff.mpr ⟨hparsed, hcompleted⟩,
        finish_waiting_ok_iff.mpr ⟨hclosed, rfl⟩⟩
  · obtain ⟨n, hshown, hall⟩ := @takePieces_effects parse id none taken
    have heffects : (Decoder.pushAll parse id {} chunks).effects =
        (takePieces parse id none taken).effects := by
      rw [hpush]
      cases hfirst : (takePieces parse id none taken).ending with
      | error error => rw [Run.bind_of_error hfirst]
      | ok completion =>
        rw [Run.bind_of_ok hfirst]
        exact List.append_nil _
    refine ⟨n, heffects.trans hshown, ?_⟩
    intro d hd
    obtain ⟨completion, hok, -⟩ := hending d hd
    have hn := hall completion hok
    refine ⟨hn, ?_⟩
    rw [hstream, Run.bind_of_ok hok, finish_waiting_effects, hshown, hn, List.take_length]
  · intro d code hd hcode
    obtain ⟨completion, hok, heq⟩ := hending d hd
    rw [heq, completion_waiting] at hcode
    rw [hcode] at hok
    exact (takePieces_none_ok_iff.mp hok).2

end Outcome

end Sower.Deploy
