import Mathlib.Data.List.DropRight
import Mathlib.Data.PNat.Defs
import Sower.Lib.Incremental

/-!
# Two transports to the activator

A client reads the activator's responses from a socket, which hands it packets, or from a
port, which hands it whatever has arrived. The socket gives up at a line that is no
response; the port passes over it. How the bytes arrive makes no difference to either, and
where every line is a response both show the same output and end with the same result.
-/

namespace Sower.Activator.Transports

open Incremental

section Responses

/-- A decoded JSON value; a float is a mantissa times a power of two. -/
inductive Json where
  | null
  | bool (value : Bool)
  | int (value : ℤ)
  | float (mantissa exponent : ℤ)
  | string (text : String)
  | array (values : List Json)
  | object (fields : List (String × Json))

/-- `Jason.decode`, which is not part of the repository. -/
abbrev Decoder (ε : Type) := List UInt8 → Except ε Json

/-- Why a line is no response. -/
inductive ParseError (ε : Type) where
  | missingRequiredFields
  | jsonDecodeFailed (reason : ε)

structure Response where
  id : Json
  type : Json
  data : Json
  exitCode : Json

def newline : UInt8 := 10

/-- The value under a key, `nil` when there is none. -/
def field (key : String) (fields : List (String × Json)) : Json :=
  (fields.lookup key).getD .null

/-- Matching on a string. -/
def Json.is (text : String) : Json → Bool
  | .string other => other == text
  | _ => false

/-- Matching on the integer zero, which no float is. -/
def Json.isInteger0 : Json → Bool
  | .int value => value == 0
  | _ => false

/-- `== 0`, which holds of a float as well. -/
def Json.equals0 : Json → Bool
  | .int value => value == 0
  | .float mantissa _ => mantissa == 0
  | _ => false

variable {ε : Type}

/-- A response without the newlines behind it. -/
def parseResponse (decode : Decoder ε) (line : List UInt8) : Except (ParseError ε) Response :=
  match decode (line.rdropWhile (· == newline)) with
  | .ok (.object fields) =>
    match fields.lookup "id", fields.lookup "type" with
    | some id, some type => .ok ⟨id, type, field "data" fields, field "exit_code" fields⟩
    | _, _ => .error .missingRequiredFields
  | .ok _ => .error .missingRequiredFields
  | .error reason => .error (.jsonDecodeFailed reason)

end Responses

section Results

/-- How a request ends. -/
inductive Result (ε : Type) where
  | ok (output : List Json)
  | failed (code : Json) (output : List Json)
  | parseFailed (reason : ParseError ε)
  | timeout
  | connectionClosed
  | recvFailed (reason : String)
  | portExited (status : ℕ) (output : List Json)

/-- What the callback got, in order, and the result. -/
structure Activation (ε : Type) where
  delivered : List Json
  result : Result ε

/-- After output that has been delivered. -/
def Activation.after {ε : Type} (delivered : List Json) (rest : Activation ε) : Activation ε :=
  { rest with delivered := delivered ++ rest.delivered }

end Results

variable {ε : Type} (decode : Decoder ε) (requestId : String)

section SocketMode

/-- Why `:gen_tcp.recv` has no further packet. -/
inductive RecvError where
  | timeout
  | closed
  | other (reason : String)

/-- Length of the packet at the front of the input: a line with its newline, or as much of a
longer line as the buffer holds. -/
def packetLength (size : ℕ+) (input : List UInt8) : Option ℕ :=
  if newline ∈ input ∧ input.idxOf newline < size then some (input.idxOf newline + 1)
  else if (size : ℕ) ≤ input.length then some size
  else none

def nextPacket (size : ℕ+) (input : List UInt8) : Next UInt8 (List UInt8) Empty :=
  match packetLength size input with
  | some length => .item (input.take length) (input.drop length)
  | none => .more

variable {size : ℕ+} {input later rest : List UInt8} {length : ℕ}

theorem packetLength_pos (h : packetLength size input = some length) :
    0 < length ∧ length ≤ input.length := by
  have hsize := size.pos
  unfold packetLength at h
  split at h
  · rename_i hline
    have hshort := List.idxOf_lt_length_iff.mpr hline.1
    cases h
    omega
  · split at h
    · rename_i hfull
      cases h
      exact ⟨hsize, hfull⟩
    · cases h

theorem packetLength_append (h : packetLength size input = some length) (later : List UInt8) :
    packetLength size (input ++ later) = some length := by
  unfold packetLength at h ⊢
  split at h
  · rename_i hline
    have hindex : (input ++ later).idxOf newline = input.idxOf newline :=
      List.idxOf_append_of_mem hline.1
    rw [hindex, if_pos ⟨List.mem_append_left _ hline.1, hline.2⟩]
    exact h
  · rename_i hnoline
    split at h
    · rename_i hfull
      have hlong : ¬ (newline ∈ input ++ later ∧ (input ++ later).idxOf newline < size) := by
        rintro ⟨-, hshort⟩
        by_cases hmem : newline ∈ input
        · rw [List.idxOf_append_of_mem hmem] at hshort
          exact hnoline ⟨hmem, hshort⟩
        · rw [List.idxOf_append_of_notMem hmem] at hshort
          omega
      have hlength : (size : ℕ) ≤ (input ++ later).length := by
        rw [List.length_append]
        omega
      rw [if_neg hlong, if_pos hlength]
      exact h
    · cases h

/-- The packets of a socket in line mode. -/
def packets (size : ℕ+) : Reader UInt8 (List UInt8) Empty where
  next := nextPacket size
  shrinks := by
    intro input packet rest h
    unfold nextPacket at h
    split at h
    · rename_i length hlength
      have hpos := packetLength_pos hlength
      cases h
      rw [List.length_drop]
      omega
    · cases h
  item_append := by
    intro input packet rest h later
    unfold nextPacket at h ⊢
    split at h
    · rename_i length hlength
      have hpos := packetLength_pos hlength
      cases h
      rw [packetLength_append hlength later]
      simp only [List.take_append_of_le_length hpos.2, List.drop_append_of_le_length hpos.2]
    · cases h
  error_append := fun {_ reason} _ => reason.elim

/-- One response to the request; what follows is given the new accumulator. -/
def handleResponse (response : Response) (acc : List Json)
    (receiveLoop : List Json → Activation ε) : Activation ε :=
  if response.type.is "output" then
    (receiveLoop (response.data :: acc)).after [response.data]
  else if response.type.is "error" then
    (receiveLoop (response.data :: acc)).after [response.data]
  else if response.type.is "complete" then
    let output := acc.reverse
    ⟨[], if response.exitCode.isInteger0 then .ok output else .failed response.exitCode output⟩
  else receiveLoop acc

def receiveLoop (ending : RecvError) : List (List UInt8) → List Json → Activation ε
  | [], _ =>
    match ending with
    | .timeout => ⟨[], .timeout⟩
    | .closed => ⟨[], .connectionClosed⟩
    | .other reason => ⟨[], .recvFailed reason⟩
  | line :: lines, acc =>
    match parseResponse decode line with
    | .ok response =>
      if response.id.is requestId then
        handleResponse response acc (receiveLoop ending lines)
      else receiveLoop ending lines acc
    | .error reason => ⟨[], .parseFailed reason⟩

/-- `receive_responses` on a socket with a buffer of that size: the reads as they arrive, and
why no further one does. -/
def socketMode (size : ℕ+) (reads : List (List UInt8)) (ending : RecvError) : Activation ε :=
  receiveLoop decode requestId ending ((packets size).feed reads).1 []

end SocketMode

section PortMode

/-- Why the port sends no further data. -/
inductive PortEnding where
  | exitStatus (status : ℕ)
  | timeout

/-- What lines of the port lead to. -/
inductive Processed (ε : Type) where
  | complete (delivered : List Json) (result : Result ε)
  | continue (delivered : List Json) (acc : List Json)

def Processed.after (delivered : List Json) : Processed ε → Processed ε
  | .complete further result => .complete (delivered ++ further) result
  | .continue further acc => .continue (delivered ++ further) acc

def splitLines (binary : List UInt8) : List (List UInt8) × List UInt8 :=
  let parts := binary.splitOn newline
  (parts.dropLast, parts.getLast?.getD [])

def processPortLine (line : List UInt8) (acc : List Json) : Processed ε :=
  if line = [] then .continue [] acc
  else
    match parseResponse decode line with
    | .ok response =>
      if response.id.is requestId && response.type.is "output" then
        .continue [response.data] (response.data :: acc)
      else if response.id.is requestId && response.type.is "error" then
        .continue [response.data] (response.data :: acc)
      else if response.id.is requestId && response.type.is "complete" then
        let output := acc.reverse
        .complete [] (if response.exitCode.equals0 then .ok output
          else .failed response.exitCode output)
      else .continue [] acc
    | .error _ => .continue [] acc

def processPortLines : List (List UInt8) → List Json → Processed ε
  | [], acc => .continue [] acc
  | line :: lines, acc =>
    match processPortLine decode requestId line acc with
    | .complete delivered result => .complete delivered result
    | .continue delivered acc => (processPortLines lines acc).after delivered

def portReceiveLoop (ending : PortEnding) :
    List (List UInt8) → List UInt8 → List Json → Activation ε
  | [], _, acc =>
    match ending with
    | .exitStatus status => ⟨[], .portExited status acc.reverse⟩
    | .timeout => ⟨[], .timeout⟩
  | data :: reads, buffer, acc =>
    let (lines, rest) := splitLines (buffer ++ data)
    match processPortLines decode requestId lines acc with
    | .complete delivered result => ⟨delivered, result⟩
    | .continue delivered acc => (portReceiveLoop ending reads rest acc).after delivered

/-- `run_via_port`: the reads as they arrive, and why no further one does. -/
def portMode (reads : List (List UInt8)) (ending : PortEnding) : Activation ε :=
  portReceiveLoop decode requestId ending reads [] []

end PortMode

section Lines

/-- Lines, each with its newline. -/
def unlines (lines : List (List UInt8)) : List UInt8 := lines.flatMap (· ++ [newline])

/-- The bytes begin with these lines. -/
structure Sent (bytes : List UInt8) (lines : List (List UInt8)) (later : List UInt8) : Prop where
  bytes_eq : bytes = unlines lines ++ later
  free : ∀ line ∈ lines, newline ∉ line

variable {lines further : List (List UInt8)} {line rest later bytes : List UInt8}

theorem unlines_cons (line : List UInt8) (lines : List (List UInt8)) (later : List UInt8) :
    unlines (line :: lines) ++ later = line ++ newline :: (unlines lines ++ later) := by
  simp only [unlines, List.flatMap_cons, List.append_assoc, List.cons_append, List.nil_append]

theorem unlines_append (lines further : List (List UInt8)) :
    unlines (lines ++ further) = unlines lines ++ unlines further :=
  List.flatMap_append

/-- Bytes are lines and the beginning of a line. -/
theorem exists_lines (bytes : List UInt8) :
    ∃ lines rest, Sent bytes lines rest ∧ newline ∉ rest := by
  induction bytes with
  | nil => exact ⟨[], [], ⟨rfl, fun _ hmem => absurd hmem List.not_mem_nil⟩, List.not_mem_nil⟩
  | cons byte bytes ih =>
    obtain ⟨lines, rest, hsent, hrest⟩ := ih
    have hbytes := hsent.bytes_eq
    by_cases hbyte : byte = newline
    · have hfree : ∀ line ∈ [] :: lines, newline ∉ line := by
        intro line hmem
        rcases List.mem_cons.mp hmem with heq | hmem
        · rw [heq]
          exact List.not_mem_nil
        · exact hsent.free line hmem
      have heq : byte :: bytes = unlines ([] :: lines) ++ rest := by
        rw [unlines_cons, hbyte, hbytes, List.nil_append]
      exact ⟨[] :: lines, rest, ⟨heq, hfree⟩, hrest⟩
    · have hne : newline ≠ byte := fun heq => hbyte heq.symm
      cases lines with
      | nil =>
        have hfree : newline ∉ byte :: rest := List.not_mem_cons_of_ne_of_not_mem hne hrest
        have heq : byte :: bytes = unlines [] ++ byte :: rest := by
          rw [hbytes]
          rfl
        exact ⟨[], byte :: rest, ⟨heq, fun _ hmem => absurd hmem List.not_mem_nil⟩, hfree⟩
      | cons line lines =>
        have hline : newline ∉ byte :: line :=
          List.not_mem_cons_of_ne_of_not_mem hne (hsent.free line List.mem_cons_self)
        have hfree : ∀ l ∈ (byte :: line) :: lines, newline ∉ l := by
          intro l hmem
          rcases List.mem_cons.mp hmem with heq | hmem
          · rw [heq]
            exact hline
          · exact hsent.free l (List.mem_cons_of_mem _ hmem)
        have heq : byte :: bytes = unlines ((byte :: line) :: lines) ++ rest := by
          rw [unlines_cons, List.cons_append, ← unlines_cons, ← hbytes]
        exact ⟨(byte :: line) :: lines, rest, ⟨heq, hfree⟩, hrest⟩

theorem Sent.tail (h : Sent bytes (line :: lines) later) : Sent (unlines lines ++ later) lines later :=
  ⟨rfl, fun l hmem => h.free l (List.mem_cons_of_mem _ hmem)⟩

/-- The port finds exactly the lines. -/
theorem splitLines_of_sent (h : Sent bytes lines rest) (hrest : newline ∉ rest) :
    splitLines bytes = (lines, rest) := by
  have hparts : bytes.splitOn newline = lines ++ [rest] := by
    induction lines generalizing bytes with
    | nil =>
      rw [h.bytes_eq]
      exact List.splitOn_eq_singleton hrest
    | cons line lines ih =>
      have hline := h.free line List.mem_cons_self
      rw [h.bytes_eq, unlines_cons, List.splitOn_append_cons_self_of_not_mem hline, ih h.tail]
      rfl
  simp only [splitLines, hparts, List.dropLast_concat, List.getLast?_concat, Option.getD_some]

/-- The socket hands over a line that fits its buffer. -/
theorem packets_line {size : ℕ+} (hline : newline ∉ line) (hfits : line.length < size)
    (later : List UInt8) :
    (packets size).next (line ++ newline :: later) = .item (line ++ [newline]) later := by
  have hindex : (line ++ newline :: later).idxOf newline = line.length := by
    rw [List.idxOf_append_of_notMem hline, List.idxOf_cons_self, Nat.add_zero]
  have hlength : packetLength size (line ++ newline :: later) = some (line.length + 1) := by
    unfold packetLength
    rw [hindex, if_pos ⟨List.mem_append_right _ List.mem_cons_self, hfits⟩]
  have hsplit : line ++ newline :: later = (line ++ [newline]) ++ later := by
    rw [List.append_assoc]
    rfl
  have htake : (line ++ newline :: later).take (line.length + 1) = line ++ [newline] := by
    rw [hsplit]
    exact List.take_left' List.length_append
  have hdrop : (line ++ newline :: later).drop (line.length + 1) = later := by
    rw [hsplit]
    exact List.drop_left' List.length_append
  change nextPacket size (line ++ newline :: later) = _
  rw [nextPacket, hlength]
  exact congrArg₂ Next.item htake hdrop

/-- The packets of lines that fit the buffer are the lines. -/
theorem drain_packets {size : ℕ+} (h : Sent bytes lines later)
    (hfits : ∀ line ∈ lines, line.length < size) :
    ((packets size).drain bytes).1 =
      lines.map (· ++ [newline]) ++ ((packets size).drain later).1 := by
  induction lines generalizing bytes with
  | nil =>
    rw [h.bytes_eq]
    rfl
  | cons line lines ih =>
    have hnext := packets_line (h.free line List.mem_cons_self) (hfits line List.mem_cons_self)
      (unlines lines ++ later)
    have hrest := ih h.tail fun l hmem => hfits l (List.mem_cons_of_mem _ hmem)
    rw [h.bytes_eq, unlines_cons, drain_of_item hnext, hrest]
    rfl

end Lines

section Meaning

/-- What a line shows: data of the request's output or of an error of it. -/
def shownLine (line : List UInt8) : Option Json :=
  match parseResponse decode line with
  | .ok response =>
    if response.id.is requestId && (response.type.is "output" || response.type.is "error") then
      some response.data
    else none
  | .error _ => none

def shown (lines : List (List UInt8)) : List Json := lines.filterMap (shownLine decode requestId)

/-- The exit code with which a line completes the request. -/
def completion (line : List UInt8) : Option Json :=
  match parseResponse decode line with
  | .ok response =>
    if response.id.is requestId && response.type.is "complete" then some response.exitCode
    else none
  | .error _ => none

def WellFormed (line : List UInt8) : Prop := ∃ response, parseResponse decode line = .ok response

/-- How port mode ends with an exit code. -/
def portResult (code : Json) (output : List Json) : Result ε :=
  if code.equals0 then .ok output else .failed code output

/-- How socket mode ends with an exit code. -/
def socketResult (code : Json) (output : List Json) : Result ε :=
  if code.isInteger0 then .ok output else .failed code output

variable {decode requestId} {line : List UInt8} {lines earlier further : List (List UInt8)}
  {acc : List Json} {code : Json}

theorem Json.eq_of_is {json : Json} {text : String} (h : json.is text = true) :
    json = .string text := by
  cases json with
  | string other =>
    have heq : other = text := beq_iff_eq.mp h
    rw [heq]
  | null | bool | int | float | array | object => cases h

theorem shown_cons (line : List UInt8) (lines : List (List UInt8)) :
    shown decode requestId (line :: lines) =
      (shownLine decode requestId line).toList ++ shown decode requestId lines := by
  unfold shown
  cases hline : shownLine decode requestId line with
  | none => exact List.filterMap_cons_none hline
  | some data => exact List.filterMap_cons_some hline

@[simp] theorem Activation.after_nil (rest : Activation ε) : rest.after [] = rest := rfl

@[simp] theorem Activation.after_after (first second : List Json) (rest : Activation ε) :
    (rest.after second).after first = rest.after (first ++ second) := by
  simp only [Activation.after, List.append_assoc]

@[simp] theorem Processed.after_nil (processed : Processed ε) : processed.after [] = processed := by
  cases processed with
  | complete delivered result => rfl
  | «continue» delivered acc => rfl

@[simp] theorem Processed.after_after (first second : List Json) (processed : Processed ε) :
    (processed.after second).after first = processed.after (first ++ second) := by
  cases processed with
  | complete delivered result => simp only [Processed.after, List.append_assoc]
  | «continue» delivered acc => simp only [Processed.after, List.append_assoc]

section Port

/-- The port passes over a line that does not complete the request. -/
theorem processPortLine_passing (hblank : ∃ reason, decode [] = .error reason)
    (h : completion decode requestId line = none) (acc : List Json) :
    processPortLine decode requestId line acc =
      .continue (shownLine decode requestId line).toList
        ((shownLine decode requestId line).toList ++ acc) := by
  obtain ⟨reason, hreason⟩ := hblank
  unfold completion at h
  unfold processPortLine shownLine
  split
  · rename_i hempty
    have hparse : parseResponse decode line = .error (.jsonDecodeFailed reason) := by
      rw [hempty]
      unfold parseResponse
      rw [List.rdropWhile_nil, hreason]
    rw [hparse]
    rfl
  · cases hparse : parseResponse decode line with
    | error reason => rfl
    | ok response =>
      rw [hparse] at h
      simp only [ite_eq_right_iff, reduceCtorEq, imp_false] at h
      simp only [h]
      by_cases hid : response.id.is requestId = true
      · by_cases hout : response.type.is "output" = true
        · simp [hid, hout]
        · by_cases herr : response.type.is "error" = true
          · simp [hid, hout, herr]
          · simp [hid, hout, herr]
      · simp [hid]

/-- The response that completes a request is of no other type. -/
theorem completed_response (h : completion decode requestId line = some code) :
    ∃ response, parseResponse decode line = .ok response ∧ response.id.is requestId = true ∧
      response.type.is "complete" = true ∧ response.type.is "output" = false ∧
      response.type.is "error" = false ∧ response.exitCode = code := by
  unfold completion at h
  cases hparse : parseResponse decode line with
  | error reason =>
    rw [hparse] at h
    cases h
  | ok response =>
    rw [hparse] at h
    simp only [Option.ite_none_right_eq_some, Bool.and_eq_true, Option.some.injEq] at h
    obtain ⟨⟨hid, htype⟩, hcode⟩ := h
    have heq := Json.eq_of_is htype
    refine ⟨response, rfl, hid, htype, ?_, ?_, hcode⟩
    · rw [heq]
      rfl
    · rw [heq]
      rfl

theorem processPortLine_complete (hblank : ∃ reason, decode [] = .error reason)
    (h : completion decode requestId line = some code) :
    processPortLine decode requestId line acc = .complete [] (portResult code acc.reverse) := by
  obtain ⟨reason, hreason⟩ := hblank
  obtain ⟨response, hparse, hid, htype, houtput, herror, hcode⟩ := completed_response h
  unfold processPortLine portResult
  split
  · rename_i hempty
    rw [hempty] at hparse
    unfold parseResponse at hparse
    rw [List.rdropWhile_nil, hreason] at hparse
    cases hparse
  · simp only [hparse, hid, htype, houtput, herror, hcode, Bool.and_false, Bool.and_true,
      Bool.false_eq_true, if_false, if_true]

theorem processPortLines_append (lines further : List (List UInt8)) (acc : List Json) :
    processPortLines decode requestId (lines ++ further) acc =
      match processPortLines decode requestId lines acc with
      | .complete delivered result => .complete delivered result
      | .continue delivered acc =>
        (processPortLines decode requestId further acc).after delivered := by
  induction lines generalizing acc with
  | nil => exact (Processed.after_nil _).symm
  | cons line lines ih =>
    rw [List.cons_append, processPortLines, processPortLines]
    cases processPortLine decode requestId line acc with
    | complete delivered result => rfl
    | «continue» delivered acc =>
      simp only [ih acc]
      cases processPortLines decode requestId lines acc with
      | complete further result => rfl
      | «continue» further acc => exact Processed.after_after delivered _ _

/-- Lines that do not complete the request deliver what they show. -/
theorem processPortLines_passing (hblank : ∃ reason, decode [] = .error reason)
    (h : ∀ line ∈ lines, completion decode requestId line = none) (acc : List Json) :
    processPortLines decode requestId lines acc =
      .continue (shown decode requestId lines) ((shown decode requestId lines).reverse ++ acc) := by
  induction lines generalizing acc with
  | nil => rfl
  | cons line lines ih =>
    have hline := processPortLine_passing hblank (h line List.mem_cons_self) acc
    have hlines := ih fun l hmem => h l (List.mem_cons_of_mem _ hmem)
    rw [processPortLines, hline]
    simp only [hlines, Processed.after, shown_cons]
    cases shownLine decode requestId line with
    | none => rfl
    | some data => simp

/-- What the port has after its last read. -/
def portEnd (decode : Decoder ε) (requestId : String) (ending : PortEnding) :
    Processed ε → Activation ε
  | .complete delivered result => ⟨delivered, result⟩
  | .continue delivered acc =>
    (portReceiveLoop decode requestId ending [] [] acc).after delivered

theorem portEnd_after (ending : PortEnding) (delivered : List Json) (processed : Processed ε) :
    portEnd decode requestId ending (processed.after delivered) =
      (portEnd decode requestId ending processed).after delivered := by
  cases processed with
  | complete further result => rfl
  | «continue» further acc => exact (Activation.after_after _ _ _).symm

/-- The reads of a port amount to the lines of all they bring. -/
theorem portReceiveLoop_eq (ending : PortEnding) (reads : List (List UInt8)) (buffer : List UInt8)
    (acc : List Json) (hbuffer : newline ∉ buffer) :
    portReceiveLoop decode requestId ending reads buffer acc =
      portEnd decode requestId ending
        (processPortLines decode requestId (splitLines (buffer ++ reads.flatten)).1 acc) := by
  induction reads generalizing buffer acc with
  | nil =>
    have hsent : Sent (buffer ++ [].flatten) [] buffer :=
      ⟨List.append_nil buffer, fun _ hmem => absurd hmem List.not_mem_nil⟩
    rw [splitLines_of_sent hsent hbuffer]
    cases ending with
    | exitStatus status => rfl
    | timeout => rfl
  | cons data reads ih =>
    obtain ⟨lines, rest, hsent, hrest⟩ := exists_lines (buffer ++ data)
    obtain ⟨further, left, hfurther, hleft⟩ := exists_lines (rest ++ reads.flatten)
    have hall : Sent (buffer ++ (data :: reads).flatten) (lines ++ further) left := by
      constructor
      · rw [List.flatten_cons, ← List.append_assoc, hsent.bytes_eq, List.append_assoc,
          hfurther.bytes_eq, unlines_append, List.append_assoc]
      · intro line hmem
        rcases List.mem_append.mp hmem with hmem | hmem
        · exact hsent.free line hmem
        · exact hfurther.free line hmem
    have hread := splitLines_of_sent hsent hrest
    rw [splitLines_of_sent hall hleft, processPortLines_append, portReceiveLoop]
    simp only [hread]
    cases processPortLines decode requestId lines acc with
    | complete delivered result => rfl
    | «continue» delivered acc =>
      simp only [ih rest acc hrest, splitLines_of_sent hfurther hleft, portEnd_after]

theorem portMode_eq (reads : List (List UInt8)) (ending : PortEnding) :
    portMode decode requestId reads ending =
      portEnd decode requestId ending
        (processPortLines decode requestId (splitLines reads.flatten).1 []) :=
  portReceiveLoop_eq ending reads [] [] List.not_mem_nil

/-- Port mode delivers what the lines before the completing one show, whatever else they are. -/
theorem portMode_of_sent (hblank : ∃ reason, decode [] = .error reason)
    {reads : List (List UInt8)} {final later : List UInt8}
    (hsent : Sent reads.flatten (earlier ++ [final]) later)
    (hearlier : ∀ line ∈ earlier, completion decode requestId line = none)
    (hfinal : completion decode requestId final = some code) (ending : PortEnding) :
    portMode decode requestId reads ending =
      ⟨shown decode requestId earlier, portResult code (shown decode requestId earlier)⟩ := by
  obtain ⟨further, left, hfurther, hleft⟩ := exists_lines later
  have hall : Sent reads.flatten (earlier ++ final :: further) left := by
    constructor
    · rw [hsent.bytes_eq, hfurther.bytes_eq, ← List.append_assoc, ← unlines_append]
      simp only [List.append_assoc, List.singleton_append]
    · intro line hmem
      simp only [List.mem_append, List.mem_cons] at hmem
      rcases hmem with hmem | heq | hmem
      · exact hsent.free line (List.mem_append_left _ hmem)
      · rw [heq]
        exact hsent.free final (List.mem_append_right _ List.mem_cons_self)
      · exact hfurther.free line hmem
  have hpass := processPortLines_passing hblank hearlier []
  rw [portMode_eq, splitLines_of_sent hall hleft, processPortLines_append, hpass]
  simp only [processPortLines, processPortLine_complete hblank hfinal]
  simp only [Processed.after, portEnd, List.append_nil, List.reverse_reverse]

end Port

section Socket

theorem parseResponse_newline (line : List UInt8) :
    parseResponse decode (line ++ [newline]) = parseResponse decode line := by
  unfold parseResponse
  rw [List.rdropWhile_concat_pos _ _ _ (by rfl)]

/-- The socket delivers what a response shows that does not complete the request. -/
theorem receiveLoop_passing (ending : RecvError) (packets : List (List UInt8))
    (hline : WellFormed decode line) (h : completion decode requestId line = none) :
    receiveLoop decode requestId ending ((line ++ [newline]) :: packets) acc =
      (receiveLoop decode requestId ending packets
        ((shownLine decode requestId line).toList ++ acc)).after
          (shownLine decode requestId line).toList := by
  obtain ⟨response, hparse⟩ := hline
  unfold completion at h
  rw [hparse] at h
  simp only [ite_eq_right_iff, reduceCtorEq, imp_false] at h
  rw [receiveLoop, parseResponse_newline, shownLine, hparse]
  by_cases hid : response.id.is requestId = true
  · have htype : response.type.is "complete" = false := by
      simpa [hid] using h
    by_cases hout : response.type.is "output" = true
    · simp [hid, hout, handleResponse]
    · by_cases herr : response.type.is "error" = true
      · simp [hid, hout, herr, handleResponse]
      · simp [hid, hout, herr, htype, handleResponse]
  · simp [hid]

theorem receiveLoop_complete (ending : RecvError) (packets : List (List UInt8))
    (h : completion decode requestId line = some code) :
    receiveLoop decode requestId ending ((line ++ [newline]) :: packets) acc =
      ⟨[], socketResult code acc.reverse⟩ := by
  obtain ⟨response, hparse, hid, htype, houtput, herror, hcode⟩ := completed_response h
  rw [receiveLoop, parseResponse_newline, hparse]
  simp only [handleResponse, socketResult, hid, htype, houtput, herror, hcode,
    Bool.false_eq_true, if_false, if_true]

/-- Responses that do not complete the request deliver what they show. -/
theorem receiveLoop_earlier (ending : RecvError) (packets : List (List UInt8))
    (h : ∀ line ∈ lines, WellFormed decode line ∧ completion decode requestId line = none)
    (acc : List Json) :
    receiveLoop decode requestId ending (lines.map (· ++ [newline]) ++ packets) acc =
      (receiveLoop decode requestId ending packets
        ((shown decode requestId lines).reverse ++ acc)).after (shown decode requestId lines) := by
  induction lines generalizing acc with
  | nil => rfl
  | cons line lines ih =>
    have hline := h line List.mem_cons_self
    have hlines := ih fun l hmem => h l (List.mem_cons_of_mem _ hmem)
    rw [List.map_cons, List.cons_append, receiveLoop_passing _ _ hline.1 hline.2, hlines,
      Activation.after_after, shown_cons]
    cases shownLine decode requestId line with
    | none => rfl
    | some data => simp

theorem socketMode_eq {size : ℕ+} {reads : List (List UInt8)} {later : List UInt8}
    (hsent : Sent reads.flatten lines later) (hfits : ∀ line ∈ lines, line.length < size)
    (ending : RecvError) :
    socketMode decode requestId size reads ending =
      receiveLoop decode requestId ending
        (lines.map (· ++ [newline]) ++ ((packets size).drain later).1) [] := by
  rw [socketMode, feed_eq_drain, drain_packets hsent hfits]

theorem socketMode_of_sent {size : ℕ+} {reads : List (List UInt8)} {final later : List UInt8}
    (hsent : Sent reads.flatten (earlier ++ [final]) later)
    (hfits : ∀ line ∈ earlier ++ [final], line.length < size)
    (hearlier : ∀ line ∈ earlier, WellFormed decode line ∧ completion decode requestId line = none)
    (hfinal : completion decode requestId final = some code) (ending : RecvError) :
    socketMode decode requestId size reads ending =
      ⟨shown decode requestId earlier, socketResult code (shown decode requestId earlier)⟩ := by
  rw [socketMode_eq hsent hfits, List.map_append, List.append_assoc,
    receiveLoop_earlier _ _ hearlier]
  simp only [List.map_cons, List.map_nil, List.cons_append, List.nil_append, List.append_nil]
  rw [receiveLoop_complete _ _ hfinal]
  simp only [Activation.after, List.append_nil, List.reverse_reverse]

/-- The socket stops at the first line that is no response. -/
theorem socketMode_of_malformed {size : ℕ+} {reads : List (List UInt8)} {final later : List UInt8}
    {reason : ParseError ε} (hsent : Sent reads.flatten (earlier ++ [final]) later)
    (hfits : ∀ line ∈ earlier ++ [final], line.length < size)
    (hearlier : ∀ line ∈ earlier, WellFormed decode line ∧ completion decode requestId line = none)
    (hfinal : parseResponse decode final = .error reason) (ending : RecvError) :
    socketMode decode requestId size reads ending =
      ⟨shown decode requestId earlier, .parseFailed reason⟩ := by
  rw [socketMode_eq hsent hfits, List.map_append, List.append_assoc,
    receiveLoop_earlier _ _ hearlier]
  simp only [List.map_cons, List.map_nil, List.cons_append, List.nil_append, List.append_nil]
  rw [receiveLoop, parseResponse_newline, hfinal]
  simp only [Activation.after, List.append_nil]

end Socket

end Meaning

section Samples

/-- A line of text. -/
def sampleLine (text : String) : List UInt8 := text.toList.map fun c => c.val.toUInt8

def outputLine : List UInt8 :=
  sampleLine "\x7b\"id\":\"act\",\"type\":\"output\",\"data\":\"hi\"\x7d"

def completeLine : List UInt8 :=
  sampleLine "\x7b\"id\":\"act\",\"type\":\"complete\",\"exit_code\":0\x7d"

/-- A decoder of these lines; an error is a position. -/
def decodeLines : Decoder ℕ := fun line =>
  if line = outputLine then
    .ok (.object [("id", .string "act"), ("type", .string "output"), ("data", .string "hi")])
  else if line = completeLine then
    .ok (.object [("id", .string "act"), ("type", .string "complete"), ("exit_code", .int 0)])
  else .error 0

theorem parse_outputLine : parseResponse decodeLines outputLine =
    .ok ⟨.string "act", .string "output", .string "hi", .null⟩ := rfl

theorem parse_completeLine : parseResponse decodeLines completeLine =
    .ok ⟨.string "act", .string "complete", .null, .int 0⟩ := rfl

end Samples

/-- How the bytes are split makes no difference to either mode. Port mode delivers what the
lines before the first complete response show, socket mode stops at one that is no response,
and where all are responses both show the same and end the same. -/
theorem transports_agree (decode : Decoder ε) (hblank : ∃ reason, decode [] = .error reason)
    (requestId : String) (size : ℕ+) :
    (∀ reads reads', reads.flatten = reads'.flatten →
      (∀ ending, portMode decode requestId reads ending = portMode decode requestId reads' ending) ∧
      ∀ ending,
        socketMode decode requestId size reads ending =
          socketMode decode requestId size reads' ending) ∧
    (∀ reads earlier final later code, Sent reads.flatten (earlier ++ [final]) later →
      (∀ line ∈ earlier, completion decode requestId line = none) →
      completion decode requestId final = some code → ∀ ending,
        portMode decode requestId reads ending =
          ⟨shown decode requestId earlier,
            if code.equals0 then .ok (shown decode requestId earlier)
            else .failed code (shown decode requestId earlier)⟩) ∧
    (∀ reads earlier malformed later reason, Sent reads.flatten (earlier ++ [malformed]) later →
      (∀ line ∈ earlier ++ [malformed], line.length < (size : ℕ)) →
      (∀ line ∈ earlier,
        WellFormed decode line ∧ completion decode requestId line = none) →
      parseResponse decode malformed = .error reason → ∀ ending,
        socketMode decode requestId size reads ending =
          ⟨shown decode requestId earlier, .parseFailed reason⟩) ∧
    ∀ reads reads' earlier final later code, reads.flatten = reads'.flatten →
      Sent reads.flatten (earlier ++ [final]) later →
      (∀ line ∈ earlier ++ [final], line.length < (size : ℕ)) →
      (∀ line ∈ earlier,
        WellFormed decode line ∧ completion decode requestId line = none) →
      completion decode requestId final = some code →
      (∀ exponent, code ≠ .float 0 exponent) → ∀ ending ending',
        socketMode decode requestId size reads ending =
          portMode decode requestId reads' ending' := by
  refine ⟨?_, ?_, ?_, ?_⟩
  · intro reads reads' hreads
    constructor
    · intro ending
      rw [portMode_eq, portMode_eq, hreads]
    · intro ending
      rw [socketMode, socketMode, feed_eq_drain, feed_eq_drain, hreads]
  · intro reads earlier final later code hsent hearlier hfinal ending
    exact portMode_of_sent hblank hsent hearlier hfinal ending
  · intro reads earlier malformed later reason hsent hfits hearlier hmalformed ending
    exact socketMode_of_malformed hsent hfits hearlier hmalformed ending
  · intro reads reads' earlier final later code hreads hsent hfits hearlier hfinal hcode ending ending'
    have hpassing := fun line hmem => (hearlier line hmem).2
    have hsocket := socketMode_of_sent hsent hfits hearlier hfinal ending
    have hport := portMode_of_sent hblank (hreads ▸ hsent) hpassing hfinal ending'
    have hsame : code.isInteger0 = code.equals0 := by
      cases code with
      | float mantissa exponent =>
        have hne : mantissa ≠ 0 := fun heq => hcode exponent (heq ▸ rfl)
        exact (beq_eq_false_iff_ne.mpr hne).symm
      | null | bool | int | string | array | object => rfl
    rw [hsocket, hport, socketResult, portResult, hsame]

/-- Output and completion in three reads of the socket and in one of the port. -/
theorem transports_agree_split :
    socketMode decodeLines "act" 1460
        [outputLine, [newline] ++ completeLine.take 5, completeLine.drop 5 ++ [newline]] .closed =
      portMode decodeLines "act" [outputLine ++ [newline] ++ completeLine ++ [newline]]
        .timeout := by
  have hparse : parseResponse decodeLines outputLine = .ok _ := parse_outputLine
  have hcompletion : completion decodeLines "act" completeLine = some (.int 0) := by
    rw [completion, parse_completeLine]
    rfl
  have hpassing : completion decodeLines "act" outputLine = none := by
    rw [completion, parse_outputLine]
    rfl
  have hagree := (transports_agree decodeLines ⟨0, rfl⟩ "act" 1460).2.2.2
    [outputLine, [newline] ++ completeLine.take 5, completeLine.drop 5 ++ [newline]]
    [outputLine ++ [newline] ++ completeLine ++ [newline]]
    [outputLine] completeLine [] (.int 0) (by decide) ⟨by decide, by decide⟩ (by decide)
  refine hagree ?_ hcompletion (fun _ heq => nomatch heq) .closed .timeout
  intro line hmem
  rw [List.mem_singleton.mp hmem]
  exact ⟨⟨_, hparse⟩, hpassing⟩

/-- A blank line before the complete response ends socket mode, not port mode. -/
theorem blankLine_disagrees :
    completion decodeLines "act" completeLine = some (.int 0) ∧
      portMode decodeLines "act" [[newline] ++ completeLine ++ [newline]] .timeout =
        ⟨[], .ok []⟩ ∧
      socketMode decodeLines "act" 1460 [[newline] ++ completeLine ++ [newline]] .closed =
        ⟨[], .parseFailed (.jsonDecodeFailed 0)⟩ ∧
      portMode decodeLines "act" [[newline] ++ completeLine ++ [newline]] .timeout ≠
        socketMode decodeLines "act" 1460 [[newline] ++ completeLine ++ [newline]] .closed := by
  have hcompletion : completion decodeLines "act" completeLine = some (.int 0) := by
    rw [completion, parse_completeLine]
    rfl
  have hblank : completion decodeLines "act" [] = none := rfl
  have hport : portMode decodeLines "act" [[newline] ++ completeLine ++ [newline]] .timeout =
      ⟨[], .ok []⟩ := by
    have hsent : Sent [[newline] ++ completeLine ++ [newline]].flatten ([[]] ++ [completeLine]) [] :=
      ⟨by decide, by decide⟩
    refine portMode_of_sent ⟨0, rfl⟩ hsent ?_ hcompletion .timeout
    intro line hmem
    rw [List.mem_singleton.mp hmem]
    exact hblank
  have hsocket : socketMode decodeLines "act" 1460 [[newline] ++ completeLine ++ [newline]]
      .closed = ⟨[], .parseFailed (.jsonDecodeFailed 0)⟩ := by
    have hsent : Sent [[newline] ++ completeLine ++ [newline]].flatten ([] ++ [[]])
        (completeLine ++ [newline]) := ⟨by decide, by decide⟩
    exact socketMode_of_malformed hsent (by decide) (fun _ hmem => absurd hmem List.not_mem_nil)
      rfl .closed
  refine ⟨hcompletion, hport, hsocket, ?_⟩
  rw [hport, hsocket]
  exact fun heq => nomatch heq

end Sower.Activator.Transports
