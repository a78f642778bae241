import Mathlib.Data.List.Basic

/-!
# Patterns with groups, and replacing what they match

A backtracking matcher goes through the ways in which a pattern can match at the beginning
of a text, the preferred one first: the left alternative before the right one, and as many
letters of a class as there are before fewer. A text is cut into the matches of a scanner,
from left to right and none inside another one, and the letters between them.
-/

universe u v

namespace Captures

variable {α : Type u}

section Patterns

/-- A pattern over classes of letters. Groups are numbered. -/
inductive Regex (α : Type u) where
  | letter (p : α → Bool)
  /-- Letters of a class, as many as possible. -/
  | many (p : α → Bool)
  | seq (first second : Regex α)
  | alt (left right : Regex α)
  | group (n : ℕ) (body : Regex α)

/-- A match: what its groups have captured, and the whole of it. -/
@[ext]
structure Hit (α : Type u) where
  groups : List (ℕ × List α)
  taken : List α
  deriving DecidableEq

/-- One match behind another. -/
def Hit.append (first second : Hit α) : Hit α :=
  ⟨first.groups ++ second.groups, first.taken ++ second.taken⟩

/-- What a group has captured, if it took part in the match. -/
def Hit.group (hit : Hit α) (n : ℕ) : Option (List α) :=
  (hit.groups.find? (·.1 == n)).map (·.2)

/-- The ways to take letters of a class from the beginning of a text, the longest first. -/
def spans (p : α → Bool) : List α → List (List α × List α)
  | [] => [([], [])]
  | a :: text =>
    if p a then (spans p text).map (fun s => (a :: s.1, s.2)) ++ [([], a :: text)]
    else [([], a :: text)]

/-- The matches at the beginning of a text with what is left behind them, the preferred
one first. -/
def Regex.runs : Regex α → List α → List (Hit α × List α)
  | letter _, [] => []
  | letter p, a :: text => if p a then [(⟨[], [a]⟩, text)] else []
  | many p, text => (spans p text).map fun s => (⟨[], s.1⟩, s.2)
  | seq first second, text =>
    (first.runs text).flatMap fun r => (second.runs r.2).map fun r' => (r.1.append r'.1, r'.2)
  | alt left right, text => left.runs text ++ right.runs text
  | group n body, text =>
    (body.runs text).map fun r => (⟨r.1.groups ++ [(n, r.1.taken)], r.1.taken⟩, r.2)

/-- The match at the beginning of a text. -/
def Regex.first (r : Regex α) (text : List α) : Option (Hit α × List α) := (r.runs text).head?

/-- The pattern does not match the empty text. -/
def Regex.proper : Regex α → Bool
  | letter _ => true
  | many _ => false
  | seq first second => first.proper || second.proper
  | alt left right => left.proper && right.proper
  | group _ body => body.proper

variable {p q : α → Bool} {text : List α} {first second r : Regex α}

theorem spans_eq (p : α → Bool) (text : List α) :
    ∃ shorter, spans p text = (text.takeWhile p, text.dropWhile p) :: shorter ∧
      ∀ s ∈ shorter, ∃ a rest, s.2 = a :: rest ∧ p a = true := by
  induction text with
  | nil => exact ⟨[], rfl, fun s hs => by cases hs⟩
  | cons a text ih =>
    obtain ⟨shorter, hspans, hshorter⟩ := ih
    rw [spans]
    by_cases ha : p a = true
    · rw [if_pos ha, hspans, List.takeWhile_cons_of_pos ha, List.dropWhile_cons_of_pos ha]
      refine ⟨shorter.map (fun s => (a :: s.1, s.2)) ++ [([], a :: text)], rfl, ?_⟩
      intro s hs
      rcases List.mem_append.mp hs with hmem | hmem
      · obtain ⟨s', hs', rfl⟩ := List.mem_map.mp hmem
        exact hshorter s' hs'
      · rw [List.mem_singleton.mp hmem]
        exact ⟨a, text, rfl, ha⟩
    · rw [if_neg ha, List.takeWhile_cons_of_neg ha, List.dropWhile_cons_of_neg ha]
      exact ⟨[], rfl, fun s hs => by cases hs⟩

/-- A match and what is left behind it are the text. -/
theorem taken_append {hit : Hit α} {rest : List α} (h : (hit, rest) ∈ r.runs text) :
    hit.taken ++ rest = text := by
  induction r generalizing text hit rest with
  | letter p =>
    cases text with
    | nil => cases h
    | cons a text =>
      rw [Regex.runs] at h
      split at h
      · cases List.mem_singleton.mp h
        rfl
      · cases h
  | many p =>
    obtain ⟨s, hs, heq⟩ := List.mem_map.mp h
    cases heq
    clear h
    induction text generalizing s with
    | nil =>
      cases List.mem_singleton.mp hs
      rfl
    | cons a text ih =>
      rw [spans] at hs
      split at hs
      · rcases List.mem_append.mp hs with hmem | hmem
        · obtain ⟨s', hs', rfl⟩ := List.mem_map.mp hmem
          exact congrArg (a :: ·) (ih s' hs')
        · cases List.mem_singleton.mp hmem
          rfl
      · cases List.mem_singleton.mp hs
        rfl
  | seq first second ihf ihs =>
    obtain ⟨r, hr, hmem⟩ := List.mem_flatMap.mp h
    obtain ⟨r', hr', heq⟩ := List.mem_map.mp hmem
    cases heq
    rw [Hit.append, List.append_assoc, ihs hr', ihf hr]
  | alt left right ihl ihr =>
    rcases List.mem_append.mp h with hmem | hmem
    · exact ihl hmem
    · exact ihr hmem
  | group n body ih =>
    obtain ⟨⟨inner, behind⟩, hr, heq⟩ := List.mem_map.mp h
    cases heq
    have hinner : inner.taken ++ behind = text := ih hr
    exact hinner

theorem ne_nil_of_proper {hit : Hit α} {rest : List α} (hproper : r.proper = true)
    (h : (hit, rest) ∈ r.runs text) : hit.taken ≠ [] := by
  induction r generalizing text hit rest with
  | letter p =>
    cases text with
    | nil => cases h
    | cons a text =>
      rw [Regex.runs] at h
      split at h
      · cases List.mem_singleton.mp h
        exact List.cons_ne_nil _ _
      · cases h
  | many p => cases hproper
  | seq first second ihf ihs =>
    obtain ⟨r, hr, hmem⟩ := List.mem_flatMap.mp h
    obtain ⟨r', hr', heq⟩ := List.mem_map.mp hmem
    cases heq
    intro hnil
    obtain ⟨hfirst, hsecond⟩ := List.append_eq_nil_iff.mp hnil
    rcases (Bool.or_eq_true _ _).mp hproper with hproper | hproper
    · exact ihf hproper hr hfirst
    · exact ihs hproper hr' hsecond
  | alt left right ihl ihr =>
    have hboth := (Bool.and_eq_true _ _).mp hproper
    rcases List.mem_append.mp h with hmem | hmem
    · exact ihl hboth.1 hmem
    · exact ihr hboth.2 hmem
  | group n body ih =>
    obtain ⟨⟨inner, behind⟩, hr, heq⟩ := List.mem_map.mp h
    cases heq
    have hinner : inner.taken ≠ [] := ih hproper hr
    exact hinner

theorem first_alt (left right : Regex α) (text : List α) :
    (Regex.alt left right).first text = (left.first text).or (right.first text) :=
  List.head?_append

theorem first_group (n : ℕ) (body : Regex α) (text : List α) :
    (Regex.group n body).first text =
      (body.first text).map fun r => (⟨r.1.groups ++ [(n, r.1.taken)], r.1.taken⟩, r.2) :=
  List.head?_map

theorem first_many (p : α → Bool) (text : List α) :
    (Regex.many p).first text = some (⟨[], text.takeWhile p⟩, text.dropWhile p) := by
  obtain ⟨shorter, hspans, -⟩ := spans_eq p text
  rw [Regex.first, Regex.runs, hspans]
  rfl

/-- A pattern that begins with a letter. -/
theorem first_letter_seq (a : α) (text : List α) (second : Regex α) :
    (Regex.seq (.letter p) second).first (a :: text) =
      if p a then (second.first text).map fun r => (Hit.append ⟨[], [a]⟩ r.1, r.2) else none := by
  rw [Regex.first, Regex.runs, Regex.runs]
  split
  · rw [List.flatMap_singleton, List.head?_map]
    rfl
  · rfl

theorem first_letter_seq_nil (second : Regex α) :
    (Regex.seq (.letter p) second).first [] = none := rfl

/-- A first part that cannot be cut shorter is matched as if nothing came behind it. -/
theorem first_seq_of_greedy (h : ∀ r ∈ (first.runs text).tail, second.runs r.2 = []) :
    (Regex.seq first second).first text =
      (first.first text).bind fun r => (second.first r.2).map fun r' =>
        (r.1.append r'.1, r'.2) := by
  rw [Regex.first, Regex.runs, Regex.first]
  rcases hruns : first.runs text with _ | ⟨r, shorter⟩
  · rfl
  · rw [hruns, List.tail_cons] at h
    have hnone : shorter.flatMap (fun r =>
        (second.runs r.2).map fun r' => (r.1.append r'.1, r'.2)) = [] := by
      rw [List.flatMap_eq_nil_iff]
      intro r hr
      rw [h r hr]
      rfl
    rw [List.flatMap_cons, hnone, List.append_nil, List.head?_map]
    rfl

/-- A proper pattern takes something away from the text. -/
theorem length_lt_of_first {hit : Hit α} {rest : List α} (hproper : r.proper = true)
    (h : r.first text = some (hit, rest)) : rest.length < text.length := by
  have hmem : (hit, rest) ∈ r.runs text := List.mem_of_mem_head? h
  have htaken := List.length_pos_iff.mpr (ne_nil_of_proper hproper hmem)
  have hlength := congrArg List.length (taken_append hmem)
  rw [List.length_append] at hlength
  omega

end Patterns

section Scanning

variable {τ : Type v}

/-- What is recognized at the beginning of a text, with the text behind it. -/
structure Scanner (α : Type u) (τ : Type v) where
  next : List α → Option (τ × List α)
  shorter : ∀ text token rest, next text = some (token, rest) → rest.length < text.length

/-- The matches of a pattern. -/
def Regex.scanner (r : Regex α) (hproper : r.proper = true) : Scanner α (Hit α) where
  next := r.first
  shorter _ _ _ h := length_lt_of_first hproper h

/-- The first pieces of a text, up to a number. -/
def Scanner.piecesUpTo (s : Scanner α τ) : ℕ → List α → List (α ⊕ τ)
  | 0, _ => []
  | _ + 1, [] => []
  | n + 1, a :: text =>
    match s.next (a :: text) with
    | some (token, rest) => .inr token :: s.piecesUpTo n rest
    | none => .inl a :: s.piecesUpTo n text

/-- The text cut into tokens and the letters between them. -/
def Scanner.pieces (s : Scanner α τ) (text : List α) : List (α ⊕ τ) :=
  s.piecesUpTo text.length text

variable {s : Scanner α τ} {text rest : List α} {token : τ} {a : α}

/-- A text has no more pieces than letters. -/
theorem piecesUpTo_congr {n m : ℕ} (hn : text.length ≤ n) (hm : text.length ≤ m) :
    s.piecesUpTo n text = s.piecesUpTo m text := by
  induction n generalizing m text with
  | zero =>
    have hnil : text = [] := List.length_eq_zero_iff.mp (Nat.le_zero.mp hn)
    subst hnil
    cases m <;> rfl
  | succ n ih =>
    cases text with
    | nil => cases m <;> rfl
    | cons a text =>
      cases m with
      | zero => cases hm
      | succ m =>
        have hn' : text.length ≤ n := Nat.le_of_succ_le_succ hn
        have hm' : text.length ≤ m := Nat.le_of_succ_le_succ hm
        unfold Scanner.piecesUpTo
        rcases hnext : s.next (a :: text) with _ | ⟨token, rest⟩
        · exact congrArg (.inl a :: ·) (ih hn' hm')
        · have hrest : rest.length ≤ text.length := Nat.le_of_lt_succ (s.shorter _ _ _ hnext)
          exact congrArg (.inr token :: ·) (ih (Nat.le_trans hrest hn') (Nat.le_trans hrest hm'))

theorem pieces_nil : s.pieces [] = [] := rfl

theorem pieces_token (h : s.next text = some (token, rest)) :
    s.pieces text = .inr token :: s.pieces rest := by
  have hshorter := s.shorter _ _ _ h
  cases text with
  | nil => cases hshorter
  | cons a text =>
    unfold Scanner.pieces
    rw [List.length_cons, Scanner.piecesUpTo, h]
    exact congrArg (.inr token :: ·) (piecesUpTo_congr (Nat.le_of_lt_succ hshorter) (Nat.le_refl _))

theorem pieces_letter (h : s.next (a :: text) = none) :
    s.pieces (a :: text) = .inl a :: s.pieces text := by
  unfold Scanner.pieces
  rw [List.length_cons, Scanner.piecesUpTo, h]

variable {ε : Type v}

/-- Put something in the place of each token, from left to right. -/
def substitute (f : τ → Except ε (List α)) : List (α ⊕ τ) → Except ε (List α)
  | [] => .ok []
  | .inl a :: pieces => do
    let behind ← substitute f pieces
    .ok (a :: behind)
  | .inr token :: pieces => do
    let value ← f token
    let behind ← substitute f pieces
    .ok (value ++ behind)

/-- A text with something else in the place of its tokens. -/
def Scanner.replace (s : Scanner α τ) (f : τ → Except ε (List α)) (text : List α) :
    Except ε (List α) := substitute f (s.pieces text)

/-- A failure comes from a token. -/
theorem substitute_error {f : τ → Except ε (List α)} {pieces : List (α ⊕ τ)} {e : ε}
    (h : substitute f pieces = .error e) : ∃ token, .inr token ∈ pieces ∧ f token = .error e := by
  induction pieces with
  | nil => cases h
  | cons piece pieces ih =>
    cases piece with
    | inl a =>
      cases hbehind : substitute f pieces with
      | ok behind =>
        rw [substitute, hbehind] at h
        cases h
      | error e' =>
        rw [substitute, hbehind] at h
        cases h
        obtain ⟨token, hmem, hfails⟩ := ih hbehind
        exact ⟨token, List.mem_cons_of_mem _ hmem, hfails⟩
    | inr token =>
      cases hvalue : f token with
      | error e' =>
        rw [substitute, hvalue] at h
        cases h
        exact ⟨token, List.mem_cons_self, hvalue⟩
      | ok value =>
        cases hbehind : substitute f pieces with
        | ok behind =>
          rw [substitute, hvalue] at h
          simp only [hbehind] at h
          cases h
        | error e' =>
          rw [substitute, hvalue] at h
          simp only [hbehind] at h
          cases h
          obtain ⟨other, hmem, hfails⟩ := ih hbehind
          exact ⟨other, List.mem_cons_of_mem _ hmem, hfails⟩

end Scanning

end Captures
