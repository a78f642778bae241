import Mathlib.Data.List.Basic

/-!
# Words of a shell command

How a POSIX shell splits a simple command into words. Only what it takes literally is
split: a text with an operator, an expansion, a comment or an assignment outside quotes
has no words here, nor has one that ends within a quotation.
-/

namespace ShellWords

section Scanner

/-- How the next character is quoted. -/
inductive Quoting where
  | bare
  | backslash
  | single
  | double
  | doubleBackslash
  deriving DecidableEq, Repr

/-- The words so far and the one under way. -/
structure Scan where
  quoting : Quoting := .bare
  current : Option (List Char) := none
  words : List (List Char) := []
  deriving DecidableEq, Repr

/-- The character that begins a command substitution in the old form. -/
def backquote : Char := Char.ofNat 96

/-- Operators and characters of expansions. -/
def active : List Char :=
  ['\n', '|', '&', ';', '<', '>', '(', ')', '$', backquote, '*', '?', '[']

/-- Characters with a meaning at the beginning of a word. -/
def activeFirst : List Char := ['#', '~']

/-- Words with a meaning in the place of a command. -/
def reserved : List String :=
  ["!", "\x7b", "\x7d", "case", "do", "done", "elif", "else", "esac", "fi", "for", "if", "in",
    "then", "until", "while"]

/-- Outside quotes the shell does not take the character literally. -/
def Scan.interprets (scan : Scan) (c : Char) : Bool :=
  active.contains c || (activeFirst.contains c && scan.current.isNone) ||
    (c == '=' && scan.words.isEmpty)

/-- The character belongs to the word under way. -/
def Scan.push (scan : Scan) (c : Char) : Scan :=
  { scan with current := some (scan.current.getD [] ++ [c]) }

/-- A quotation begins, and a word with it if there is none. -/
def Scan.enter (scan : Scan) (quoting : Quoting) : Scan :=
  { scan with quoting := quoting, current := some (scan.current.getD []) }

/-- The word under way has ended. -/
def Scan.delimit (scan : Scan) : Scan :=
  { scan with current := none, words := scan.words ++ scan.current.toList }

/-- One character; none when the shell does not take it literally. -/
def Scan.step (scan : Scan) (c : Char) : Option Scan :=
  match scan.quoting with
  | .bare =>
    if c = ' ' ∨ c = '\t' then some scan.delimit
    else if c = '\'' then some (scan.enter .single)
    else if c = '"' then some (scan.enter .double)
    else if c = '\\' then some { scan with quoting := .backslash }
    else if scan.interprets c then none
    else some (scan.push c)
  | .backslash =>
    -- A newline behind a backslash continues the line.
    if c = '\n' then some { scan with quoting := .bare }
    else some { scan.push c with quoting := .bare }
  | .single =>
    if c = '\'' then some { scan with quoting := .bare } else some (scan.push c)
  | .double =>
    if c = '"' then some { scan with quoting := .bare }
    else if c = '\\' then some { scan with quoting := .doubleBackslash }
    else if c = '$' ∨ c = backquote then none
    else some (scan.push c)
  | .doubleBackslash =>
    if c = '\n' then some { scan with quoting := .double }
    else if ['$', backquote, '"', '\\'].contains c then
      some { scan.push c with quoting := .double }
    else some { (scan.push '\\').push c with quoting := .double }

/-- All the characters. -/
def Scan.run (scan : Scan) (text : List Char) : Option Scan := text.foldlM Scan.step scan

/-- The words when the text ends. -/
def Scan.finish (scan : Scan) : Option (List String) :=
  let words := scan.delimit.words.map String.ofList
  if scan.quoting = .bare ∧ words.head?.all (!reserved.contains ·) then some words else none

/-- The words of a command, if the shell takes all of it literally. -/
def splitWords (command : String) : Option (List String) :=
  (Scan.run {} command.toList).bind Scan.finish

end Scanner

section Laws

variable {scan : Scan} {text : List Char}

theorem run_append (scan : Scan) (first second : List Char) :
    scan.run (first ++ second) = (scan.run first).bind fun scan => scan.run second := by
  unfold Scan.run
  rw [List.foldlM_append]
  rfl

theorem run_cons (scan : Scan) (c : Char) (rest : List Char) :
    scan.run (c :: rest) = (scan.step c).bind fun scan => scan.run rest := by
  unfold Scan.run
  rw [List.foldlM_cons]
  rfl

@[simp] theorem run_nil (scan : Scan) : scan.run [] = some scan := rfl

/-- Between single quotes everything but a quote is literal. -/
theorem step_single {c : Char} (hquoting : scan.quoting = .single) (hc : c ≠ '\'') :
    scan.step c = some (scan.push c) := by
  unfold Scan.step
  rw [hquoting]
  exact if_neg hc

/-- A quote within single quotes has to leave them, and is a quote behind a backslash. -/
theorem run_quote (hquoting : scan.quoting = .single) :
    scan.run ['\'', '\\', '\'', '\''] = some (scan.push '\'') := by
  cases scan with
  | mk quoting current words =>
    change quoting = .single at hquoting
    subst hquoting
    cases current with
    | none => rfl
    | some word => rfl

end Laws

end ShellWords
