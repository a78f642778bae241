import Sower.Deploy.FlakeReference
import Sower.Lib.Pattern

/-!
# Seed jobs among the builds

`sower build` decides by a regular expression which of the attributes that it has built
are seeds, `sower deploy` by scanning the attribute. An attribute path whose last
component is a canonical job is meant to be one for both.
-/

namespace Sower.Cli

open Splitting Pattern Sower.Deploy

section Paths

/-- A character within quotes. -/
inductive Item where
  | plain (c : Char) (unquoted : c ≠ '"' ∧ c ≠ '\\')
  | escaped (c : Char)

def Item.text : Item → Text
  | plain c _ => [c]
  | escaped c => ['\\', c]

def itemsText (items : List Item) : Text := items.flatMap Item.text

/-- A component of an attribute path that has an end of its own. -/
inductive Component where
  | bare (name : Text) (nonempty : name ≠ [])
      (plain : ∀ c ∈ name, c ≠ '.' ∧ c ≠ '"' ∧ c ≠ '/')
  | quoted (items : List Item)

def Component.text : Component → Text
  | bare name _ _ => name
  | quoted items => '"' :: (itemsText items ++ ['"'])

/-- The last component. One without quotes that has a slash takes all that follows: the
name of an unquoted job may have dots. -/
inductive Final where
  | component (c : Component)
  | unquoted (head rest : Text) (plain : ∀ c ∈ head, c ≠ '.' ∧ c ≠ '"' ∧ c ≠ '/')

def Final.text : Final → Text
  | component c => c.text
  | unquoted head rest _ => head ++ '/' :: rest

/-- The last component without its quotes. -/
def Final.content : Final → Text
  | component (.bare name _ _) => name
  | component (.quoted items) => itemsText items
  | unquoted head rest _ => head ++ '/' :: rest

/-- A Nix attribute path. -/
structure AttributePath where
  earlier : List Component
  last : Final

/-- Components that stand before a text, each with its dot. -/
def pathText (earlier : List Component) (rest : Text) : Text :=
  earlier.foldr (fun c rest => c.text ++ '.' :: rest) rest

def AttributePath.text (path : AttributePath) : Text := pathText path.earlier path.last.text

/-- The last component is a namespace of canonical jobs, a slash and a name. -/
def Final.IsJob (last : Final) : Prop :=
  ∃ space ∈ namespaces, ∃ name, name ≠ [] ∧ last.content = space ++ '/' :: name

end Paths

section Candidates

/-- `(?:[^"\\]|\\.)`. -/
def quotedCharacter : Pattern Char :=
  alt (letter fun c => c != '"' && c != '\\') (seq (exactly '\\') (letter (· != '\n')))

/-- `(?:[^/"]+|"(?:[^"\\]|\\.)*")\.`. -/
def pathComponent : Pattern Char :=
  seq (alt (plus (letter fun c => c != '/' && c != '"'))
    (seq (exactly '"') (seq (star quotedCharacter) (exactly '"')))) (exactly '.')

/-- `(?:nixos|home|seed)/.+|"(?:nixos|home|seed)/(?:[^"\\]|\\.)+"`. -/
def seedComponent : Pattern Char :=
  alt (seq (anyOf namespaces) (seq (exactly '/') (plus (letter (· != '\n')))))
    (seq (exactly '"') (seq (anyOf namespaces) (seq (exactly '/')
      (seq (plus quotedCharacter) (exactly '"')))))

/-- `$` stands at the end and before a newline that ends the text. -/
def lineEnd : Pattern Char := alt epsilon (exactly '\n')

/-- The expression of `seed_job?`, between `^` and `$`. -/
def seedJobPattern : Pattern Char := seq (star pathComponent) (seq seedComponent lineEnd)

/-- `seed_job?`; an attribute may be missing. -/
def seedJob : Option Text → Bool
  | some attr => seedJobPattern.accepts attr
  | none => false

end Candidates

section Properties

/-- No newline is escaped in the text between quotes. -/
def Unbroken (items : List Item) : Prop := Item.escaped '\n' ∉ items

def Component.Unbroken : Component → Prop
  | bare .. => True
  | quoted items => Cli.Unbroken items

/-- A quoted name has no escaped quote. -/
def Final.Quoteless : Final → Prop
  | component (.quoted items) => '"' ∉ itemsText items
  | _ => True

/-- A quoted name has no escaped newline, an unquoted one no newline but one at its end,
behind something else. -/
def Final.OneLine : Final → Prop
  | component (.bare ..) => True
  | component (.quoted items) => Unbroken items
  | unquoted _ rest _ => '\n' ∉ rest.dropLast ∧ rest ≠ ['\n']

/-- Nothing in the path is read differently by the two commands: no component before the
last one has a slash, nothing quoted has an escaped newline, and the name is plain. -/
def AttributePath.Plain (path : AttributePath) : Prop :=
  (∀ c ∈ path.earlier, '/' ∉ c.text ∧ c.Unbroken) ∧ path.last.Quoteless ∧ path.last.OneLine

/-- Both commands take the path for a canonical job when its last component is one, and
only then. -/
def AttributePath.RecognisedAlike (path : AttributePath) : Prop :=
  ((canonicalJob path.text).isSome = true ↔ seedJob (some path.text) = true) ∧
    (seedJob (some path.text) = true ↔ path.last.IsJob)

end Properties

end Sower.Cli
