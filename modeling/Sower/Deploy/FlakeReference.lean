import Sower.Lib.Splitting

/-!
# Flake references of a deployment

What a deployment builds and which garden it is for are both read off one flake
reference. Its fragment is cut into the components of an attribute path; dots within
quotes belong to a component.
-/

namespace Sower.Deploy

open Splitting

section Components

/-- The characters of a Rust string. -/
abbrev Text := List Char

/-- What the closure of `attribute_components` remembers. -/
structure Scanner where
  quoted : Bool := false
  escaped : Bool := false
  deriving DecidableEq, Repr

/-- One character, and whether it separates two components. -/
def Scanner.step (s : Scanner) (character : Char) : Scanner × Bool :=
  if s.escaped then ({ s with escaped := false }, false)
  else if character = '\\' ∧ s.quoted then ({ s with escaped := true }, false)
  else if character = '"' then ({ s with quoted := !s.quoted }, false)
  else if character = '.' ∧ ¬ s.quoted then (s, true)
  else (s, false)

/-- `attribute_components`. -/
def attributeComponents (attr : Text) : List Text := pieces Scanner.step {} attr

/-- `strip_prefix` of one character. -/
def stripPrefix (c : Char) : Text → Option Text
  | [] => none
  | d :: text => if d = c then some text else none

/-- `strip_suffix` of one character. -/
def stripSuffix (c : Char) (text : Text) : Option Text :=
  if text.getLast? = some c then some text.dropLast else none

/-- `unquote_component`. -/
def unquoteComponent (component : Text) : Text :=
  ((stripPrefix '"' component).bind (stripSuffix '"')).getD component

/-- Namespaces of canonical jobs. -/
def namespaces : List Text := ["nixos".toList, "home".toList, "seed".toList]

/-- The namespace and the name behind a slash, before either is looked at. A component
that is quoted has its closing quote at the end of the name. -/
def jobParts (component name : Text) : Option (Text × Text) :=
  match stripPrefix '"' component with
  | some space =>
    (stripSuffix '"' name).bind fun name => if '"' ∈ name then none else some (space, name)
  | none => some (component, name)

/-- `canonical_job`. -/
def canonicalJob (attr : Text) : Option (Text × Text) :=
  (splitOnce '/' attr).bind fun (front, name) =>
    (jobParts (lastPiece Scanner.step {} front) name).bind fun (space, name) =>
      if name ≠ [] ∧ space ∈ namespaces then some (space, name) else none

end Components

section References

/-- Why no garden or no installable was found. -/
inductive ReferenceError where
  | missingTo
  | noAttribute (reference : Text)
  | emptyAttribute (reference : Text)
  deriving DecidableEq, Repr

/-- The garden that an attribute names. -/
def gardenOf (attr : Text) : Option Text :=
  match canonicalJob attr with
  | some (_, name) => some name
  | none =>
    let (name, others) := split Scanner.step {} attr
    if name ≠ [] ∧ others = [] then some (unquoteComponent name) else none

/-- `resolve_garden`, for the arguments `--to` and the flake reference. -/
def resolveGarden (target flake : Option Text) : Except ReferenceError Text :=
  match target with
  | some garden => .ok garden
  | none =>
    match (flake.bind (splitOnce '#')).bind fun (_, attr) => gardenOf attr with
    | some garden => .ok garden
    | none => .error .missingTo

/-- The path at which a bare host's system is found. -/
def toplevel (attr : Text) : Text :=
  "nixosConfigurations.".toList ++ attr ++ ".config.system.build.toplevel".toList

/-- `flake_installable`: what is built, and the seed name it implies. -/
def flakeInstallable (reference : Text) : Except ReferenceError (Text × Option Text) :=
  match splitOnce '#' reference with
  | none => .error (.noAttribute reference)
  | some (flake, attr) =>
    if attr = [] then .error (.emptyAttribute reference)
    else
      match canonicalJob attr with
      | some (_, name) => .ok (reference, some name)
      | none =>
        match split Scanner.step {} attr with
        | (first, second :: _) =>
          .ok (reference,
            if first = "nixosConfigurations".toList then some (unquoteComponent second) else none)
        | (_, []) => .ok (flake ++ '#' :: toplevel attr, some (unquoteComponent attr))

end References

section Agreement

variable {attr reference garden : Text}

/-- A garden is the name of a canonical job, or the whole attribute without its quotes. -/
theorem gardenOf_eq_some (h : gardenOf attr = some garden) : attr ≠ [] ∧
    ((∃ space, canonicalJob attr = some (space, garden)) ∨
      canonicalJob attr = none ∧ (split Scanner.step {} attr).2 = [] ∧
        unquoteComponent attr = garden) := by
  unfold gardenOf at h
  cases hjob : canonicalJob attr with
  | some job =>
    obtain ⟨space, name⟩ := job
    rw [hjob] at h
    cases h
    refine ⟨fun hnil => ?_, Or.inl ⟨space, rfl⟩⟩
    rw [hnil] at hjob
    cases hjob
  | none =>
    rw [hjob] at h
    dsimp only at h
    split at h
    · rename_i hsingle
      obtain ⟨hname, hothers⟩ := hsingle
      have hwhole : (split Scanner.step {} attr).1 = attr := eq_of_split_single hothers
      rw [hwhole] at hname h
      exact ⟨hname, Or.inr ⟨rfl, hothers, Option.some.inj h⟩⟩
    · cases h

/-- Whenever a reference names a garden, what it builds is of the same flake and implies a
seed of that name. -/
theorem flakeInstallable_of_resolveGarden
    (h : resolveGarden none (some reference) = .ok garden) :
    ∃ flake attr installable attr', splitOnce '#' reference = some (flake, attr) ∧
      flakeInstallable reference = .ok (installable, some garden) ∧
      splitOnce '#' installable = some (flake, attr') := by
  unfold resolveGarden at h
  dsimp only [Option.bind_some] at h
  cases hsplit : splitOnce '#' reference with
  | none =>
    rw [hsplit] at h
    cases h
  | some parts =>
    obtain ⟨flake, attr⟩ := parts
    rw [hsplit] at h
    dsimp only [Option.bind_some] at h
    cases hgarden : gardenOf attr with
    | none =>
      rw [hgarden] at h
      cases h
    | some name =>
      rw [hgarden] at h
      cases h
      obtain ⟨hne, hnames⟩ := gardenOf_eq_some hgarden
      unfold flakeInstallable
      rw [hsplit]
      dsimp only
      rw [if_neg hne]
      rcases hnames with ⟨space, hjob⟩ | ⟨hjob, hsingle, hname⟩
      · rw [hjob]
        exact ⟨flake, attr, reference, attr, rfl, rfl, hsplit⟩
      · have hflake : '#' ∉ flake := (splitOnce_spec hsplit).2
        have hwhole : split Scanner.step {} attr = (attr, []) :=
          Prod.ext (eq_of_split_single hsingle) hsingle
        rw [hjob, hwhole, hname]
        exact ⟨flake, attr, _, toplevel attr, rfl, rfl, splitOnce_append hflake _⟩

/-- A quoted host with a dot in its name. -/
theorem flakeInstallable_of_resolveGarden_quoted :
    ∃ flake attr installable attr',
      splitOnce '#' ".#\"my.host\"".toList = some (flake, attr) ∧
      flakeInstallable ".#\"my.host\"".toList = .ok (installable, some "my.host".toList) ∧
      splitOnce '#' installable = some (flake, attr') :=
  flakeInstallable_of_resolveGarden (by decide)

end Agreement

end Sower.Deploy
