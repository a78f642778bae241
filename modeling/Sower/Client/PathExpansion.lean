import Mathlib.Data.List.DropRight
import Sower.Lib.Captures

/-!
# Home directories and variables in configured paths

A configured path may begin with `~` and may refer to environment variables, as `$NAME` or
as `${NAME}`. Both spellings are recognized by one pattern with a group for each of them.
A group that has no part in a match is passed on as the empty text, and the name of the
variable is always taken from the first group, so that only the first spelling works.
-/

namespace Sower.Client

open Captures

section Source

/-- What a process knows of its environment. No variable has an empty name. -/
structure Environment where
  userHome : Option (List Char)
  getEnv : List Char → Option (List Char)
  unnamed : getEnv [] = none

/-- `[A-Za-z_]`. -/
def nameStart (c : Char) : Bool := c.isAlpha || c == '_'

/-- `[A-Za-z0-9_]`. -/
def namePart (c : Char) : Bool := c.isAlphanum || c == '_'

/-- `[A-Za-z_][A-Za-z0-9_]*`. -/
def namePattern : Regex Char := .seq (.letter nameStart) (.many namePart)

/-- `@env_var_pattern`. -/
def envVarPattern : Regex Char :=
  .seq (.letter (· == '$'))
    (.alt (.group 1 namePattern)
      (.seq (.letter (· == '{')) (.seq (.group 2 namePattern) (.letter (· == '}')))))

/-- A slash at the end is removed, unless it is the whole path. -/
def removeDirSep (path : List Char) : List Char :=
  if path = ['/'] then path else if path.getLast? = some '/' then path.dropLast else path

/-- `Path.relative` of a path other than the root. -/
def relative : List Char → List Char
  | '/' :: path => path
  | path => path

/-- `Path.join`. -/
def joinPath (left right : List Char) : List Char :=
  removeDirSep <|
    if right = ['/'] then removeDirSep left
    else if left = [] then relative right
    else if left = ['/'] then '/' :: relative right
    else removeDirSep left ++ '/' :: relative right

/-- `user_home!`. -/
def Environment.home (env : Environment) : Except String (List Char) :=
  match env.userHome with
  | none => .error "Cannot expand '~': user home directory is unavailable"
  | some home => .ok home

/-- `expand_home_token`. -/
def expandHomeToken (env : Environment) : List Char → Except String (List Char)
  | ['~'] => env.home
  | '~' :: '/' :: rest => do
    let home ← env.home
    .ok (joinPath home rest)
  | value => .ok value

/-- What `Regex.replace` passes on for a group: the empty text if it took no part. -/
def groupArgument (hit : Hit Char) (n : ℕ) : Option (List Char) := some ((hit.group n).getD [])

/-- `plain || wrapped`, which is `plain` unless that is `nil`. -/
def varName (hit : Hit Char) : List Char :=
  ((groupArgument hit 1).or (groupArgument hit 2)).getD []

/-- What `expand_env_tokens` puts in the place of a match. -/
def expandEnvToken (env : Environment) (settingName : String) (hit : Hit Char) :
    Except String (List Char) :=
  match env.getEnv (varName hit) with
  | none => .error ("Invalid path for " ++ settingName ++ ": missing environment variable " ++
      String.ofList (varName hit))
  | some value => .ok value

/-- `expand_env_tokens`. -/
def expandEnvTokens (env : Environment) (settingName : String) (value : List Char) :
    Except String (List Char) :=
  (envVarPattern.scanner rfl).replace (expandEnvToken env settingName) value

/-- `expand_path!`. -/
def expandPath (env : Environment) (settingName : String) (value : List Char) :
    Except String (List Char) := do
  let value ← expandHomeToken env value
  expandEnvTokens env settingName value

end Source

section Reading

/-- A part of a path. -/
inductive Part where
  | kept (c : Char)
  /-- `$NAME`. -/
  | plain (name : List Char)
  /-- `${NAME}`. -/
  | wrapped (name : List Char)
  deriving DecidableEq, Repr

/-- The text is the name of a variable. -/
def IsName (name : List Char) : Prop :=
  ∃ first rest, name = first :: rest ∧ nameStart first = true ∧ ∀ c ∈ rest, namePart c = true

/-- The text begins with a reference to a variable. -/
def Refers (text : List Char) : Prop :=
  ∃ name rest, IsName name ∧
    (text = '$' :: (name ++ rest) ∨ text = '$' :: '{' :: (name ++ '}' :: rest))

/-- The parts of a text: its references from left to right, each name as long as it can be,
and the letters that belong to none. -/
inductive Reads : List Part → List Char → Prop
  | nil : Reads [] []
  | plain {name text : List Char} {parts : List Part} (isName : IsName name)
      (ends : ∀ c ∈ text.head?, namePart c = false) (rest : Reads parts text) :
      Reads (.plain name :: parts) ('$' :: (name ++ text))
  | wrapped {name text : List Char} {parts : List Part} (isName : IsName name)
      (rest : Reads parts text) :
      Reads (.wrapped name :: parts) ('$' :: '{' :: (name ++ '}' :: text))
  | kept {c : Char} {text : List Char} {parts : List Part} (free : ¬ Refers (c :: text))
      (rest : Reads parts text) : Reads (.kept c :: parts) (c :: text)

/-- What stands for the part, if it is no reference to a variable that is not set. -/
def Part.value (env : Environment) : Part → Option (List Char)
  | kept c => some [c]
  | plain name => env.getEnv name
  | wrapped name => env.getEnv name

/-- The text of the parts with the values of the variables. -/
def fill (env : Environment) : List Part → Option (List Char)
  | [] => some []
  | part :: parts => do
    let value ← part.value env
    let behind ← fill env parts
    some (value ++ behind)

variable {name text : List Char} {parts : List Part}

theorem takeWhile_name {rest : List Char} (hrest : ∀ c ∈ rest, namePart c = true)
    (hends : ∀ c ∈ text.head?, namePart c = false) :
    (rest ++ text).takeWhile namePart = rest ∧ (rest ++ text).dropWhile namePart = text := by
  have htext : text.takeWhile namePart = [] ∧ text.dropWhile namePart = text := by
    cases text with
    | nil => exact ⟨rfl, rfl⟩
    | cons c text =>
      have hc : ¬ namePart c = true := by
        rw [hends c rfl]
        exact Bool.false_ne_true
      exact ⟨List.takeWhile_cons_of_neg hc, List.dropWhile_cons_of_neg hc⟩
  rw [List.takeWhile_append_of_pos hrest, List.dropWhile_append_of_pos hrest, htext.1, htext.2,
    List.append_nil]
  exact ⟨rfl, rfl⟩

/-- A name is as long as it can be. -/
theorem first_name {first : Char} (hfirst : nameStart first = true) (text : List Char) :
    namePattern.first (first :: text) =
      some (⟨[], first :: text.takeWhile namePart⟩, text.dropWhile namePart) := by
  rw [namePattern, first_letter_seq, if_pos hfirst, first_many]
  rfl

theorem first_name_none {first : Char} (hfirst : ¬ nameStart first = true) (text : List Char) :
    namePattern.first (first :: text) = none := by
  rw [namePattern, first_letter_seq, if_neg hfirst]

/-- In the second spelling the name is matched as if nothing came behind it, since the
closing brace is no letter of a name. -/
theorem first_braced (text : List Char) :
    (Regex.seq (.group 2 namePattern) (.letter (· == '}'))).first text =
      ((Regex.group 2 namePattern).first text).bind fun r =>
        ((Regex.letter (· == '}')).first r.2).map fun r' => (r.1.append r'.1, r'.2) := by
  refine first_seq_of_greedy fun r hr => ?_
  have hpart : ∃ c rest, r.2 = c :: rest ∧ namePart c = true := by
    cases text with
    | nil => cases hr
    | cons first text =>
      rw [namePattern, Regex.runs, Regex.runs, Regex.runs] at hr
      split at hr
      · obtain ⟨shorter, hspans, hshorter⟩ := spans_eq namePart text
        rw [List.flatMap_singleton, Regex.runs, hspans] at hr
        obtain ⟨r', hr', rfl⟩ := List.mem_map.mp hr
        obtain ⟨r'', hr'', rfl⟩ := List.mem_map.mp hr'
        obtain ⟨span, hspan, rfl⟩ := List.mem_map.mp hr''
        exact hshorter span hspan
      · cases hr
  obtain ⟨c, rest, hrest, hc⟩ := hpart
  have hbrace : ¬ (c == '}') = true := by
    intro hbrace
    rw [beq_iff_eq.mp hbrace] at hc
    revert hc
    decide
  rw [hrest, Regex.runs, if_neg hbrace]

/-- A name at the beginning of a text, with what follows the name. -/
theorem IsName.first (h : IsName name) (hends : ∀ c ∈ text.head?, namePart c = false) :
    namePattern.first (name ++ text) = some (⟨[], name⟩, text) := by
  obtain ⟨first, rest, rfl, hfirst, hrest⟩ := h
  obtain ⟨htake, hdrop⟩ := takeWhile_name hrest hends
  rw [List.cons_append, first_name hfirst, htake, hdrop]

/-- What the pattern of a name matches is a name. -/
theorem isName_of_first {r : Hit Char × List Char} (h : namePattern.first text = some r) :
    IsName r.1.taken ∧ text = r.1.taken ++ r.2 := by
  cases text with
  | nil => cases h
  | cons first text =>
    by_cases hfirst : nameStart first = true
    · rw [first_name hfirst] at h
      cases h
      refine ⟨⟨first, text.takeWhile namePart, rfl, hfirst, fun c hc => ?_⟩, ?_⟩
      · exact List.mem_takeWhile_imp hc
      · exact congrArg (first :: ·) List.takeWhile_append_dropWhile.symm
    · rw [first_name_none hfirst] at h
      cases h

/-- The pattern matches the first spelling. -/
theorem first_plain (h : IsName name) (hends : ∀ c ∈ text.head?, namePart c = false) :
    envVarPattern.first ('$' :: (name ++ text)) = some (⟨[(1, name)], '$' :: name⟩, text) := by
  rw [envVarPattern, first_letter_seq, if_pos (beq_self_eq_true '$'), first_alt, first_group,
    h.first hends]
  rfl

/-- The pattern matches the second spelling. -/
theorem first_wrapped (h : IsName name) (text : List Char) :
    envVarPattern.first ('$' :: '{' :: (name ++ '}' :: text)) =
      some (⟨[(2, name)], '$' :: '{' :: (name ++ ['}'])⟩, text) := by
  have hends : ∀ c ∈ ('}' :: text).head?, namePart c = false := by
    intro c hc
    cases hc
    decide
  have hbrace : namePattern.first ('{' :: (name ++ '}' :: text)) = none :=
    first_name_none (by decide) _
  rw [envVarPattern, first_letter_seq, if_pos (beq_self_eq_true '$'), first_alt, first_group,
    hbrace, first_letter_seq, if_pos (beq_self_eq_true '{'), first_braced, first_group,
    h.first hends]
  rfl

/-- The pattern matches nothing but references. -/
theorem first_none (h : ¬ Refers text) : envVarPattern.first text = none := by
  cases text with
  | nil => rfl
  | cons c text =>
    rw [envVarPattern, first_letter_seq]
    split
    · rename_i hdollar
      rw [beq_iff_eq] at hdollar
      subst hdollar
      rw [first_alt, first_group]
      cases hplain : namePattern.first text with
      | some r =>
        obtain ⟨hname, htext⟩ := isName_of_first hplain
        exact absurd ⟨r.1.taken, r.2, hname, Or.inl (congrArg ('$' :: ·) htext)⟩ h
      | none =>
        rw [Option.map_none, Option.none_or, Option.map_eq_none_iff]
        cases text with
        | nil => rfl
        | cons brace text =>
          rw [first_letter_seq]
          split
          · rename_i hbrace
            rw [beq_iff_eq] at hbrace
            subst hbrace
            rw [first_braced, first_group, Option.map_eq_none_iff]
            cases hwrapped : namePattern.first text with
            | none => rfl
            | some r =>
              obtain ⟨hname, htext⟩ := isName_of_first hwrapped
              rcases hrest : r.2 with _ | ⟨last, rest⟩
              · rw [Option.map_some, Option.bind_some, hrest]
                rfl
              · have hlast : ¬ (last == '}') = true := by
                  intro hclosed
                  rw [hrest, beq_iff_eq.mp hclosed] at htext
                  exact h ⟨r.1.taken, rest, hname, Or.inr (by rw [htext])⟩
                rw [Option.map_some, Option.bind_some, hrest, Regex.first, Regex.runs, if_neg hlast]
                rfl
          · rfl
    · rfl

/-- What the scanner finds in a part. -/
def Part.piece : Part → Char ⊕ Hit Char
  | kept c => .inl c
  | plain name => .inr ⟨[(1, name)], '$' :: name⟩
  | wrapped name => .inr ⟨[(2, name)], '$' :: '{' :: (name ++ ['}'])⟩

theorem piece_injective : Function.Injective Part.piece := by
  intro part part' h
  cases part <;> cases part' <;> simp_all [Part.piece]

/-- The scanner cuts a text into its parts. -/
theorem Reads.pieces (h : Reads parts text) :
    (envVarPattern.scanner rfl).pieces text = parts.map Part.piece := by
  induction h with
  | nil => rfl
  | plain isName ends _ ih => rw [pieces_token (first_plain isName ends), ih, List.map_cons]; rfl
  | wrapped isName _ ih => rw [pieces_token (first_wrapped isName _), ih, List.map_cons]; rfl
  | kept free _ ih => rw [pieces_letter (first_none free), ih, List.map_cons]; rfl

/-- A text has one reading. -/
theorem Reads.unique {parts' : List Part} (h : Reads parts text) (h' : Reads parts' text) :
    parts = parts' :=
  List.map_injective_iff.mpr piece_injective (h.pieces.symm.trans h'.pieces)

/-- A text that begins with a reference begins with one whose name is as long as it can be. -/
theorem Refers.longest (h : Refers text) :
    (∃ name rest, IsName name ∧ (∀ c ∈ rest.head?, namePart c = false) ∧
      text = '$' :: (name ++ rest)) ∨
    ∃ name rest, IsName name ∧ text = '$' :: '{' :: (name ++ '}' :: rest) := by
  obtain ⟨name, rest, hname, rfl | rfl⟩ := h
  · obtain ⟨first, tail, rfl, hfirst, htail⟩ := hname
    refine Or.inl ⟨first :: (tail ++ rest).takeWhile namePart, (tail ++ rest).dropWhile namePart,
      ⟨first, _, rfl, hfirst, fun c hc => List.mem_takeWhile_imp hc⟩, ?_, ?_⟩
    · intro c hc
      have hnot := List.head?_dropWhile_not namePart (tail ++ rest)
      rw [Option.mem_def.mp hc] at hnot
      exact hnot
    · rw [List.cons_append, List.cons_append, List.takeWhile_append_dropWhile]
  · exact Or.inr ⟨name, rest, hname, rfl⟩

/-- Every text has a reading. -/
theorem exists_reads (text : List Char) : ∃ parts, Reads parts text := by
  induction hlength : text.length using Nat.strong_induction_on generalizing text with
  | h n ih =>
    by_cases hrefers : Refers text
    · rcases hrefers.longest with ⟨name, rest, hname, hends, rfl⟩ | ⟨name, rest, hname, rfl⟩
      · obtain ⟨parts, hparts⟩ := ih rest.length (by simp at hlength; omega) rest rfl
        exact ⟨_, .plain hname hends hparts⟩
      · obtain ⟨parts, hparts⟩ := ih rest.length (by simp at hlength; omega) rest rfl
        exact ⟨_, .wrapped hname hparts⟩
    · cases text with
      | nil => exact ⟨[], .nil⟩
      | cons c text =>
        obtain ⟨parts, hparts⟩ := ih text.length (by simp at hlength; omega) text rfl
        exact ⟨_, .kept hrefers hparts⟩

/-- No reference goes across a slash. -/
theorem refers_of_append {behind : List Char} (h : Refers (text ++ '/' :: behind)) :
    Refers text := by
  have hsplit : ∀ reference rest : List Char, '/' ∉ reference →
      text ++ '/' :: behind = reference ++ rest → ∃ rest', text = reference ++ rest' := by
    intro reference rest hslash heq
    rcases List.append_eq_append_iff.mp heq with ⟨more, hreference, hmore⟩ | ⟨more, htext, -⟩
    · cases more with
      | nil => exact ⟨[], by rw [hreference, List.append_nil, List.append_nil]⟩
      | cons c more =>
        cases hmore
        exact absurd (by rw [hreference]; simp) hslash
    · exact ⟨more, htext⟩
  have hname : ∀ name : List Char, IsName name → '/' ∉ name := by
    rintro name ⟨first, rest, rfl, hfirst, hrest⟩ hmem
    rcases List.mem_cons.mp hmem with rfl | hlater
    · revert hfirst
      decide
    · have hpart := hrest '/' hlater
      revert hpart
      decide
  obtain ⟨name, rest, his, heq | heq⟩ := h
  · obtain ⟨rest', htext⟩ := hsplit ('$' :: name) rest (by simp [hname name his]) heq
    exact ⟨name, rest', his, Or.inl htext⟩
  · obtain ⟨rest', htext⟩ := hsplit ('$' :: '{' :: (name ++ ['}'])) rest
      (by simp [hname name his]) (by rw [heq]; simp)
    exact ⟨name, rest', his, Or.inr (by rw [htext]; simp)⟩

/-- What stands before a slash is read by itself. -/
theorem Reads.append {behind : List Char} {parts' : List Part} (h : Reads parts text)
    (h' : Reads parts' behind) (hslash : behind = [] ∨ ∃ rest, behind = '/' :: rest) :
    Reads (parts ++ parts') (text ++ behind) := by
  induction h with
  | nil => exact h'
  | @plain name text parts isName ends _ ih =>
    simp only [List.cons_append, List.append_assoc]
    refine .plain isName ?_ ih
    intro c hc
    cases text with
    | cons d text => exact ends c hc
    | nil =>
      rcases hslash with rfl | ⟨rest, rfl⟩
      · cases hc
      · cases hc
        decide
  | @wrapped name text parts isName _ ih =>
    simp only [List.cons_append, List.append_assoc]
    exact .wrapped isName ih
  | @kept c text parts free _ ih =>
    refine .kept (fun hrefers => free ?_) ih
    have hwhole : Refers ((c :: text) ++ behind) := hrefers
    rcases hslash with rfl | ⟨rest, rfl⟩
    · rwa [List.append_nil] at hwhole
    · exact refers_of_append hwhole

end Reading

section Values

variable {env : Environment} {settingName : String} {name text : List Char} {parts parts' : List Part}

theorem toOption_bind {ε α β : Type} (x : Except ε α) (f : α → Except ε β) :
    (x >>= f).toOption = x.toOption.bind fun a => (f a).toOption := by
  cases x <;> rfl

theorem fill_cons {part : Part} : fill env (part :: parts) =
    (part.value env).bind fun value => (fill env parts).map (value ++ ·) := by
  rw [fill]
  cases part.value env with
  | none => rfl
  | some value => cases fill env parts <;> rfl

theorem fill_append : fill env (parts ++ parts') =
    (fill env parts).bind fun value => (fill env parts').map (value ++ ·) := by
  induction parts with
  | nil =>
    rw [List.nil_append, fill, Option.bind_some]
    exact Option.map_id'.symm
  | cons part parts ih =>
    rw [List.cons_append, fill_cons, fill_cons, ih]
    cases part.value env with
    | none => rfl
    | some value =>
      cases fill env parts with
      | none => rfl
      | some behind =>
        rw [Option.bind_some, Option.bind_some, Option.map_map, Option.bind_some, Option.map_some,
          Option.bind_some]
        simp only [Function.comp_def, List.append_assoc]

/-- The values cannot be filled in exactly if some variable is not set. -/
theorem fill_eq_none_iff : fill env parts = none ↔ ∃ part ∈ parts, part.value env = none := by
  induction parts with
  | nil => simp [fill]
  | cons part parts ih =>
    rw [fill_cons, List.exists_mem_cons_iff, ← ih]
    cases part.value env with
    | none => simp
    | some value => simp

/-- The second spelling always fails. -/
theorem expandEnvToken_wrapped (taken : List Char) :
    expandEnvToken env settingName ⟨[(2, name)], taken⟩ =
      .error ("Invalid path for " ++ settingName ++ ": missing environment variable " ++
        String.ofList []) := by
  unfold expandEnvToken
  rw [show varName ⟨[(2, name)], taken⟩ = [] from rfl, env.unnamed]

theorem expandEnvToken_plain (taken : List Char) :
    (expandEnvToken env settingName ⟨[(1, name)], taken⟩).toOption = env.getEnv name := by
  unfold expandEnvToken
  rw [show varName ⟨[(1, name)], taken⟩ = name from rfl]
  cases env.getEnv name with
  | none => rfl
  | some value => rfl

/-- Without the second spelling the references are replaced by the values. -/
theorem expandEnvTokens_of_plain (h : Reads parts text) (hplain : ∀ name, .wrapped name ∉ parts) :
    (expandEnvTokens env settingName text).toOption = fill env parts := by
  unfold expandEnvTokens Scanner.replace
  rw [h.pieces]
  clear h
  induction parts with
  | nil => rfl
  | cons part parts ih =>
    have hrest := ih fun name hmem => hplain name (List.mem_cons_of_mem _ hmem)
    rw [List.map_cons, fill_cons]
    cases part with
    | kept c =>
      rw [Part.piece, substitute, toOption_bind, hrest]
      cases fill env parts <;> rfl
    | plain name =>
      rw [Part.piece, substitute, toOption_bind, expandEnvToken_plain, Part.value]
      cases env.getEnv name with
      | none => rfl
      | some value =>
        rw [Option.bind_some, toOption_bind, hrest]
        cases fill env parts <;> rfl
    | wrapped name => exact absurd List.mem_cons_self (hplain name)

/-- With the second spelling the expansion fails. -/
theorem expandEnvTokens_of_wrapped (h : Reads parts text) (hwrapped : .wrapped name ∈ parts) :
    (expandEnvTokens env settingName text).toOption = none := by
  unfold expandEnvTokens Scanner.replace
  rw [h.pieces]
  clear h
  induction parts with
  | nil => cases hwrapped
  | cons part parts ih =>
    rw [List.map_cons]
    cases part with
    | kept c =>
      have hrest := ih (by simpa using hwrapped)
      rw [Part.piece, substitute, toOption_bind, hrest, Option.bind_none]
    | plain other =>
      have hrest := ih (by simpa using hwrapped)
      rw [Part.piece, substitute, toOption_bind, expandEnvToken_plain]
      cases env.getEnv other with
      | none => rfl
      | some value => rw [Option.bind_some, toOption_bind, hrest, Option.bind_none]
    | wrapped other => rw [Part.piece, substitute, expandEnvToken_wrapped]; rfl

/-- A text expands to something exactly if the second spelling does not occur and the
variables are set. -/
theorem expandEnvTokens_eq_some_iff (h : Reads parts text) {value : List Char} :
    (expandEnvTokens env settingName text).toOption = some value ↔
      (∀ name, .wrapped name ∉ parts) ∧ fill env parts = some value := by
  by_cases hplain : ∀ name, Part.wrapped name ∉ parts
  · rw [expandEnvTokens_of_plain h hplain]
    exact (and_iff_right hplain).symm
  · obtain ⟨name, hwrapped⟩ := not_forall_not.mp hplain
    rw [expandEnvTokens_of_wrapped h hwrapped]
    exact iff_of_false (fun hnone => by cases hnone) fun hboth => hplain hboth.1

end Values

section Home

variable {home rest kept behind path : List Char}

/-- The home directory without slashes at its end. -/
def bare (home : List Char) : List Char := home.rdropWhile (· == '/')

/-- The path is the given text, and what is behind it begins with a slash. -/
def Under (kept path : List Char) : Prop :=
  ∃ behind, path = kept ++ behind ∧ (kept = [] ∨ behind = [] ∨ ∃ rest, behind = '/' :: rest)

theorem bare_getLast (home : List Char) : (bare home).getLast? ≠ some '/' := by
  intro hlast
  have hne : bare home ≠ [] := by
    intro hnil
    rw [hnil] at hlast
    cases hlast
  have hslash := List.rdropWhile_last_not (· == '/') home hne
  rw [List.getLast?_eq_some_getLast hne, Option.some.injEq] at hlast
  exact hslash (beq_iff_eq.mpr hlast)

theorem under_home (home : List Char) : Under (bare home) home := by
  unfold bare
  induction home using List.reverseRecOn with
  | nil => exact ⟨[], rfl, Or.inl rfl⟩
  | append_singleton home last ih =>
    rw [List.rdropWhile_concat]
    split
    · rename_i hslash
      obtain ⟨behind, hhome, hbehind⟩ := ih
      rw [beq_iff_eq.mp hslash]
      refine ⟨behind ++ ['/'], ?_, ?_⟩
      · rw [← List.append_assoc, ← hhome]
      · rcases hbehind with hbare | rfl | ⟨rest, rfl⟩
        · exact Or.inl hbare
        · exact Or.inr (Or.inr ⟨[], rfl⟩)
        · exact Or.inr (Or.inr ⟨rest ++ ['/'], rfl⟩)
    · exact ⟨[], (List.append_nil _).symm, Or.inr (Or.inl rfl)⟩

theorem Under.removeDirSep (h : Under kept path) (hkept : kept.getLast? ≠ some '/') :
    Under kept (removeDirSep path) := by
  unfold Client.removeDirSep
  split
  · exact h
  · split
    · rename_i hlast
      obtain ⟨behind, rfl, hbehind⟩ := h
      cases behind using List.reverseRecOn with
      | nil =>
        rw [List.append_nil] at hlast
        exact absurd hlast hkept
      | append_singleton behind last =>
        rw [← List.append_assoc, List.dropLast_concat]
        refine ⟨behind, rfl, ?_⟩
        rcases hbehind with hnil | hnil | ⟨rest, hrest⟩
        · exact Or.inl hnil
        · exact absurd hnil (by simp)
        · cases behind with
          | nil => exact Or.inr (Or.inl rfl)
          | cons c behind =>
            cases hrest
            exact Or.inr (Or.inr ⟨behind, rfl⟩)
    · exact h

theorem Under.append (h : Under kept path) (rest : List Char) :
    Under kept (path ++ '/' :: rest) := by
  obtain ⟨behind, rfl, hbehind⟩ := h
  refine ⟨behind ++ '/' :: rest, List.append_assoc _ _ _, ?_⟩
  rcases hbehind with hkept | rfl | ⟨more, rfl⟩
  · exact Or.inl hkept
  · exact Or.inr (Or.inr ⟨rest, rfl⟩)
  · exact Or.inr (Or.inr ⟨more ++ '/' :: rest, rfl⟩)

/-- A path that is joined to the home directory is under it. -/
theorem under_joinPath (home rest : List Char) : Under (bare home) (joinPath home rest) := by
  have hhome := (under_home home).removeDirSep (bare_getLast home)
  unfold joinPath
  refine Under.removeDirSep ?_ (bare_getLast home)
  split
  · exact hhome
  · split
    · rename_i hempty
      exact ⟨_, by rw [hempty]; rfl, Or.inl (by rw [hempty]; rfl)⟩
    · split
      · rename_i hroot
        exact ⟨_, by rw [hroot]; rfl, Or.inl (by rw [hroot]; rfl)⟩
      · exact hhome.append _

/-- The path begins with the home directory. -/
def NeedsHome (path : List Char) : Prop := path = ['~'] ∨ ∃ rest, path = '~' :: '/' :: rest

/-- The path with the home directory in its place: the home directory's own characters, and
what is behind them. A path below the home directory is joined to it. -/
inductive HomeReplaced (home : List Char) : List Char → List Char → List Char → Prop
  | alone {behind : List Char} (whole : bare home ++ behind = home) :
      HomeReplaced home ['~'] (bare home) behind
  | below {rest behind : List Char} (whole : bare home ++ behind = joinPath home rest) :
      HomeReplaced home ('~' :: '/' :: rest) (bare home) behind
  | elsewhere {path : List Char} (other : ¬ NeedsHome path) : HomeReplaced home path [] path

theorem exists_homeReplaced (home path : List Char) :
    ∃ kept behind, HomeReplaced home path kept behind := by
  by_cases hneeds : NeedsHome path
  · rcases hneeds with rfl | ⟨rest, rfl⟩
    · obtain ⟨behind, hhome, -⟩ := under_home home
      exact ⟨_, behind, .alone hhome.symm⟩
    · obtain ⟨behind, hjoin, -⟩ := under_joinPath home rest
      exact ⟨_, behind, .below hjoin.symm⟩
  · exact ⟨[], path, .elsewhere hneeds⟩

theorem HomeReplaced.unique {home' kept' behind' : List Char}
    (h : HomeReplaced home path kept behind) (h' : HomeReplaced home' path kept' behind')
    (hhome : NeedsHome path → home = home') : kept = kept' ∧ behind = behind' := by
  cases h with
  | alone whole =>
    obtain rfl := hhome (Or.inl rfl)
    cases h' with
    | alone whole' => exact ⟨rfl, List.append_cancel_left (whole.trans whole'.symm)⟩
    | elsewhere other => exact absurd (Or.inl rfl) other
  | below whole =>
    obtain rfl := hhome (Or.inr ⟨_, rfl⟩)
    cases h' with
    | below whole' => exact ⟨rfl, List.append_cancel_left (whole.trans whole'.symm)⟩
    | elsewhere other => exact absurd (Or.inr ⟨_, rfl⟩) other
  | elsewhere other =>
    cases h' with
    | alone whole => exact absurd (Or.inl rfl) other
    | below whole => exact absurd (Or.inr ⟨_, rfl⟩) other
    | elsewhere other' => exact ⟨rfl, rfl⟩

/-- References do not go across the end of the home directory. -/
theorem HomeReplaced.slash (h : HomeReplaced home path kept behind) :
    kept = [] ∨ behind = [] ∨ ∃ rest, behind = '/' :: rest := by
  cases h with
  | alone whole =>
    obtain ⟨behind', hhome, hslash⟩ := under_home home
    have hsame := List.append_cancel_left (whole.trans hhome)
    rwa [hsame]
  | @below rest _ whole =>
    obtain ⟨behind', hjoin, hslash⟩ := under_joinPath home rest
    have hsame := List.append_cancel_left (whole.trans hjoin)
    rwa [hsame]
  | elsewhere other => exact Or.inl rfl

/-- The home directory is put in its place. -/
theorem HomeReplaced.expandHomeToken {env : Environment} (h : HomeReplaced home path kept behind)
    (hhome : NeedsHome path → env.userHome = some home) :
    expandHomeToken env path = .ok (kept ++ behind) := by
  cases h with
  | alone whole =>
    rw [Client.expandHomeToken, Environment.home, hhome (Or.inl rfl), whole]
  | below whole =>
    rw [Client.expandHomeToken, Environment.home, hhome (Or.inr ⟨_, rfl⟩), whole]
    rfl
  | elsewhere other =>
    unfold Client.expandHomeToken
    split
    · exact absurd (Or.inl rfl) other
    · exact absurd (Or.inr ⟨_, rfl⟩) other
    · rfl

/-- Without a home directory no path begins with it. -/
theorem expandHomeToken_homeless {env : Environment} (hneeds : NeedsHome path)
    (hhome : env.userHome = none) : (expandHomeToken env path).toOption = none := by
  rcases hneeds with rfl | ⟨rest, rfl⟩
  · rw [expandHomeToken, Environment.home, hhome]
    rfl
  · rw [expandHomeToken, Environment.home, hhome]
    rfl

end Home

section Expansion

variable {env : Environment} {settingName : String} {path : List Char}

/-- What the expansion of a path is to be, none for an error. The characters of the home
directory and the values of the variables stay as they are. -/
inductive Expands (env : Environment) (path : List Char) : Option (List Char) → Prop
  | homeless (needs : NeedsHome path) (missing : env.userHome = none) : Expands env path none
  | replaced {home kept behind : List Char} {parts : List Part}
      (found : NeedsHome path → env.userHome = some home)
      (replaced : HomeReplaced home path kept behind) (reads : Reads parts behind) :
      Expands env path ((fill env parts).map (kept ++ ·))

/-- The path refers to the home directory or to a variable, and there is none. -/
def Missing (env : Environment) (path : List Char) : Prop :=
  NeedsHome path ∧ env.userHome = none ∨
    ∃ home kept behind parts, (NeedsHome path → env.userHome = some home) ∧
      HomeReplaced home path kept behind ∧ Reads parts behind ∧
      ∃ part ∈ parts, part.value env = none

/-- Neither the path nor the home directory in it has a reference with braces, and the
home directory is not changed by its own references. -/
def Unbraced (env : Environment) (path : List Char) : Prop :=
  ∃ home kept behind own parts, (NeedsHome path → env.userHome = some home) ∧
    HomeReplaced home path kept behind ∧ Reads own kept ∧ Reads parts behind ∧
    (∀ name, .wrapped name ∉ own ∧ .wrapped name ∉ parts) ∧ fill env own = some kept

variable {home home' kept kept' behind behind' : List Char} {own parts parts' : List Part}

/-- How a path that does not lack its home directory is read. -/
structure Understood (env : Environment) (path home kept behind : List Char)
    (own parts : List Part) : Prop where
  found : NeedsHome path → env.userHome = some home
  replaced : HomeReplaced home path kept behind
  reads_own : Reads own kept
  reads : Reads parts behind

theorem exists_understood (h : ¬ (NeedsHome path ∧ env.userHome = none)) :
    ∃ home kept behind own parts, Understood env path home kept behind own parts := by
  have hfound : ∃ home, NeedsHome path → env.userHome = some home := by
    cases hhome : env.userHome with
    | some home => exact ⟨home, fun _ => rfl⟩
    | none => exact ⟨[], fun hneeds => absurd ⟨hneeds, hhome⟩ h⟩
  obtain ⟨home, hfound⟩ := hfound
  obtain ⟨kept, behind, hreplaced⟩ := exists_homeReplaced home path
  obtain ⟨own, hown⟩ := exists_reads kept
  obtain ⟨parts, hparts⟩ := exists_reads behind
  exact ⟨home, kept, behind, own, parts, hfound, hreplaced, hown, hparts⟩

/-- Whatever home directory a path does not need, it is read in the same way. -/
theorem Understood.unique (h : Understood env path home kept behind own parts)
    (hfound : NeedsHome path → env.userHome = some home')
    (hreplaced : HomeReplaced home' path kept' behind') : kept' = kept ∧ behind' = behind :=
  hreplaced.unique h.replaced fun hneeds =>
    Option.some.inj ((hfound hneeds).symm.trans (h.found hneeds))

theorem Understood.expands_iff (h : Understood env path home kept behind own parts)
    {outcome : Option (List Char)} :
    Expands env path outcome ↔ outcome = (fill env parts).map (kept ++ ·) := by
  constructor
  · intro hexpands
    cases hexpands with
    | homeless needs missing =>
      have hfound := h.found needs
      rw [missing] at hfound
      cases hfound
    | replaced found replaced reads =>
      obtain ⟨rfl, rfl⟩ := h.unique found replaced
      rw [reads.unique h.reads]
  · rintro rfl
    exact .replaced h.found h.replaced h.reads

theorem Understood.missing_iff (h : Understood env path home kept behind own parts) :
    Missing env path ↔ fill env parts = none := by
  rw [fill_eq_none_iff]
  constructor
  · rintro (⟨hneeds, hnone⟩ | ⟨home', kept', behind', parts', hfound, hreplaced, hreads, hunset⟩)
    · have hfound := h.found hneeds
      rw [hnone] at hfound
      cases hfound
    · obtain ⟨rfl, rfl⟩ := h.unique hfound hreplaced
      rwa [hreads.unique h.reads] at hunset
  · intro hunset
    exact Or.inr ⟨home, kept, behind, parts, h.found, h.replaced, h.reads, hunset⟩

theorem Understood.unbraced_iff (h : Understood env path home kept behind own parts) :
    Unbraced env path ↔
      (∀ name, .wrapped name ∉ own ∧ .wrapped name ∉ parts) ∧ fill env own = some kept := by
  constructor
  · rintro ⟨home', kept', behind', own', parts', hfound, hreplaced, hown, hreads, hplain, hkept⟩
    obtain ⟨rfl, rfl⟩ := h.unique hfound hreplaced
    obtain rfl := hown.unique h.reads_own
    obtain rfl := hreads.unique h.reads
    exact ⟨hplain, hkept⟩
  · rintro ⟨hplain, hkept⟩
    exact ⟨home, kept, behind, own, parts, h.found, h.replaced, h.reads_own, h.reads, hplain, hkept⟩

/-- The home directory and what is behind it are expanded together. -/
theorem Understood.expandPath_eq_some_iff (h : Understood env path home kept behind own parts)
    {value : List Char} : (expandPath env settingName path).toOption = some value ↔
      (∀ name, .wrapped name ∉ own ∧ .wrapped name ∉ parts) ∧
        (fill env own).bind (fun front => (fill env parts).map (front ++ ·)) = some value := by
  have hreads : Reads (own ++ parts) (kept ++ behind) := by
    rcases h.replaced.slash with rfl | hslash
    · obtain rfl := h.reads_own.unique .nil
      exact h.reads
    · exact h.reads_own.append h.reads hslash
  unfold expandPath
  rw [toOption_bind, h.replaced.expandHomeToken h.found, Except.toOption, Option.bind_some,
    expandEnvTokens_eq_some_iff hreads, fill_append]
  simp only [List.mem_append, not_or]

/-- A path has one expansion. -/
theorem expands_unique (env : Environment) (path : List Char) :
    ∃! outcome, Expands env path outcome := by
  by_cases hhomeless : NeedsHome path ∧ env.userHome = none
  · refine ⟨none, .homeless hhomeless.1 hhomeless.2, fun outcome houtcome => ?_⟩
    cases houtcome with
    | homeless => rfl
    | replaced found =>
      have hfound := found hhomeless.1
      rw [hhomeless.2] at hfound
      cases hfound
  · obtain ⟨home, kept, behind, own, parts, hunderstood⟩ := exists_understood hhomeless
    exact ⟨_, hunderstood.expands_iff.mpr rfl, fun outcome => hunderstood.expands_iff.mp⟩

/-- The expansion is what it is to be exactly if something it refers to is missing, or if it
has no reference with braces and the home directory in it is not changed by its own
references. -/
theorem expandPath_expands_iff (env : Environment) (settingName : String) (path : List Char) :
    (∃! outcome, Expands env path outcome) ∧
      (Expands env path (expandPath env settingName path).toOption ↔
        Missing env path ∨ Unbraced env path) := by
  refine ⟨expands_unique env path, ?_⟩
  by_cases hhomeless : NeedsHome path ∧ env.userHome = none
  · refine iff_of_true ?_ (Or.inl (Or.inl hhomeless))
    have hnone : (expandPath env settingName path).toOption = none := by
      unfold expandPath
      rw [toOption_bind, expandHomeToken_homeless hhomeless.1 hhomeless.2]
      rfl
    rw [hnone]
    exact .homeless hhomeless.1 hhomeless.2
  · obtain ⟨home, kept, behind, own, parts, h⟩ := exists_understood hhomeless
    rw [h.expands_iff, h.missing_iff, h.unbraced_iff]
    cases hfill : fill env parts with
    | none =>
      refine iff_of_true ?_ (Or.inl rfl)
      refine Option.eq_none_iff_forall_ne_some.mpr fun value hvalue => ?_
      have hboth := (h.expandPath_eq_some_iff.mp hvalue).2
      rw [hfill] at hboth
      cases hown : fill env own <;> rw [hown] at hboth <;> cases hboth
    | some value =>
      rw [Option.map_some, h.expandPath_eq_some_iff, hfill]
      constructor
      · rintro ⟨hplain, hvalue⟩
        refine Or.inr ⟨hplain, ?_⟩
        cases hown : fill env own with
        | none =>
          rw [hown] at hvalue
          cases hvalue
        | some front =>
          rw [hown, Option.bind_some, Option.map_some, Option.some.injEq] at hvalue
          rw [List.append_cancel_right hvalue]
      · rintro (hnone | ⟨hplain, hown⟩)
        · cases hnone
        · rw [hown]
          exact ⟨hplain, rfl⟩

/-- An error says what is missing: the home directory, or a variable that is not set. -/
theorem expandPath_error {message : String} (h : expandPath env settingName path = .error message) :
    NeedsHome path ∧ env.userHome = none ∧
        message = "Cannot expand '~': user home directory is unavailable" ∨
      ∃ name, env.getEnv name = none ∧
        message = "Invalid path for " ++ settingName ++ ": missing environment variable " ++
          String.ofList name := by
  by_cases hhomeless : NeedsHome path ∧ env.userHome = none
  · refine Or.inl ⟨hhomeless.1, hhomeless.2, ?_⟩
    rcases hhomeless.1 with rfl | ⟨rest, rfl⟩
    · rw [expandPath, expandHomeToken, Environment.home, hhomeless.2] at h
      cases h
      rfl
    · rw [expandPath, expandHomeToken, Environment.home, hhomeless.2] at h
      cases h
      rfl
  · obtain ⟨home, kept, behind, own, parts, hunderstood⟩ := exists_understood hhomeless
    rw [expandPath, hunderstood.replaced.expandHomeToken hunderstood.found] at h
    obtain ⟨hit, -, hfails⟩ := substitute_error h
    unfold expandEnvToken at hfails
    split at hfails
    · rename_i hunset
      cases hfails
      exact Or.inr ⟨varName hit, hunset, rfl⟩
    · cases hfails

/-- One variable is set. -/
def oneVariable : Environment where
  userHome := none
  getEnv name := if name = ['X'] then some ['v'] else none
  unnamed := rfl

/-- A variable in braces is set and is not found. -/
theorem braces_fail :
    expandPath oneVariable "state_directory" ['$', '{', 'X', '}'] =
        .error "Invalid path for state_directory: missing environment variable " ∧
      Expands oneVariable ['$', '{', 'X', '}'] (some ['v']) ∧
      ¬ Expands oneVariable ['$', '{', 'X', '}']
        (expandPath oneVariable "state_directory" ['$', '{', 'X', '}']).toOption := by
  have hfails : expandPath oneVariable "state_directory" ['$', '{', 'X', '}'] =
      .error "Invalid path for state_directory: missing environment variable " := by
    decide +kernel
  have helsewhere : ¬ NeedsHome ['$', '{', 'X', '}'] := by
    rintro (h | ⟨rest, h⟩) <;> cases h
  have hname : IsName ['X'] := ⟨'X', [], rfl, by decide, by simp⟩
  have hreplaced : HomeReplaced [] ['$', '{', 'X', '}'] [] ['$', '{', 'X', '}'] :=
    .elsewhere helsewhere
  have hexpands : Expands oneVariable ['$', '{', 'X', '}'] (some ['v']) :=
    .replaced (fun hneeds => absurd hneeds helsewhere) hreplaced (.wrapped hname .nil)
  refine ⟨hfails, hexpands, fun hclaimed => ?_⟩
  rw [hfails] at hclaimed
  cases (expands_unique oneVariable _).unique hexpands hclaimed

end Expansion

end Sower.Client
