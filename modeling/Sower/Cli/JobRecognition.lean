import Sower.Cli.CanonicalJobs

/-!
# Canonical jobs are recognised alike

What the expression of `seed_job?` matches is read off its parts. It finds the job of a
path unless a newline is in its way. So both commands know the same jobs where no quoted
component before the job has a slash and the name is plain.
-/

namespace Sower.Cli

open Splitting Pattern Sower.Deploy

section Building

variable {text rest : Text} {items items' : List Item} {last : Final}

@[simp] theorem itemsText_cons (item : Item) (items : List Item) :
    itemsText (item :: items) = item.text ++ itemsText items := rfl

theorem itemsText_append (items items' : List Item) :
    itemsText (items ++ items') = itemsText items ++ itemsText items' := List.flatMap_append

/-- Where a quoted text ends, and what it consists of, is unique. -/
theorem items_inj {behind behind' : Text}
    (h : itemsText items ++ '"' :: behind = itemsText items' ++ '"' :: behind') :
    items = items' ∧ behind = behind' := by
  induction items generalizing items' with
  | nil =>
    cases items' with
    | nil => exact ⟨rfl, (List.cons_eq_cons.mp h).2⟩
    | cons item items' =>
      cases item with
      | plain c hc => exact absurd (List.cons_eq_cons.mp h).1.symm hc.1
      | escaped c => exact absurd (List.cons_eq_cons.mp h).1 (by decide)
  | cons item items ih =>
    cases items' with
    | nil =>
      cases item with
      | plain c hc => exact absurd (List.cons_eq_cons.mp h).1 hc.1
      | escaped c => exact absurd (List.cons_eq_cons.mp h).1 (by decide)
    | cons item' items' =>
      cases item with
      | plain c hc =>
        cases item' with
        | plain d hd =>
          obtain ⟨hcd, hrest⟩ := List.cons_eq_cons.mp h
          cases hcd
          obtain ⟨hitems, hbehind⟩ := ih hrest
          exact ⟨congrArg (_ :: ·) hitems, hbehind⟩
        | escaped d => exact absurd (List.cons_eq_cons.mp h).1 hc.2
      | escaped c =>
        cases item' with
        | plain d hd => exact absurd (List.cons_eq_cons.mp h).1.symm hd.2
        | escaped d =>
          obtain ⟨hcd, hrest⟩ := List.cons_eq_cons.mp (List.cons_eq_cons.mp h).2
          cases hcd
          obtain ⟨hitems, hbehind⟩ := ih hrest
          exact ⟨congrArg (_ :: ·) hitems, hbehind⟩

/-- A text that has nothing to escape, as it stands between quotes. -/
theorem exists_items (h : ∀ c ∈ text, c ≠ '"' ∧ c ≠ '\\') :
    ∃ items, itemsText items = text ∧ Unbroken items := by
  induction text with
  | nil => exact ⟨[], rfl, List.not_mem_nil⟩
  | cons c text ih =>
    rw [List.forall_mem_cons] at h
    obtain ⟨items, hitems, hunbroken⟩ := ih h.2
    refine ⟨.plain c h.1 :: items, congrArg (c :: ·) hitems, ?_⟩
    intro hmem
    cases hmem with
    | tail _ hmem => exact hunbroken hmem

/-- What follows a text without escapes is between quotes, too. -/
theorem exists_items_behind (h : '\\' ∉ text) (heq : itemsText items = text ++ rest) :
    ∃ front behind, items = front ++ behind ∧ itemsText behind = rest := by
  induction text generalizing items with
  | nil => exact ⟨[], items, rfl, heq⟩
  | cons c text ih =>
    cases items with
    | nil => cases heq
    | cons item items =>
      cases item with
      | plain d hd =>
        have hrest := (List.cons_eq_cons.mp heq).2
        obtain ⟨front, behind, hitems, hbehind⟩ :=
          ih (fun hmem => h (List.mem_cons_of_mem _ hmem)) hrest
        exact ⟨.plain d hd :: front, behind, congrArg (_ :: ·) hitems, hbehind⟩
      | escaped d =>
        have hc : '\\' = c := (List.cons_eq_cons.mp heq).1
        exact absurd (hc ▸ List.mem_cons_self) h

theorem mem_quotedCharacter : text ∈ quotedCharacter.language ↔
    ∃ item, item ≠ Item.escaped '\n' ∧ text = item.text := by
  unfold quotedCharacter
  rw [mem_alt, mem_letter, mem_seq]
  constructor
  · intro h
    cases h with
    | inl h =>
      obtain ⟨c, hc, htext⟩ := h
      simp only [Bool.and_eq_true, bne_iff_ne] at hc
      exact ⟨.plain c hc, nofun, htext⟩
    | inr h =>
      obtain ⟨x, hx, y, ⟨c, hc, hy⟩, htext⟩ := h
      rw [mem_exactly] at hx
      rw [hx, hy] at htext
      refine ⟨.escaped c, fun heq => ?_, htext.symm⟩
      cases heq
      exact bne_iff_ne.mp hc rfl
  · intro ⟨item, hitem, htext⟩
    cases item with
    | plain c hc =>
      left
      refine ⟨c, ?_, htext⟩
      rw [Bool.and_eq_true, bne_iff_ne, bne_iff_ne]
      exact hc
    | escaped c =>
      have hc : c ≠ '\n' := fun heq => hitem (congrArg Item.escaped heq)
      exact Or.inr ⟨['\\'], mem_exactly.mpr rfl, [c], ⟨c, bne_iff_ne.mpr hc, rfl⟩, htext.symm⟩

theorem mem_star_quotedCharacter : text ∈ (star quotedCharacter).language ↔
    ∃ items, Unbroken items ∧ text = itemsText items := by
  constructor
  · intro h
    obtain ⟨parts, hparts, hall⟩ := Language.mem_kstar.mp h
    rw [hparts]
    clear h hparts
    induction parts with
    | nil => exact ⟨[], List.not_mem_nil, rfl⟩
    | cons part parts ih =>
      rw [List.forall_mem_cons] at hall
      obtain ⟨item, hitem, hpart⟩ := mem_quotedCharacter.mp hall.1
      obtain ⟨items, hitems, hflatten⟩ := ih hall.2
      refine ⟨item :: items, ?_, ?_⟩
      · intro hmem
        cases List.mem_cons.mp hmem with
        | inl heq => exact hitem heq.symm
        | inr hmem => exact hitems hmem
      · rw [List.flatten_cons, hpart, hflatten]
        rfl
  · intro ⟨items, hitems, htext⟩
    refine Language.mem_kstar.mpr ⟨items.map Item.text, htext.trans ?_, fun part hpart => ?_⟩
    · exact List.flatMap_def
    · obtain ⟨item, hmem, rfl⟩ := List.mem_map.mp hpart
      exact mem_quotedCharacter.mpr ⟨item, fun heq => hitems (heq ▸ hmem), rfl⟩

/-- What stands between quotes, with them. -/
theorem quoted_text (items : List Item) :
    (Component.quoted items).text = '"' :: (itemsText items ++ ['"']) := rfl

theorem mem_pathComponent : text ∈ pathComponent.language ↔
    (∃ name, name ≠ [] ∧ '/' ∉ name ∧ '"' ∉ name ∧ text = name ++ ['.']) ∨
      ∃ items, Unbroken items ∧ text = (Component.quoted items).text ++ ['.'] := by
  unfold pathComponent
  rw [mem_seq]
  constructor
  · intro ⟨x, hx, y, hy, hsplit⟩
    rw [mem_exactly] at hy
    rw [hy] at hsplit
    cases mem_alt.mp hx with
    | inl hname =>
      rw [mem_plus_letter] at hname
      refine Or.inl ⟨x, hname.1, fun hmem => ?_, fun hmem => ?_, hsplit.symm⟩
      · have hslash := hname.2 _ hmem
        revert hslash
        decide
      · have hquote := hname.2 _ hmem
        revert hquote
        decide
    | inr hquoted =>
      obtain ⟨start, hstart, body, hbody, hx⟩ := mem_seq.mp hquoted
      obtain ⟨content, hcontent, close, hclose, hbody⟩ := mem_seq.mp hbody
      rw [mem_exactly] at hstart hclose
      obtain ⟨items, hitems, hcontent⟩ := mem_star_quotedCharacter.mp hcontent
      refine Or.inr ⟨items, hitems, ?_⟩
      rw [← hsplit, ← hx, ← hbody, hstart, hclose, hcontent]
      rfl
  · intro h
    cases h with
    | inl h =>
      obtain ⟨name, hne, hslash, hquote, htext⟩ := h
      refine ⟨name, mem_alt.mpr (Or.inl (mem_plus_letter.mpr ⟨hne, fun c hc => ?_⟩)), ['.'],
        mem_exactly.mpr rfl, htext.symm⟩
      rw [Bool.and_eq_true, bne_iff_ne, bne_iff_ne]
      exact ⟨fun heq => hslash (heq ▸ hc), fun heq => hquote (heq ▸ hc)⟩
    | inr h =>
      obtain ⟨items, hitems, htext⟩ := h
      have hcontent := mem_star_quotedCharacter.mpr ⟨items, hitems, rfl⟩
      have hquoted : (Component.quoted items).text ∈
          (seq (exactly '"') (seq (star quotedCharacter) (exactly '"'))).language :=
        mem_seq.mpr ⟨['"'], mem_exactly.mpr rfl, _,
          mem_seq.mpr ⟨_, hcontent, ['"'], mem_exactly.mpr rfl, rfl⟩, rfl⟩
      exact ⟨_, mem_alt.mpr (Or.inr hquoted), ['.'], mem_exactly.mpr rfl, htext.symm⟩

/-- A text without escapes before a slash and a name, between quotes. -/
theorem isJob_quoted {space : Text} (hspace : space ∈ namespaces) (hne : items' ≠ [])
    (h : itemsText items = space ++ '/' :: itemsText items') :
    (Final.component (.quoted items)).IsJob := by
  refine ⟨space, hspace, itemsText items', fun hnil => ?_, h⟩
  cases items' with
  | nil => exact hne rfl
  | cons item items' => cases item <;> cases hnil

/-- A check of every letter, one after the other. -/
theorem forall_mem_of_all {p : Char → Prop} [DecidablePred p]
    (h : (text.all fun c => decide (p c)) = true) : ∀ c ∈ text, p c :=
  fun c hmem => of_decide_eq_true (List.all_eq_true.mp h c hmem)

theorem plain_namespace {space : Text} (h : space ∈ namespaces) :
    ∀ c ∈ space ++ ['/'], c ≠ '"' ∧ c ≠ '\\' := by
  simp only [namespaces, List.mem_cons, List.not_mem_nil, or_false] at h
  rcases h with heq | heq | heq
  · rw [heq]
    exact forall_mem_of_all (by decide)
  · rw [heq]
    exact forall_mem_of_all (by decide)
  · rw [heq]
    exact forall_mem_of_all (by decide)

theorem dot_notMem_namespace {space : Text} (h : space ∈ namespaces) : '.' ∉ space := by
  revert space
  decide

theorem mem_seedComponent : text ∈ seedComponent.language ↔
    (∃ space ∈ namespaces, ∃ name, name ≠ [] ∧ '\n' ∉ name ∧ text = space ++ '/' :: name) ∨
      ∃ items, Unbroken items ∧ (Final.component (.quoted items)).IsJob ∧
        text = (Component.quoted items).text := by
  unfold seedComponent
  rw [mem_alt]
  refine or_congr ?_ ?_
  · rw [mem_seq]
    constructor
    · intro ⟨space, hspace, x, hx, htext⟩
      obtain ⟨slash, hslash, name, hname, hx⟩ := mem_seq.mp hx
      rw [mem_anyOf] at hspace
      rw [mem_exactly] at hslash
      rw [mem_plus_letter] at hname
      rw [hslash] at hx
      refine ⟨space, hspace, name, hname.1, fun hmem => ?_, ?_⟩
      · exact bne_iff_ne.mp (hname.2 _ hmem) rfl
      · rw [← htext, ← hx]
        rfl
    · intro ⟨space, hspace, name, hne, hline, htext⟩
      have hname : name ∈ (plus (letter (· != '\n'))).language :=
        mem_plus_letter.mpr ⟨hne, fun c hc => bne_iff_ne.mpr fun heq => hline (heq ▸ hc)⟩
      exact ⟨space, mem_anyOf.mpr hspace, '/' :: name,
        mem_seq.mpr ⟨['/'], mem_exactly.mpr rfl, name, hname, rfl⟩, htext.symm⟩
  · constructor
    · intro h
      obtain ⟨start, hstart, x, hx, htext⟩ := mem_seq.mp h
      obtain ⟨space, hspace, x', hx', hx⟩ := mem_seq.mp hx
      obtain ⟨slash, hslash, x'', hx'', hx'⟩ := mem_seq.mp hx'
      obtain ⟨name, hname, close, hclose, hx''⟩ := mem_seq.mp hx''
      obtain ⟨first, hfirst, others, hothers, hname⟩ := mem_seq.mp hname
      obtain ⟨item, hitem, hfirst⟩ := mem_quotedCharacter.mp hfirst
      obtain ⟨items, hitems, hothers⟩ := mem_star_quotedCharacter.mp hothers
      rw [mem_exactly] at hstart hslash hclose
      rw [mem_anyOf] at hspace
      obtain ⟨front, hfront, hunbroken⟩ := exists_items (plain_namespace hspace)
      have hcontent : itemsText (front ++ item :: items) =
          space ++ '/' :: itemsText (item :: items) := by
        rw [itemsText_append, hfront, List.append_assoc]
        rfl
      refine ⟨front ++ item :: items, ?_, isJob_quoted hspace (List.cons_ne_nil _ _) hcontent, ?_⟩
      · intro hmem
        cases List.mem_append.mp hmem with
        | inl hmem => exact hunbroken hmem
        | inr hmem =>
          cases List.mem_cons.mp hmem with
          | inl heq => exact hitem heq.symm
          | inr hmem => exact hitems hmem
      · rw [quoted_text, hcontent, ← htext, ← hx, ← hx', ← hx'', ← hname, hstart, hslash, hclose,
          hfirst, hothers]
        simp
    · intro ⟨items, hitems, ⟨space, hspace, name, hne, hcontent⟩, htext⟩
      change itemsText items = space ++ '/' :: name at hcontent
      have hsplit : itemsText items = (space ++ ['/']) ++ name := by simp [hcontent]
      have hescape : '\\' ∉ space ++ ['/'] := fun hmem => (plain_namespace hspace _ hmem).2 rfl
      obtain ⟨front, behind, hfront, hbehind⟩ := exists_items_behind hescape hsplit
      cases behind with
      | nil => exact absurd hbehind.symm hne
      | cons item behind =>
        have hmem (i : Item) (h : i ∈ item :: behind) : i ≠ Item.escaped '\n' := by
          intro heq
          rw [heq] at h
          exact hitems (hfront ▸ List.mem_append_right _ h)
        have hfirst : item.text ∈ quotedCharacter.language :=
          mem_quotedCharacter.mpr ⟨item, hmem item List.mem_cons_self, rfl⟩
        have hothers : itemsText behind ∈ (star quotedCharacter).language :=
          mem_star_quotedCharacter.mpr ⟨behind,
            fun h => hmem _ (List.mem_cons_of_mem _ h) rfl, rfl⟩
        have hname : name ∈ (plus quotedCharacter).language :=
          mem_seq.mpr ⟨_, hfirst, _, hothers, hbehind⟩
        refine mem_seq.mpr ⟨['"'], mem_exactly.mpr rfl, space ++ '/' :: (name ++ ['"']),
          mem_seq.mpr ⟨space, mem_anyOf.mpr hspace, _, mem_seq.mpr ⟨['/'], mem_exactly.mpr rfl, _,
            mem_seq.mpr ⟨name, hname, ['"'], mem_exactly.mpr rfl, rfl⟩, rfl⟩, rfl⟩, ?_⟩
        rw [htext, quoted_text, hcontent]
        simp

theorem mem_lineEnd : text ∈ lineEnd.language ↔ text = [] ∨ text = ['\n'] := by
  unfold lineEnd
  rw [mem_alt, mem_exactly]
  exact or_congr (Language.mem_one _) Iff.rfl

/-- The pattern goes on behind a component. -/
theorem seedJobPattern_cons {x : Text} (hx : x ∈ pathComponent.language)
    (h : text ∈ seedJobPattern.language) : x ++ text ∈ seedJobPattern.language :=
  mem_star_seq.mpr (Or.inr ⟨x, hx, text, h, rfl⟩)

/-- Nothing of an unquoted component can be taken for another part of the pattern. -/
theorem bare_mem_iff {name : Text} (hne : name ≠ [])
    (hplain : ∀ c ∈ name, c ≠ '.' ∧ c ≠ '"' ∧ c ≠ '/') (hrest : rest.head? ≠ some '.') :
    name ++ '.' :: rest ∈ seedJobPattern.language ↔ rest ∈ seedJobPattern.language := by
  have hdot : '.' ∉ name := fun h => (hplain _ h).1 rfl
  have hquote : '"' ∉ name := fun h => (hplain _ h).2.1 rfl
  have hslash : '/' ∉ name := fun h => (hplain _ h).2.2 rfl
  have hunquoted (behind : Text) : '"' :: behind ≠ name ++ '.' :: rest :=
    cons_ne_append (by decide) hquote
  constructor
  · intro h
    rcases mem_star_seq.mp h with hlast | ⟨x, hx, y, hy, hsplit⟩
    · obtain ⟨x, hx, y, -, hsplit⟩ := mem_seq.mp hlast
      rcases mem_seedComponent.mp hx with ⟨space, hspace, job, -, -, hx⟩ | ⟨items, -, -, hx⟩
      · rw [hx, List.append_assoc] at hsplit
        exact absurd hsplit.symm (append_cons_ne (by decide) (dot_notMem_namespace hspace) hslash)
      · rw [hx] at hsplit
        exact absurd hsplit (hunquoted _)
    · rcases mem_pathComponent.mp hx with ⟨first, hfirst, hslash', hquote', hx⟩ | ⟨items, -, hx⟩
      · rw [hx, List.append_assoc] at hsplit
        rcases List.append_eq_append_iff.mp hsplit with ⟨more, hname, hmore⟩ | ⟨more, hname, hmore⟩
        · cases more with
          | nil =>
            have hy' : y = rest := (List.cons_eq_cons.mp hmore).2
            exact hy' ▸ hy
          | cons c more =>
            have hc : '.' = c := (List.cons_eq_cons.mp hmore).1
            rw [hname, ← hc] at hdot
            exact absurd (List.mem_append_right _ List.mem_cons_self) hdot
        · cases more with
          | nil =>
            have hy' : rest = y := (List.cons_eq_cons.mp hmore).2
            exact hy' ▸ hy
          | cons c more =>
            obtain ⟨hc, hmore⟩ := List.cons_eq_cons.mp hmore
            cases more with
            | nil =>
              rw [hmore] at hrest
              exact absurd rfl hrest
            | cons d more =>
              have hin : d :: more ++ ['.'] ∈ pathComponent.language := by
                refine mem_pathComponent.mpr (Or.inl ⟨d :: more, List.cons_ne_nil _ _, ?_, ?_, rfl⟩)
                · intro hmem
                  apply hslash'
                  rw [hname]
                  exact List.mem_append_right _ (List.mem_cons_of_mem _ hmem)
                · intro hmem
                  apply hquote'
                  rw [hname]
                  exact List.mem_append_right _ (List.mem_cons_of_mem _ hmem)
              have hgoes := seedJobPattern_cons hin hy
              rw [List.append_assoc] at hgoes
              rw [hmore]
              exact hgoes
      · rw [hx] at hsplit
        exact absurd hsplit (hunquoted _)
  · intro h
    have hin : name ++ ['.'] ∈ pathComponent.language :=
      mem_pathComponent.mpr (Or.inl ⟨name, hne, hslash, hquote, rfl⟩)
    have hgoes := seedJobPattern_cons hin h
    rw [List.append_assoc] at hgoes
    exact hgoes

/-- Components in quotes are what they are. -/
theorem quoted_inj {behind behind' : Text} (h : (Component.quoted items).text ++ behind =
    (Component.quoted items').text ++ behind') : items = items' ∧ behind = behind' := by
  have hitems : itemsText items ++ ['"'] ++ behind = itemsText items' ++ ['"'] ++ behind' :=
    (List.cons_eq_cons.mp h).2
  rw [List.append_assoc, List.append_assoc] at hitems
  exact items_inj hitems

theorem namespace_ne_quoted {space behind behind' : Text} (h : space ∈ namespaces) :
    '"' :: behind ≠ space ++ '/' :: behind' :=
  cons_ne_append (by decide) (quote_notMem_namespace h)

theorem bare_ne_quoted {name behind behind' : Text} (hquote : '"' ∉ name) :
    '"' :: behind ≠ name ++ '.' :: behind' :=
  cons_ne_append (by decide) hquote

/-- A quoted component is a part of the pattern unless it has an escaped newline. -/
theorem quoted_mem_iff : (Component.quoted items).text ++ '.' :: rest ∈ seedJobPattern.language ↔
    Unbroken items ∧ rest ∈ seedJobPattern.language := by
  constructor
  · intro h
    rcases mem_star_seq.mp h with hlast | ⟨x, hx, y, hy, hsplit⟩
    · obtain ⟨x, hx, y, hy, hsplit⟩ := mem_seq.mp hlast
      rcases mem_seedComponent.mp hx with ⟨space, hspace, job, -, -, hx⟩ | ⟨items', -, -, hx⟩
      · rw [hx, List.append_assoc] at hsplit
        exact absurd hsplit.symm (namespace_ne_quoted hspace)
      · rw [hx] at hsplit
        have hbehind := (quoted_inj hsplit).2
        rw [hbehind] at hy
        rcases mem_lineEnd.mp hy with hnil | hline
        · cases hnil
        · exact absurd (List.cons_eq_cons.mp hline).1 (by decide)
    · rcases mem_pathComponent.mp hx with ⟨first, -, -, hquote, hx⟩ | ⟨items', hitems, hx⟩
      · rw [hx, List.append_assoc] at hsplit
        exact absurd hsplit.symm (bare_ne_quoted hquote)
      · rw [hx, List.append_assoc] at hsplit
        obtain ⟨hsame, hbehind⟩ := quoted_inj hsplit
        have hy' : y = rest := (List.cons_eq_cons.mp hbehind).2
        exact ⟨hsame ▸ hitems, hy' ▸ hy⟩
  · intro ⟨hitems, h⟩
    have hin : (Component.quoted items).text ++ ['.'] ∈ pathComponent.language :=
      mem_pathComponent.mpr (Or.inr ⟨items, hitems, rfl⟩)
    have hgoes := seedJobPattern_cons hin h
    rw [List.append_assoc] at hgoes
    exact hgoes

/-- A name on one line, and perhaps the newline behind it. -/
theorem line_iff : (∃ name, name ≠ [] ∧ '\n' ∉ name ∧ ∃ y ∈ lineEnd.language, name ++ y = text) ↔
    text ≠ [] ∧ '\n' ∉ text.dropLast ∧ text ≠ ['\n'] := by
  constructor
  · intro ⟨name, hne, hline, y, hy, htext⟩
    rcases mem_lineEnd.mp hy with hnil | hnewline
    · rw [hnil, List.append_nil] at htext
      rw [← htext]
      refine ⟨hne, fun hmem => hline (List.mem_of_mem_dropLast hmem), fun heq => ?_⟩
      rw [heq] at hline
      exact hline List.mem_cons_self
    · rw [hnewline] at htext
      rw [← htext, List.dropLast_concat]
      refine ⟨List.append_ne_nil_of_left_ne_nil hne _, hline, fun heq => ?_⟩
      exact hne (List.append_left_eq_self.mp heq)
  · intro ⟨hne, hline, hnot⟩
    have hsplit : text.dropLast ++ [text.getLast hne] = text := List.dropLast_append_getLast hne
    by_cases hlast : text.getLast hne = '\n'
    · rw [hlast] at hsplit
      refine ⟨text.dropLast, fun hnil => ?_, hline, ['\n'], mem_lineEnd.mpr (Or.inr rfl), hsplit⟩
      rw [hnil] at hsplit
      exact hnot hsplit.symm
    · refine ⟨text, hne, fun hmem => ?_, [], mem_lineEnd.mpr (Or.inl rfl), List.append_nil _⟩
      rw [← hsplit] at hmem
      rcases List.mem_append.mp hmem with hmem | hmem
      · exact hline hmem
      · exact hlast (List.mem_singleton.mp hmem).symm

/-- The pattern matches a last component alone when it is a job on one line. -/
theorem final_mem_iff :
    last.text ∈ seedJobPattern.language ↔ last.IsJob ∧ last.OneLine := by
  cases last with
  | component c =>
    cases c with
    | bare name nonempty plain =>
      change name ∈ _ ↔ _
      have hslash : '/' ∉ name := fun h => (plain _ h).2.2 rfl
      have hquote : '"' ∉ name := fun h => (plain _ h).2.1 rfl
      have hdot : '.' ∉ name := fun h => (plain _ h).1 rfl
      have hcontent : '/' ∉ (Final.component (.bare name nonempty plain)).content := hslash
      refine iff_of_false (fun h => ?_) fun h => not_isJob hcontent h.1
      rcases mem_star_seq.mp h with hlast | ⟨x, hx, y, hy, hsplit⟩
      · obtain ⟨x, hx, y, -, hsplit⟩ := mem_seq.mp hlast
        rcases mem_seedComponent.mp hx with ⟨space, -, job, -, -, hx⟩ | ⟨items, -, -, hx⟩
        · rw [← hsplit, hx] at hslash
          simp at hslash
        · rw [← hsplit, hx, quoted_text] at hquote
          simp at hquote
      · rcases mem_pathComponent.mp hx with ⟨first, -, -, -, hx⟩ | ⟨items, -, hx⟩
        · rw [← hsplit, hx] at hdot
          simp at hdot
        · rw [← hsplit, hx] at hdot
          simp at hdot
    | quoted items =>
      change (Component.quoted items).text ∈ _ ↔ _ ∧ Unbroken items
      have hend : (Component.quoted items).text ++ [] = (Component.quoted items).text :=
        List.append_nil _
      constructor
      · intro h
        rcases mem_star_seq.mp h with hlast | ⟨x, hx, y, hy, hsplit⟩
        · obtain ⟨x, hx, y, -, hsplit⟩ := mem_seq.mp hlast
          rw [← hend] at hsplit
          rcases mem_seedComponent.mp hx with ⟨space, hspace, job, -, -, hx⟩ |
            ⟨items', hitems, hjob, hx⟩
          · rw [hx, List.append_assoc] at hsplit
            exact absurd hsplit.symm (namespace_ne_quoted hspace)
          · rw [hx] at hsplit
            have hsame := (quoted_inj hsplit).1
            rw [hsame] at hitems hjob
            exact ⟨hjob, hitems⟩
        · rw [← hend] at hsplit
          rcases mem_pathComponent.mp hx with ⟨first, -, -, hquote, hx⟩ | ⟨items', -, hx⟩
          · rw [hx, List.append_assoc] at hsplit
            exact absurd hsplit.symm (bare_ne_quoted hquote)
          · rw [hx, List.append_assoc] at hsplit
            exact absurd (quoted_inj hsplit).2 (List.cons_ne_nil _ _)
      · intro ⟨hjob, hitems⟩
        have hin := mem_seedComponent.mpr (Or.inr ⟨items, hitems, hjob, rfl⟩)
        exact mem_star_seq.mpr (Or.inl (mem_seq.mpr ⟨_, hin, [], mem_lineEnd.mpr (Or.inl rfl), hend⟩))
  | unquoted head rest plain =>
    have hslash : '/' ∉ head := fun h => (plain _ h).2.2 rfl
    have hquote : '"' ∉ head := fun h => (plain _ h).2.1 rfl
    have hdot : '.' ∉ head := fun h => (plain _ h).1 rfl
    have hunquoted (behind : Text) : '"' :: behind ≠ head ++ '/' :: rest :=
      cons_ne_append (by decide) hquote
    change head ++ '/' :: rest ∈ _ ↔ _ ∧ '\n' ∉ rest.dropLast ∧ rest ≠ ['\n']
    rw [isJob_iff rfl hslash, and_assoc, ← line_iff]
    constructor
    · intro h
      rcases mem_star_seq.mp h with hlast | ⟨x, hx, y, hy, hsplit⟩
      · obtain ⟨x, hx, y, hy, hsplit⟩ := mem_seq.mp hlast
        rcases mem_seedComponent.mp hx with ⟨space, hspace, name, hne, hline, hx⟩ |
          ⟨items, -, -, hx⟩
        · rw [hx, List.append_assoc] at hsplit
          obtain ⟨hsame, hname⟩ := append_cons_inj (slash_notMem_namespace hspace) hslash hsplit
          exact ⟨hsame ▸ hspace, name, hne, hline, y, hy, hname⟩
        · rw [hx] at hsplit
          exact absurd hsplit (hunquoted _)
      · rcases mem_pathComponent.mp hx with ⟨first, -, hfirst, -, hx⟩ | ⟨items, -, hx⟩
        · rw [hx, List.append_assoc] at hsplit
          exact absurd hsplit (append_cons_ne (by decide) hdot hfirst)
        · rw [hx] at hsplit
          exact absurd hsplit (hunquoted _)
    · intro ⟨hspace, name, hne, hline, y, hy, hname⟩
      have hin := mem_seedComponent.mpr (Or.inl ⟨head, hspace, name, hne, hline, rfl⟩)
      refine mem_star_seq.mpr (Or.inl (mem_seq.mpr ⟨_, hin, y, hy, ?_⟩))
      rw [List.append_assoc, ← hname]
      rfl

/-- A path does not begin with a dot. -/
theorem head_pathText (earlier : List Component) (last : Final) :
    (pathText earlier last.text).head? ≠ some '.' := by
  have hbare (name rest : Text) (hne : name ≠ []) (h : ∀ c ∈ name, c ≠ '.' ∧ c ≠ '"' ∧ c ≠ '/') :
      (name ++ rest).head? ≠ some '.' := by
    cases name with
    | nil => exact absurd rfl hne
    | cons c name =>
      intro heq
      exact (h c List.mem_cons_self).1 (Option.some.inj heq)
  have hquoted (rest : Text) : ('"' :: rest).head? ≠ some '.' := by
    intro heq
    exact absurd (Option.some.inj heq) (by decide)
  cases earlier with
  | nil =>
    cases last with
    | component c =>
      cases c with
      | bare name nonempty plain =>
        have hname := hbare name [] nonempty plain
        rw [List.append_nil] at hname
        exact hname
      | quoted items => exact hquoted _
    | unquoted head rest plain =>
      cases head with
      | nil =>
        intro heq
        exact absurd (Option.some.inj heq) (by decide)
      | cons c head => exact hbare (c :: head) _ (List.cons_ne_nil _ _) plain
  | cons c earlier =>
    cases c with
    | bare name nonempty plain => exact hbare name _ nonempty plain
    | quoted items => exact hquoted _

theorem pathText_mem_iff {earlier : List Component} :
    pathText earlier last.text ∈ seedJobPattern.language ↔
      (∀ c ∈ earlier, c.Unbroken) ∧ last.IsJob ∧ last.OneLine := by
  induction earlier with
  | nil =>
    refine final_mem_iff.trans ⟨fun h => ⟨?_, h⟩, fun h => h.2⟩
    intro c hc
    cases hc
  | cons c earlier ih =>
    rw [List.forall_mem_cons, and_assoc, ← ih]
    cases c with
    | bare name nonempty plain =>
      have hbare := bare_mem_iff nonempty plain (head_pathText earlier last)
      exact hbare.trans ⟨fun h => ⟨trivial, h⟩, fun h => h.2⟩
    | quoted items => exact quoted_mem_iff

end Building

section Recognition

variable {path : AttributePath}

theorem seedJob_iff : seedJob (some path.text) = true ↔
    (∀ c ∈ path.earlier, c.Unbroken) ∧ path.last.IsJob ∧ path.last.OneLine :=
  accepts_iff.trans pathText_mem_iff

theorem canonicalJob_iff : (canonicalJob path.text).isSome = true ↔
    (∀ c ∈ path.earlier, '/' ∉ c.text) ∧ path.last.IsJob ∧ path.last.Quoteless := by
  by_cases h : ∀ c ∈ path.earlier, '/' ∉ c.text
  · have hjob : (canonicalJob path.text).isSome = true ↔ _ := canonicalJob_isSome h
    exact hjob.trans ⟨fun hplain => ⟨h, hplain⟩, fun hplain => hplain.2⟩
  · push Not at h
    obtain ⟨c, hc, hslash⟩ := h
    have hnone : canonicalJob path.text = none := canonicalJob_eq_none hc hslash
    rw [hnone]
    exact iff_of_false Bool.false_ne_true fun hplain => hplain.1 c hc hslash

/-- The commands agree on a path, and about its last component, exactly when that is no
job or nothing in the path is read differently. -/
theorem recognisedAlike_iff (path : AttributePath) :
    path.RecognisedAlike ↔ (path.last.IsJob → path.Plain) := by
  unfold AttributePath.RecognisedAlike AttributePath.Plain
  rw [canonicalJob_iff, seedJob_iff]
  have hsplit : (∀ c ∈ path.earlier, '/' ∉ c.text ∧ c.Unbroken) ↔
      (∀ c ∈ path.earlier, '/' ∉ c.text) ∧ ∀ c ∈ path.earlier, c.Unbroken := by
    constructor
    · intro h
      exact ⟨fun c hc => (h c hc).1, fun c hc => (h c hc).2⟩
    · intro h c hc
      exact ⟨h.1 c hc, h.2 c hc⟩
  rw [hsplit]
  constructor
  · intro ⟨hsame, hjob⟩ hlast
    obtain ⟨hunbroken, -, hline⟩ := hjob.mpr hlast
    obtain ⟨hslash, -, hquote⟩ := hsame.mpr ⟨hunbroken, hlast, hline⟩
    exact ⟨⟨hslash, hunbroken⟩, hquote, hline⟩
  · intro h
    constructor
    · constructor
      · intro ⟨_, hlast, _⟩
        obtain ⟨⟨-, hunbroken⟩, -, hline⟩ := h hlast
        exact ⟨hunbroken, hlast, hline⟩
      · intro ⟨_, hlast, _⟩
        obtain ⟨⟨hslash, -⟩, hquote, -⟩ := h hlast
        exact ⟨hslash, hlast, hquote⟩
    · constructor
      · intro hjob
        exact hjob.2.1
      · intro hlast
        obtain ⟨⟨-, hunbroken⟩, -, hline⟩ := h hlast
        exact ⟨hunbroken, hlast, hline⟩

/-- A job below a component with a slash in quotes. -/
def slashedPath : AttributePath where
  earlier := [.bare "jobs".toList (by decide) (forall_mem_of_all (by decide)),
    .quoted [.plain '1' (by decide), .plain '/' (by decide), .plain '2' (by decide)]]
  last := .unquoted "nixos".toList "web".toList (forall_mem_of_all (by decide))

/-- The deploy command misses the job of `jobs."1/2".nixos/web`. -/
theorem slashed_not_recognisedAlike : ¬ slashedPath.RecognisedAlike := by
  intro h
  have hjob : slashedPath.last.IsJob := ⟨"nixos".toList, by decide, "web".toList, by decide, rfl⟩
  have hfound := h.1.mpr (h.2.mpr hjob)
  revert hfound
  decide

end Recognition

end Sower.Cli
