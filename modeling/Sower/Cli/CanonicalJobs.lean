import Sower.Cli.SeedJobs

/-!
# Canonical jobs of a deployment

`canonical_job` cuts the attribute at its first slash and scans what stands before it. It
finds the job of a path unless a quoted component before it has a slash, or the name has
a quote.
-/

namespace Sower.Cli

open Splitting Sower.Deploy

section Scanning

variable {text rest front : Text} {items : List Item} {c : Component}

theorem walk_unquoted (h : ∀ c ∈ text, c ≠ '.' ∧ c ≠ '"' ∧ c ≠ '/') :
    walk Scanner.step {} text = some {} := by
  induction text with
  | nil => rfl
  | cons c text ih =>
    rw [List.forall_mem_cons] at h
    obtain ⟨⟨hdot, hquote, -⟩, hrest⟩ := h
    have hstep : Scanner.step {} c = ({}, false) := by simp [Scanner.step, hdot, hquote]
    rw [walk, hstep]
    exact ih hrest

theorem walk_items (items : List Item) :
    walk Scanner.step { quoted := true } (itemsText items) = some { quoted := true } := by
  induction items with
  | nil => rfl
  | cons item items ih =>
    have hitem : walk Scanner.step { quoted := true } item.text = some { quoted := true } := by
      cases item with
      | plain c hc => simp [Item.text, walk, Scanner.step, hc]
      | escaped c => simp [Item.text, walk, Scanner.step]
    exact (walk_append hitem).trans ih

/-- Behind a whole component the scanner is where it began. -/
theorem walk_component (c : Component) : walk Scanner.step {} c.text = some {} := by
  cases c with
  | bare name _ plain => exact walk_unquoted plain
  | quoted items => exact walk_append (walk_items items)

theorem lastPiece_pathText (earlier : List Component) (rest : Text) :
    lastPiece Scanner.step {} (pathText earlier rest) = lastPiece Scanner.step {} rest := by
  induction earlier with
  | nil => rfl
  | cons c earlier ih => exact (lastPiece_append (walk_component c) rfl).trans ih

theorem pathText_append (earlier : List Component) (front rest : Text) :
    pathText earlier (front ++ rest) = pathText earlier front ++ rest := by
  induction earlier with
  | nil => rfl
  | cons c earlier ih =>
    change c.text ++ '.' :: pathText earlier (front ++ rest) = _
    rw [ih]
    have hassoc := List.append_assoc c.text ('.' :: pathText earlier front) rest
    exact hassoc.symm

theorem slash_notMem_pathText {earlier : List Component} (h : ∀ c ∈ earlier, '/' ∉ c.text)
    (hrest : '/' ∉ rest) : '/' ∉ pathText earlier rest := by
  induction earlier with
  | nil => exact hrest
  | cons c earlier ih =>
    rw [List.forall_mem_cons] at h
    have hlater := ih h.2
    change '/' ∉ c.text ++ '.' :: pathText earlier rest
    simp [h.1, hlater]

/-- The components before the slash are all but the last one of what it cuts off. -/
theorem canonicalJob_pathText {earlier : List Component} (h : ∀ c ∈ earlier, '/' ∉ c.text)
    (hfront : '/' ∉ front) (hwalk : (walk Scanner.step {} front).isSome = true) :
    canonicalJob (pathText earlier (front ++ '/' :: rest)) =
      (jobParts front rest).bind fun (space, name) =>
        if name ≠ [] ∧ space ∈ namespaces then some (space, name) else none := by
  obtain ⟨s, hs⟩ := Option.isSome_iff_exists.mp hwalk
  unfold canonicalJob
  rw [pathText_append, splitOnce_append (slash_notMem_pathText h hfront), Option.bind_some]
  dsimp only
  rw [lastPiece_pathText, lastPiece_of_walk hs]

end Scanning

section Deploying

variable {earlier : List Component} {last : Final} {front rest : Text} {items : List Item}

theorem slash_notMem_namespace {space : Text} (h : space ∈ namespaces) : '/' ∉ space := by
  revert space
  decide

theorem quote_notMem_namespace {space : Text} (h : space ∈ namespaces) : '"' ∉ space := by
  revert space
  decide

/-- The first slash of a job ends its namespace. -/
theorem isJob_iff (hcontent : last.content = front ++ '/' :: rest) (hfront : '/' ∉ front) :
    last.IsJob ↔ front ∈ namespaces ∧ rest ≠ [] := by
  constructor
  · intro ⟨space, hspace, name, hname, heq⟩
    have hsplit := splitOnce_append (slash_notMem_namespace hspace) name
    rw [← heq, hcontent, splitOnce_append hfront] at hsplit
    cases hsplit
    exact ⟨hspace, hname⟩
  · intro ⟨hspace, hname⟩
    exact ⟨front, hspace, rest, hname, hcontent⟩

theorem not_isJob (h : '/' ∉ last.content) : ¬ last.IsJob := by
  intro ⟨space, _, name, _, heq⟩
  rw [heq] at h
  exact h (List.mem_append_right _ List.mem_cons_self)

theorem walk_isSome_of_append {text : Text} {s : Scanner}
    (h : (walk Scanner.step s (text ++ rest)).isSome = true) :
    (walk Scanner.step s text).isSome = true := by
  induction text generalizing s with
  | nil => rfl
  | cons c text ih =>
    rw [List.cons_append, walk] at h
    rw [walk]
    dsimp only at h ⊢
    split at h
    · cases h
    · rename_i hkeep
      rw [if_neg hkeep]
      exact ih h

/-- Reading `front` from the start makes no cut when a component begins with it. -/
theorem walk_isSome_of_component {c : Component} (h : c.text = front ++ rest) :
    (walk Scanner.step {} front).isSome = true := by
  have hwhole : (walk Scanner.step {} (front ++ rest)).isSome = true := by
    rw [← h, walk_component]
    rfl
  exact walk_isSome_of_append hwhole

theorem exists_slash {text : Text} (h : '/' ∈ text) :
    ∃ front rest, text = front ++ '/' :: rest ∧ '/' ∉ front := by
  obtain ⟨front, rest, htext, hfront⟩ := List.eq_append_cons_of_mem h
  exact ⟨front, rest, htext, hfront⟩

/-- The first of the components that have a slash. -/
theorem exists_first {c : Component} (h : c ∈ earlier) (hslash : '/' ∈ c.text) :
    ∃ before first after, earlier = before ++ first :: after ∧ '/' ∈ first.text ∧
      ∀ d ∈ before, '/' ∉ d.text := by
  induction earlier with
  | nil => cases h
  | cons d earlier ih =>
    by_cases hd : '/' ∈ d.text
    · exact ⟨[], d, earlier, rfl, hd, by simp⟩
    · cases h with
      | head => exact absurd hslash hd
      | tail _ hmem =>
        obtain ⟨before, first, after, heq, hfirst, hbefore⟩ := ih hmem
        refine ⟨d :: before, first, after, congrArg (d :: ·) heq, hfirst, ?_⟩
        rw [List.forall_mem_cons]
        exact ⟨hd, hbefore⟩

/-- The name of a quoted component is stripped of the closing quote. -/
theorem jobParts_quoted (front rest : Text) :
    jobParts ('"' :: front) (rest ++ ['"']) = if '"' ∈ rest then none else some (front, rest) := by
  have hopen : stripPrefix '"' ('"' :: front) = some front := by
    rw [stripPrefix, if_pos rfl]
  have hclose : stripSuffix '"' (rest ++ ['"']) = some rest := by
    unfold stripSuffix
    rw [List.getLast?_concat, if_pos rfl, List.dropLast_concat]
  unfold jobParts
  rw [hopen]
  dsimp only
  rw [hclose]
  rfl

/-- Behind components without a slash the deploy command finds the jobs whose names have
no quote. -/
theorem canonicalJob_isSome (h : ∀ c ∈ earlier, '/' ∉ c.text) :
    (canonicalJob (pathText earlier last.text)).isSome = true ↔ last.IsJob ∧ last.Quoteless := by
  have hnone (hlast : '/' ∉ last.text) (hcontent : '/' ∉ last.content) :
      (canonicalJob (pathText earlier last.text)).isSome = true ↔ last.IsJob ∧ last.Quoteless := by
    have habsent := splitOnce_eq_none (slash_notMem_pathText h hlast)
    refine iff_of_false ?_ fun hjob => not_isJob hcontent hjob.1
    rw [canonicalJob, habsent]
    exact Bool.false_ne_true
  cases last with
  | unquoted head rest plain =>
    have hhead : '/' ∉ head := fun hmem => (plain '/' hmem).2.2 rfl
    have hwalk : (walk Scanner.step {} head).isSome = true := by
      rw [walk_unquoted plain]
      rfl
    have hparts : jobParts head rest = some (head, rest) := by
      unfold jobParts
      cases head with
      | nil => rfl
      | cons c head =>
        have hc : c ≠ '"' := (plain c List.mem_cons_self).2.1
        rw [stripPrefix, if_neg hc]
    have hjob : canonicalJob (pathText earlier (head ++ '/' :: rest)) = _ :=
      canonicalJob_pathText h hhead hwalk
    rw [hparts] at hjob
    have htext : (Final.unquoted head rest plain).text = head ++ '/' :: rest := rfl
    rw [htext, hjob, isJob_iff rfl hhead]
    simp only [Option.bind_some]
    split
    · rename_i hname
      exact iff_of_true rfl ⟨⟨hname.2, hname.1⟩, trivial⟩
    · rename_i hname
      exact iff_of_false Bool.false_ne_true fun hjob => hname ⟨hjob.1.2, hjob.1.1⟩
  | component c =>
    cases c with
    | bare name nonempty plain =>
      have hname : '/' ∉ name := fun hmem => (plain '/' hmem).2.2 rfl
      exact hnone hname hname
    | quoted items =>
      by_cases hslash : '/' ∈ itemsText items
      · obtain ⟨front, rest, hitems, hfront⟩ := exists_slash hslash
        have htext : (Final.component (.quoted items)).text =
            ('"' :: front) ++ '/' :: (rest ++ ['"']) := by
          change '"' :: (itemsText items ++ ['"']) = _
          rw [hitems]
          simp
        have hopen : '/' ∉ '"' :: front := by simp [hfront]
        have hwalk := walk_isSome_of_component (c := .quoted items) htext
        have hcontent : (Final.component (.quoted items)).content = front ++ '/' :: rest := hitems
        rw [htext, canonicalJob_pathText h hopen hwalk, jobParts_quoted, isJob_iff hcontent hfront]
        change _ ↔ _ ∧ '"' ∉ itemsText items
        rw [hitems]
        by_cases hquote : '"' ∈ rest
        · rw [if_pos hquote]
          refine iff_of_false Bool.false_ne_true fun hplain => hplain.2 ?_
          exact List.mem_append_right _ (List.mem_cons_of_mem _ hquote)
        · rw [if_neg hquote]
          simp only [Option.bind_some]
          split
          · rename_i hname
            refine iff_of_true rfl ⟨⟨hname.2, hname.1⟩, ?_⟩
            have hspace := quote_notMem_namespace hname.2
            simp [hspace, hquote]
          · rename_i hname
            exact iff_of_false Bool.false_ne_true fun hjob => hname ⟨hjob.1.2, hjob.1.1⟩
      · have htext : '/' ∉ (Final.component (.quoted items)).text := by
          change '/' ∉ '"' :: (itemsText items ++ ['"'])
          simp [hslash]
        exact hnone htext hslash

/-- Behind a quoted component with a slash the deploy command finds no job. -/
theorem canonicalJob_eq_none {c : Component} (h : c ∈ earlier) (hslash : '/' ∈ c.text) :
    canonicalJob (pathText earlier rest) = none := by
  obtain ⟨before, first, after, hearlier, hfirst, hbefore⟩ := exists_first h hslash
  cases first with
  | bare name nonempty plain => exact absurd rfl (plain '/' hfirst).2.2
  | quoted items =>
    have hitems : '/' ∈ itemsText items := by
      change '/' ∈ '"' :: (itemsText items ++ ['"']) at hfirst
      simpa using hfirst
    obtain ⟨front, behind, hsplit, hfront⟩ := exists_slash hitems
    have hopen : '/' ∉ '"' :: front := by simp [hfront]
    have htext : (Component.quoted items).text = ('"' :: front) ++ '/' :: (behind ++ ['"']) := by
      change '"' :: (itemsText items ++ ['"']) = _
      rw [hsplit]
      simp
    have hpath : pathText earlier rest = pathText before (('"' :: front) ++
        '/' :: (behind ++ '"' :: '.' :: pathText after rest)) := by
      have hcut : pathText earlier rest = pathText before
          ((Component.quoted items).text ++ '.' :: pathText after rest) := by
        rw [hearlier]
        exact List.foldr_append ..
      rw [hcut, htext]
      simp
    rw [hpath, canonicalJob_pathText hbefore hopen (walk_isSome_of_component htext)]
    -- The closing quote of the component stands within the name.
    have hparts : jobParts ('"' :: front) (behind ++ '"' :: '.' :: pathText after rest) = none := by
      have hquote : '"' ∈ (behind ++ '"' :: '.' :: pathText after rest).dropLast := by
        rw [List.dropLast_append_of_ne_nil (List.cons_ne_nil _ _),
          List.dropLast_cons_of_ne_nil (List.cons_ne_nil _ _)]
        exact List.mem_append_right _ List.mem_cons_self
      unfold jobParts stripSuffix
      rw [stripPrefix, if_pos rfl]
      dsimp only
      split
      · rw [Option.bind_some, if_pos hquote]
      · rfl
    rw [hparts]
    rfl

end Deploying

end Sower.Cli
