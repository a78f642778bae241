import Mathlib.Computability.Language

/-!
# Patterns over character classes

Regular expressions whose letters are classes of characters. Whether a pattern
matches is computed by derivatives and agrees with membership in its language.
-/

open Computability

universe u

variable {α : Type u}

/-- A regular expression over classes of letters. -/
inductive Pattern (α : Type u) where
  | nothing
  | epsilon
  | letter (p : α → Bool)
  | alt (left right : Pattern α)
  | seq (first second : Pattern α)
  | star (body : Pattern α)

namespace Pattern

section Definitions

/-- The texts that the pattern stands for. -/
def language : Pattern α → Language α
  | nothing => 0
  | epsilon => 1
  | letter p => {x | ∃ a, p a = true ∧ x = [a]}
  | alt left right => left.language + right.language
  | seq first second => first.language * second.language
  | star body => body.language∗

/-- The pattern matches the empty text. -/
def matchesEmpty : Pattern α → Bool
  | nothing => false
  | epsilon => true
  | letter _ => false
  | alt left right => left.matchesEmpty || right.matchesEmpty
  | seq first second => first.matchesEmpty && second.matchesEmpty
  | star _ => true

/-- What is left of the pattern behind a letter. -/
def deriv : Pattern α → α → Pattern α
  | nothing, _ => nothing
  | epsilon, _ => nothing
  | letter p, a => if p a then epsilon else nothing
  | alt left right, a => alt (left.deriv a) (right.deriv a)
  | seq first second, a =>
    if first.matchesEmpty then alt (seq (first.deriv a) second) (second.deriv a)
    else seq (first.deriv a) second
  | star body, a => seq (body.deriv a) (star body)

/-- The pattern matches the whole text. -/
def accepts : Pattern α → List α → Bool
  | pattern, [] => pattern.matchesEmpty
  | pattern, a :: text => (pattern.deriv a).accepts text

/-- One letter. -/
def exactly [DecidableEq α] (a : α) : Pattern α := letter (· = a)

/-- A fixed text. -/
def literal [DecidableEq α] : List α → Pattern α
  | [] => epsilon
  | a :: text => seq (exactly a) (literal text)

/-- One of several fixed texts. -/
def anyOf [DecidableEq α] : List (List α) → Pattern α
  | [] => nothing
  | text :: texts => alt (literal text) (anyOf texts)

/-- Once or more often. -/
def plus (body : Pattern α) : Pattern α := seq body (star body)

end Definitions

section Laws

variable {pattern first second : Pattern α} {a : α} {text : List α} {p : α → Bool}

theorem matchesEmpty_iff : pattern.matchesEmpty = true ↔ [] ∈ pattern.language := by
  induction pattern with
  | nothing => simp [matchesEmpty, language]
  | epsilon => simp [matchesEmpty, language]
  | letter p =>
    refine iff_of_false Bool.false_ne_true ?_
    intro ⟨a, _, hnil⟩
    cases hnil
  | alt left right ihl ihr =>
    unfold matchesEmpty language
    rw [Bool.or_eq_true, ihl, ihr, Language.mem_add]
  | seq first second ihf ihs =>
    unfold matchesEmpty language
    rw [Bool.and_eq_true, ihf, ihs, Language.mem_mul]
    constructor
    · intro h
      exact ⟨[], h.1, [], h.2, rfl⟩
    · intro ⟨x, hx, y, hy, hnil⟩
      obtain ⟨hxnil, hynil⟩ := List.append_eq_nil_iff.mp hnil
      rw [hxnil] at hx
      rw [hynil] at hy
      exact ⟨hx, hy⟩
  | star body _ =>
    unfold matchesEmpty language
    exact iff_of_true rfl (Language.nil_mem_kstar _)

theorem mem_letter : text ∈ (letter p).language ↔ ∃ a, p a = true ∧ text = [a] := Iff.rfl

/-- A text of a product begins in its first factor, unless that one is empty. -/
theorem cons_mem_mul {l m : Language α} : a :: text ∈ l * m ↔
    (∃ x y, x ++ y = text ∧ a :: x ∈ l ∧ y ∈ m) ∨ [] ∈ l ∧ a :: text ∈ m := by
  rw [Language.mem_mul]
  constructor
  · intro ⟨x, hx, y, hy, hsplit⟩
    cases x with
    | nil =>
      rw [List.nil_append] at hsplit
      rw [hsplit] at hy
      exact Or.inr ⟨hx, hy⟩
    | cons b x =>
      rw [List.cons_append, List.cons_eq_cons] at hsplit
      rw [hsplit.1] at hx
      exact Or.inl ⟨x, y, hsplit.2, hx, hy⟩
  · intro h
    cases h with
    | inl h =>
      obtain ⟨x, y, hsplit, hx, hy⟩ := h
      exact ⟨a :: x, hx, y, hy, congrArg (a :: ·) hsplit⟩
    | inr h => exact ⟨[], h.1, a :: text, h.2, rfl⟩

/-- A text that is not empty begins with a part of its star. -/
theorem cons_mem_kstar {l : Language α} :
    a :: text ∈ l∗ ↔ ∃ x y, x ++ y = text ∧ a :: x ∈ l ∧ y ∈ l∗ := by
  constructor
  · intro h
    obtain ⟨parts, hparts, hmem⟩ := Language.mem_kstar_iff_exists_nonempty.mp h
    cases parts with
    | nil => cases hparts
    | cons part parts =>
      obtain ⟨hpart, hne⟩ := hmem part List.mem_cons_self
      cases part with
      | nil => exact absurd rfl hne
      | cons b x =>
        rw [List.flatten_cons, List.cons_append, List.cons_eq_cons] at hparts
        rw [← hparts.1] at hpart
        refine ⟨x, parts.flatten, hparts.2.symm, hpart, ?_⟩
        exact Language.join_mem_kstar fun y hy => (hmem y (List.mem_cons_of_mem _ hy)).1
  · intro ⟨x, y, hsplit, hx, hy⟩
    have hcons : a :: text = (a :: x) ++ y := congrArg (a :: ·) hsplit.symm
    rw [hcons, ← Language.one_add_self_mul_kstar_eq_kstar]
    exact Or.inr (Language.append_mem_mul hx hy)

theorem mem_deriv : text ∈ (pattern.deriv a).language ↔ a :: text ∈ pattern.language := by
  induction pattern generalizing text with
  | nothing => exact Iff.rfl
  | epsilon => exact iff_of_false (Language.notMem_zero _) (by simp [language])
  | letter p =>
    unfold deriv
    rw [mem_letter]
    split
    · rename_i ha
      refine (Language.mem_one _).trans ⟨fun h => ⟨a, ha, congrArg (a :: ·) h⟩, ?_⟩
      intro ⟨b, _, heq⟩
      rw [List.cons_eq_cons] at heq
      exact heq.2
    · rename_i ha
      refine iff_of_false (Language.notMem_zero _) ?_
      intro ⟨b, hb, heq⟩
      rw [List.cons_eq_cons] at heq
      rw [heq.1] at ha
      exact ha hb
  | alt left right ihl ihr => exact or_congr ihl ihr
  | seq first second ihf ihs =>
    have hfirst : text ∈ (first.deriv a).language * second.language ↔
        ∃ x y, x ++ y = text ∧ a :: x ∈ first.language ∧ y ∈ second.language := by
      rw [Language.mem_mul]
      constructor
      · intro ⟨x, hx, y, hy, hsplit⟩
        exact ⟨x, y, hsplit, ihf.mp hx, hy⟩
      · intro ⟨x, y, hsplit, hx, hy⟩
        exact ⟨x, ihf.mpr hx, y, hy, hsplit⟩
    have hcons : a :: text ∈ (seq first second).language ↔ _ := cons_mem_mul
    have hderiv : (seq first second).deriv a = if first.matchesEmpty
        then alt (seq (first.deriv a) second) (second.deriv a)
        else seq (first.deriv a) second := rfl
    rw [hcons, ← hfirst, ← ihs, ← matchesEmpty_iff, hderiv]
    split
    · rename_i hempty
      rw [hempty]
      simp only [true_and]
      rfl
    · rename_i hempty
      simp only [hempty, Bool.false_eq_true, false_and, or_false]
      rfl
  | star body ih =>
    have hcons : a :: text ∈ (star body).language ↔ _ := cons_mem_kstar
    rw [hcons]
    have hseq : text ∈ ((star body).deriv a).language ↔ _ := Language.mem_mul
    rw [hseq]
    constructor
    · intro ⟨x, hx, y, hy, hsplit⟩
      exact ⟨x, y, hsplit, ih.mp hx, hy⟩
    · intro ⟨x, y, hsplit, hx, hy⟩
      exact ⟨x, ih.mpr hx, y, hy, hsplit⟩

/-- Matching is membership in the language. -/
theorem accepts_iff : pattern.accepts text = true ↔ text ∈ pattern.language := by
  induction text generalizing pattern with
  | nil => exact matchesEmpty_iff
  | cons a text ih => exact ih.trans mem_deriv

theorem mem_seq :
    text ∈ (seq first second).language ↔
      ∃ x ∈ first.language, ∃ y ∈ second.language, x ++ y = text := Language.mem_mul

theorem mem_alt :
    text ∈ (alt first second).language ↔ text ∈ first.language ∨ text ∈ second.language := Iff.rfl

section Fixed

variable [DecidableEq α]

@[simp] theorem mem_exactly : text ∈ (exactly a).language ↔ text = [a] := by
  unfold exactly
  rw [mem_letter]
  simp

@[simp] theorem mem_literal {fixed : List α} : text ∈ (literal fixed).language ↔ text = fixed := by
  induction fixed generalizing text with
  | nil => exact Language.mem_one _
  | cons a fixed ih =>
    unfold literal
    rw [mem_seq]
    simp [ih, eq_comm]

@[simp] theorem mem_anyOf {texts : List (List α)} :
    text ∈ (anyOf texts).language ↔ text ∈ texts := by
  induction texts with
  | nil => simp [anyOf, language]
  | cons fixed texts ih =>
    unfold anyOf
    rw [mem_alt, mem_literal, ih, List.mem_cons]

end Fixed

/-- Letters of a class, any number of them. -/
theorem mem_star_letter : text ∈ (star (letter p)).language ↔ ∀ a ∈ text, p a = true := by
  induction text with
  | nil => exact iff_of_true (Language.nil_mem_kstar _) (by simp)
  | cons a text ih =>
    have hcons : a :: text ∈ (star (letter p)).language ↔ _ := cons_mem_kstar
    rw [hcons, List.forall_mem_cons, ← ih]
    constructor
    · intro ⟨x, y, hsplit, ⟨b, hb, hx⟩, hy⟩
      rw [List.cons_eq_cons] at hx
      rw [hx.2, List.nil_append] at hsplit
      rw [← hx.1] at hb
      rw [hsplit] at hy
      exact ⟨hb, hy⟩
    · intro h
      exact ⟨[], text, rfl, ⟨a, h.1, rfl⟩, h.2⟩

/-- Letters of a class, at least one of them. -/
theorem mem_plus_letter :
    text ∈ (plus (letter p)).language ↔ text ≠ [] ∧ ∀ a ∈ text, p a = true := by
  unfold plus
  rw [mem_seq]
  constructor
  · intro ⟨x, ⟨a, ha, hx⟩, y, hy, hsplit⟩
    rw [hx] at hsplit
    rw [← hsplit]
    refine ⟨by simp, ?_⟩
    rw [List.singleton_append, List.forall_mem_cons]
    exact ⟨ha, mem_star_letter.mp hy⟩
  · intro ⟨hne, hall⟩
    cases text with
    | nil => exact absurd rfl hne
    | cons a text =>
      rw [List.forall_mem_cons] at hall
      exact ⟨[a], ⟨a, hall.1, rfl⟩, text, mem_star_letter.mpr hall.2, rfl⟩

/-- A text behind any number of parts is the rest alone or begins with a part. -/
theorem mem_star_seq {body : Pattern α} :
    text ∈ (seq (star body) second).language ↔ text ∈ second.language ∨
      ∃ x ∈ body.language, ∃ y ∈ (seq (star body) second).language, x ++ y = text := by
  have hunfold : (seq (star body) second).language =
      second.language + body.language * (seq (star body) second).language := by
    change body.language∗ * second.language = _
    conv_lhs => rw [← Language.one_add_self_mul_kstar_eq_kstar]
    rw [add_mul, one_mul, mul_assoc]
    rfl
  conv_lhs => rw [hunfold]
  rw [Language.mem_add, Language.mem_mul]

end Laws

end Pattern
