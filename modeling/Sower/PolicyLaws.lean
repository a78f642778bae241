import Sower.PolicyMeaning

/-!
# Laws of the evaluators

The evaluators see a policy as a set of rules: neither their order nor their number
matters, more rules permit more, and the evaluators agree with each other. A window that
cannot be read makes an evaluation raise; which rules are read is part of the laws.
-/

namespace Search

variable {ε α β γ : Type}

/-- Searches with the same answers for every element have the same answer. -/
theorem findSomeM?_congr {f g : α → Except ε (Option β)} {xs : List α}
    (h : ∀ x ∈ xs, ∀ o, f x = .ok o ↔ g x = .ok o) (o : Option β) :
    xs.findSomeM? f = .ok o ↔ xs.findSomeM? g = .ok o := by
  induction xs with
  | nil => exact Iff.rfl
  | cons x rest ih =>
    obtain ⟨hx, hrest⟩ := List.forall_mem_cons.mp h
    have htail := ih hrest
    rw [List.findSomeM?, List.findSomeM?]
    cases hf : f x with
    | error e =>
      cases hg : g x with
      | error e' =>
        constructor
        · intro hfalse
          cases hfalse
        · intro hfalse
          cases hfalse
      | ok found =>
        have hsame := (hx found).mpr hg
        rw [hf] at hsame
        cases hsame
    | ok found =>
      rw [(hx found).mp hf]
      cases found with
      | none => exact htail
      | some b => exact Iff.rfl

/-- A search that hits at least where another one does hits if that one does. -/
theorem findSomeM?_mono {f : α → Except ε (Option β)} {g : α → Except ε (Option γ)} {xs : List α}
    (h : ∀ x ∈ xs, ∀ o, f x = .ok o → ∃ o', g x = .ok o' ∧ (o' = none → o = none))
    {o : Option β} (hf : xs.findSomeM? f = .ok o) :
    ∃ o', xs.findSomeM? g = .ok o' ∧ (o' = none → o = none) := by
  induction xs with
  | nil =>
    refine ⟨none, rfl, fun _ => ?_⟩
    rw [List.findSomeM?] at hf
    exact (Except.ok.inj hf).symm
  | cons x rest ih =>
    obtain ⟨hx, hrest⟩ := List.forall_mem_cons.mp h
    rw [List.findSomeM?] at hf ⊢
    cases hfound : f x with
    | error e =>
      rw [hfound] at hf
      cases hf
    | ok found =>
      obtain ⟨found', hg, hmore⟩ := hx found hfound
      rw [hfound] at hf
      rw [hg]
      cases found' with
      | some c => exact ⟨some c, rfl, fun hnone => by cases hnone⟩
      | none =>
        rw [hmore rfl] at hf
        exact ih hrest hf

end Search

namespace Sower.Policy

open Sower.Calendar

section Verdicts

/-- The action an answer allows or offers for confirmation. -/
def Decision.action : Decision → Option Action
  | .allow action => some action
  | .confirm action => some action
  | .deny => none

variable {tzdb : TimeZoneDatabase} {trigger : Trigger} {now : DateTime} {timezone : Option String}
  {rules rules' : List Rule} {action : Action}

variable (tzdb trigger now timezone) in
/-- The rule is in force for the action and the trigger. -/
def Matches (action : Action) (rule : Rule) : Prop :=
  ruleMatches tzdb action trigger now timezone rule = .ok true

variable (tzdb trigger now timezone) in
/-- It can be told whether the rule is in force. -/
def Tested (action : Action) (rule : Rule) : Prop :=
  Matches tzdb trigger now timezone action rule ∨
    ruleMatches tzdb action trigger now timezone rule = .ok false

open Classical in
variable (tzdb trigger now timezone) in
/-- What a set of rules says about an action. -/
noncomputable def verdict (rules : List Rule) (action : Action) : Option Decision :=
  if ∃ rule ∈ rules, Matches tzdb trigger now timezone action rule then
    if ∃ rule ∈ rules, Matches tzdb trigger now timezone action rule ∧ rule.confirm = true then
      some (.confirm action)
    else some (.allow action)
  else none

theorem verdict_action {decision : Decision}
    (h : verdict tzdb trigger now timezone rules action = some decision) :
    decision.action = some action := by
  unfold verdict at h
  split at h
  · split at h
    · cases h
      rfl
    · cases h
      rfl
  · cases h

theorem verdict_none : verdict tzdb trigger now timezone rules action = none ↔
    ∀ rule ∈ rules, ¬ Matches tzdb trigger now timezone action rule := by
  unfold verdict
  split
  · rename_i hmatch
    obtain ⟨rule, hrule, hmatches⟩ := hmatch
    constructor
    · intro h
      split at h
      · cases h
      · cases h
    · intro h
      exact absurd hmatches (h rule hrule)
  · rename_i hnone
    refine ⟨fun _ rule hrule hmatches => hnone ⟨rule, hrule, hmatches⟩, fun _ => rfl⟩

/-- The verdict depends on the set of the rules. -/
theorem verdict_congr (h : ∀ rule, rule ∈ rules ↔ rule ∈ rules') :
    verdict tzdb trigger now timezone rules action =
      verdict tzdb trigger now timezone rules' action := by
  have hmatch : (∃ rule ∈ rules, Matches tzdb trigger now timezone action rule) ↔
      ∃ rule ∈ rules', Matches tzdb trigger now timezone action rule := by simp only [h]
  have hconfirm :
      (∃ rule ∈ rules, Matches tzdb trigger now timezone action rule ∧ rule.confirm = true) ↔
        ∃ rule ∈ rules', Matches tzdb trigger now timezone action rule ∧ rule.confirm = true := by
    simp only [h]
  classical exact if_congr hmatch (if_congr hconfirm rfl rfl) rfl

/-- Answering for an action reads every rule, and answers with the verdict of all. -/
theorem decideAction_ok {answer : Option Decision} :
    decideAction tzdb rules trigger now timezone action = .ok answer ↔
      (∀ rule ∈ rules, Tested tzdb trigger now timezone action rule) ∧
        answer = verdict tzdb trigger now timezone rules action := by
  have hanswer {found : List Rule}
      (hhits : Search.hits (ruleMatches tzdb action trigger now timezone) rules = .ok found) :
      decideAction tzdb rules trigger now timezone action =
        .ok (verdict tzdb trigger now timezone rules action) := by
    obtain ⟨_, hmem⟩ := Search.hits_eq_ok hhits
    unfold decideAction verdict
    rw [hhits]
    cases found with
    | nil =>
      have hnone : ¬ ∃ rule ∈ rules, Matches tzdb trigger now timezone action rule := by
        intro hmatch
        obtain ⟨rule, hrule, hmatches⟩ := hmatch
        exact absurd ((hmem rule).mpr ⟨hrule, hmatches⟩) List.not_mem_nil
      rw [if_neg hnone]
      rfl
    | cons first rest =>
      have hsome : ∃ rule ∈ rules, Matches tzdb trigger now timezone action rule := by
        obtain ⟨hrule, hmatches⟩ := (hmem first).mp List.mem_cons_self
        exact ⟨first, hrule, hmatches⟩
      have hconfirm : (first :: rest).any Rule.confirm = true ↔
          ∃ rule ∈ rules, Matches tzdb trigger now timezone action rule ∧ rule.confirm = true := by
        rw [List.any_eq_true]
        constructor
        · intro h
          obtain ⟨rule, hfound, hasks⟩ := h
          obtain ⟨hrule, hmatches⟩ := (hmem rule).mp hfound
          exact ⟨rule, hrule, hmatches, hasks⟩
        · intro h
          obtain ⟨rule, hrule, hmatches, hasks⟩ := h
          exact ⟨rule, (hmem rule).mpr ⟨hrule, hmatches⟩, hasks⟩
      rw [if_pos hsome]
      dsimp only [bind, Except.bind]
      by_cases hasks : (first :: rest).any Rule.confirm = true
      · rw [if_pos hasks, if_pos (hconfirm.mp hasks)]
        rfl
      · rw [if_neg hasks, if_neg (fun h => hasks (hconfirm.mpr h))]
        rfl
  constructor
  · intro h
    cases hhits : Search.hits (ruleMatches tzdb action trigger now timezone) rules with
    | error e =>
      unfold decideAction at h
      rw [hhits] at h
      cases h
    | ok found =>
      rw [hanswer hhits] at h
      exact ⟨(Search.hits_eq_ok hhits).1, (Except.ok.inj h).symm⟩
  · intro h
    obtain ⟨htested, hverdict⟩ := h
    obtain ⟨found, hhits⟩ := Search.exists_hits htested
    rw [hanswer hhits, hverdict]

end Verdicts

section Rules

variable {tzdb : TimeZoneDatabase} {rules rules' : Rules} {trigger : Trigger} {now : DateTime}
  {seedType timezone : Option String} {action : Action} {decision : Decision}

/-- The rules that a policy was given. -/
def Rules.given (rules : Rules) : List Rule := (normalizeRules rules).getD []

/-- Two policies have the same rules, in any order and number. -/
def SameRules (rules rules' : Rules) : Prop := ∀ rule, rule ∈ rules.given ↔ rule ∈ rules'.given

/-- One policy has a rule more than the other, which has one. -/
def Adds (rule : Rule) (rules rules' : Rules) : Prop :=
  rules.given ≠ [] ∧ ∀ r, r ∈ rules'.given ↔ r = rule ∨ r ∈ rules.given

theorem effective_of_given (h : rules.given ≠ []) : rules.effective = rules.given := by
  unfold Rules.effective Rules.given at *
  cases hrules : normalizeRules rules with
  | none =>
    rw [hrules] at h
    exact absurd rfl h
  | some list =>
    rw [hrules] at h
    cases list with
    | nil => exact absurd rfl h
    | cons rule rest => rfl

theorem effective_of_nothing (h : rules.given = []) : rules.effective = defaultPolicy := by
  unfold Rules.effective Rules.given at *
  cases hrules : normalizeRules rules with
  | none => rfl
  | some list =>
    rw [hrules] at h
    have hnil : list = [] := h
    rw [hnil]
    rfl

/-- Policies with the same rules evaluate the same rules. -/
theorem SameRules.effective (h : SameRules rules rules') (rule : Rule) :
    rule ∈ rules.effective ↔ rule ∈ rules'.effective := by
  by_cases hnothing : rules.given = []
  · have hnothing' : rules'.given = [] := by
      apply List.eq_nil_iff_forall_not_mem.mpr
      intro r hr
      have hmem := (h r).mpr hr
      rw [hnothing] at hmem
      exact absurd hmem List.not_mem_nil
    rw [effective_of_nothing hnothing, effective_of_nothing hnothing']
  · have hgiven' : rules'.given ≠ [] := by
      intro hnothing'
      apply hnothing
      apply List.eq_nil_iff_forall_not_mem.mpr
      intro r hr
      have hmem := (h r).mp hr
      rw [hnothing'] at hmem
      exact absurd hmem List.not_mem_nil
    rw [effective_of_given hnothing, effective_of_given hgiven']
    exact h rule

theorem Adds.effective {added : Rule} (h : Adds added rules rules') (rule : Rule) :
    rule ∈ rules'.effective ↔ rule = added ∨ rule ∈ rules.effective := by
  obtain ⟨hgiven, hmem⟩ := h
  have hgiven' : rules'.given ≠ [] := by
    intro hnothing
    have hadded := (hmem added).mpr (Or.inl rfl)
    rw [hnothing] at hadded
    exact absurd hadded List.not_mem_nil
  rw [effective_of_given hgiven, effective_of_given hgiven']
  exact hmem rule

/-- The answers for actions decide the answer of an evaluation. -/
theorem evaluateActions_ok {actions : List Action} :
    evaluateActions tzdb rules actions trigger now seedType timezone = .ok decision ↔
      ∃ answer, (actions.filter (· ∈ actionsBySeedType seedType)).findSomeM?
          (decideAction tzdb rules.effective trigger now timezone) = .ok answer ∧
        answer.getD .deny = decision := by
  unfold evaluateActions
  dsimp only
  cases (actions.filter (· ∈ actionsBySeedType seedType)).findSomeM?
      (decideAction tzdb rules.effective trigger now timezone) with
  | error e =>
    constructor
    · intro h
      cases h
    · intro h
      obtain ⟨_, hanswer, _⟩ := h
      cases hanswer
  | ok answer =>
    constructor
    · intro h
      exact ⟨answer, rfl, Except.ok.inj h⟩
    · intro h
      obtain ⟨answer', hanswer, hdecision⟩ := h
      cases hanswer
      exact congrArg Except.ok hdecision

/-- An answer that does not deny is the verdict on the highest action with one. -/
theorem evaluate_action (h : evaluate tzdb rules trigger now seedType timezone = .ok decision)
    (haction : decision.action = some action) :
    action ∈ actionsBySeedType seedType ∧
      decideAction tzdb rules.effective trigger now timezone action = .ok (some decision) ∧
      ∀ other ∈ actionsBySeedType seedType, ¬ other ≤ action →
        decideAction tzdb rules.effective trigger now timezone other = .ok none := by
  obtain ⟨answer, hsearch, hanswer⟩ := evaluateActions_ok.mp h
  cases answer with
  | none =>
    have hdeny : Decision.deny = decision := hanswer
    rw [← hdeny] at haction
    cases haction
  | some found =>
    have hfound : found = decision := hanswer
    subst hfound
    obtain ⟨x, hx, hhit, hmissed⟩ :=
      Search.findSomeM?_descending supported_hierarchy_descending hsearch
    have hverdict := (decideAction_ok.mp hhit).2
    have hsame := verdict_action hverdict.symm
    rw [haction] at hsame
    cases hsame
    refine ⟨mem_supported_hierarchy.mp hx, hhit, fun other hother hle => ?_⟩
    exact hmissed other (mem_supported_hierarchy.mpr hother) hle

/-- One requested action is answered by itself. -/
theorem evaluateAction_ok (hsupported : action ∈ actionsBySeedType seedType)
    {answer : Option Decision}
    (h : decideAction tzdb rules.effective trigger now timezone action = .ok answer) :
    evaluateAction tzdb rules action.name trigger now seedType timezone =
      .ok (answer.getD .deny) := by
  unfold evaluateAction
  rw [Action.ofName?_name]
  refine evaluateActions_ok.mpr ⟨answer, ?_, rfl⟩
  have hfilter : (some action).toList.filter (· ∈ actionsBySeedType seedType) = [action] := by
    simp [hsupported]
  rw [hfilter, List.findSomeM?, h]
  cases answer <;> rfl

end Rules

section Laws

variable (tzdb : TimeZoneDatabase) (now : DateTime) (seedType timezone : Option String)

/-- The window of every rule in the evaluation can be read. -/
def Legible (rules : Rules) : Prop :=
  ∀ rule ∈ rules.effective, ∃ answer, windowMatches tzdb rule now timezone = .ok answer

/-- The laws of the evaluators for a policy and a trigger. -/
structure Laws (rules : Rules) (trigger : Trigger) : Prop where
  /-- Order and repetition of the rules do not matter. -/
  unordered : ∀ rules', SameRules rules rules' → ∀ decision,
    (evaluate tzdb rules trigger now seedType timezone = .ok decision ↔
      evaluate tzdb rules' trigger now seedType timezone = .ok decision) ∧
    ∀ name, evaluateAction tzdb rules name trigger now seedType timezone = .ok decision ↔
      evaluateAction tzdb rules' name trigger now seedType timezone = .ok decision
  /-- Without a raise the highest permitted action does not depend on the order either. -/
  unorderedHighest : ∀ rules', SameRules rules rules' → Legible tzdb now timezone rules →
    highestPermittedAction tzdb rules now seedType timezone =
      highestPermittedAction tzdb rules' now seedType timezone
  /-- One rule more, if it can be read, does not lower the action. -/
  grows : ∀ rule rules' decision, Adds rule rules rules' →
    (∃ answer, windowMatches tzdb rule now timezone = .ok answer) →
    evaluate tzdb rules trigger now seedType timezone = .ok decision →
    ∃ decision', evaluate tzdb rules' trigger now seedType timezone = .ok decision' ∧
      ∀ action, decision.action = some action →
        ∃ action', decision'.action = some action' ∧ action ≤ action'
  /-- The action of an answer gets the same answer when it is asked for. -/
  same : ∀ decision action, evaluate tzdb rules trigger now seedType timezone = .ok decision →
    decision.action = some action →
    evaluateAction tzdb rules action.name trigger now seedType timezone = .ok decision
  /-- Actions above it are denied. -/
  higher : ∀ decision action, evaluate tzdb rules trigger now seedType timezone = .ok decision →
    decision.action = some action → ∀ other ∈ actionsBySeedType seedType, action < other →
    evaluateAction tzdb rules other.name trigger now seedType timezone = .ok .deny
  /-- The highest permitted action is at least as high, if the windows can be read. -/
  highest : ∀ decision action, evaluate tzdb rules trigger now seedType timezone = .ok decision →
    decision.action = some action → Legible tzdb now timezone rules →
    ∃ most, highestPermittedAction tzdb rules now seedType timezone = .ok (some most) ∧
      action ≤ most
  /-- Nothing but missing rules denies. -/
  denies : evaluate tzdb rules trigger now seedType timezone = .ok .deny ↔
    ∀ action ∈ actionsBySeedType seedType, ∀ rule ∈ rules.effective,
      ruleMatches tzdb action trigger now timezone rule = .ok false
  /-- Only a policy with the realtime trigger does anything under it. -/
  realtime : trigger = .realtime →
    evaluate tzdb rules trigger now seedType timezone ≠ .ok .deny → hasRealtimeTrigger rules = true

variable {tzdb now seedType timezone} {rules rules' : Rules} {trigger : Trigger} {action : Action}
  {decision : Decision}

/-- Policies with the same rules have the same answers. -/
theorem decideAction_congr (h : SameRules rules rules') (action : Action)
    (answer : Option Decision) :
    decideAction tzdb rules.effective trigger now timezone action = .ok answer ↔
      decideAction tzdb rules'.effective trigger now timezone action = .ok answer := by
  have hmem := h.effective
  rw [decideAction_ok, decideAction_ok, verdict_congr hmem]
  simp only [hmem]

theorem evaluateActions_congr (h : SameRules rules rules') (actions : List Action) :
    evaluateActions tzdb rules actions trigger now seedType timezone = .ok decision ↔
      evaluateActions tzdb rules' actions trigger now seedType timezone = .ok decision := by
  rw [evaluateActions_ok, evaluateActions_ok]
  have hsearch (answer : Option Decision) :
      (actions.filter (· ∈ actionsBySeedType seedType)).findSomeM?
          (decideAction tzdb rules.effective trigger now timezone) = .ok answer ↔
        (actions.filter (· ∈ actionsBySeedType seedType)).findSomeM?
          (decideAction tzdb rules'.effective trigger now timezone) = .ok answer :=
    Search.findSomeM?_congr (fun action _ => decideAction_congr h action) answer
  simp only [hsearch]

theorem permittedAction_legible (h : Legible tzdb now timezone rules) (action : Action) :
    ∃ answer, permittedAction tzdb rules.effective now timezone action = .ok answer := by
  have hany : ∃ answer, anyRulePermits tzdb rules.effective now timezone action = .ok answer := by
    unfold anyRulePermits
    unfold Legible at h
    generalize rules.effective = effective at h
    induction effective with
    | nil => exact ⟨false, rfl⟩
    | cons rule rest ih =>
      obtain ⟨hrule, hrest⟩ := List.forall_mem_cons.mp h
      obtain ⟨answer, hanswer⟩ := ih hrest
      obtain ⟨isOpen, hopen⟩ := hrule
      rw [List.anyM]
      split
      · rw [hopen]
        cases isOpen with
        | true => exact ⟨true, rfl⟩
        | false => exact ⟨answer, hanswer⟩
      · exact ⟨answer, hanswer⟩
  obtain ⟨answer, hanswer⟩ := hany
  unfold permittedAction
  rw [hanswer]
  exact ⟨_, rfl⟩

/-- With legible windows the highest permitted action exists or nothing is permitted. -/
theorem highestPermittedAction_legible (h : Legible tzdb now timezone rules) :
    ∃ answer, highestPermittedAction tzdb rules now seedType timezone = .ok answer := by
  unfold highestPermittedAction
  dsimp only
  induction disruptionHierarchy.filter (· ∈ actionsBySeedType seedType) with
  | nil => exact ⟨none, rfl⟩
  | cons action rest ih =>
    obtain ⟨answer, hanswer⟩ := permittedAction_legible h action
    rw [List.findSomeM?, hanswer]
    cases answer with
    | none => exact ih
    | some most => exact ⟨some most, rfl⟩

theorem Grants.congr (h : SameRules rules rules')
    (hgrants : Grants tzdb rules now seedType timezone action) :
    Grants tzdb rules' now seedType timezone action := by
  obtain ⟨hsupported, rule, hrule, hnames, hopen⟩ := hgrants
  exact ⟨hsupported, rule, (h.effective rule).mp hrule, hnames, hopen⟩

theorem highestPermittedAction_congr (h : SameRules rules rules')
    (hlegible : Legible tzdb now timezone rules) :
    highestPermittedAction tzdb rules now seedType timezone =
      highestPermittedAction tzdb rules' now seedType timezone := by
  have hlegible' : Legible tzdb now timezone rules' :=
    fun rule hrule => hlegible rule ((h.effective rule).mpr hrule)
  have hback : SameRules rules' rules := fun rule => (h rule).symm
  have hnone {first second : Rules} (hsame : SameRules first second)
      (hfirst : highestPermittedAction tzdb first now seedType timezone = .ok none) :
      highestPermittedAction tzdb second now seedType timezone = .ok none := by
    rw [highestPermittedAction_none] at hfirst ⊢
    intro action haction rule hrule
    exact hfirst action haction rule ((hsame.effective rule).mpr hrule)
  obtain ⟨answer, hanswer⟩ :
      ∃ answer, highestPermittedAction tzdb rules now seedType timezone = .ok answer :=
    highestPermittedAction_legible hlegible
  obtain ⟨answer', hanswer'⟩ :
      ∃ answer, highestPermittedAction tzdb rules' now seedType timezone = .ok answer :=
    highestPermittedAction_legible hlegible'
  cases answer with
  | none => rw [hanswer, hnone h hanswer]
  | some most =>
    cases answer' with
    | none =>
      rw [hnone hback hanswer'] at hanswer
      cases hanswer
    | some most' =>
      have hgreatest := highestPermittedAction_some hanswer
      have hgreatest' := highestPermittedAction_some hanswer'
      have hle := hgreatest'.2 (Grants.congr h hgreatest.1)
      have hle' := hgreatest.2 (Grants.congr hback hgreatest'.1)
      rw [hanswer, hanswer', le_antisymm hle hle']

/-- A rule that can be read is tested for every action and trigger. -/
theorem tested_of_legible {rule : Rule}
    (h : ∃ answer, windowMatches tzdb rule now timezone = .ok answer) :
    Tested tzdb trigger now timezone action rule := by
  obtain ⟨answer, hanswer⟩ := h
  unfold Tested Matches ruleMatches
  split
  · rw [hanswer]
    cases answer with
    | true => exact Or.inl rfl
    | false => exact Or.inr rfl
  · exact Or.inr rfl

/-- With one rule more an action that had an answer keeps one. -/
theorem decideAction_adds {rule : Rule} (h : Adds rule rules rules')
    (hlegible : ∃ answer, windowMatches tzdb rule now timezone = .ok answer) (action : Action)
    (answer : Option Decision)
    (hanswer : decideAction tzdb rules.effective trigger now timezone action = .ok answer) :
    ∃ answer', decideAction tzdb rules'.effective trigger now timezone action = .ok answer' ∧
      (answer' = none → answer = none) := by
  obtain ⟨htested, hverdict⟩ := decideAction_ok.mp hanswer
  refine ⟨_, decideAction_ok.mpr ⟨?_, rfl⟩, fun hnone => ?_⟩
  · intro r hr
    rcases (h.effective r).mp hr with rfl | hold
    · exact tested_of_legible hlegible
    · exact htested r hold
  · rw [hverdict]
    rw [verdict_none] at hnone ⊢
    intro r hr
    exact hnone r ((h.effective r).mpr (Or.inr hr))

/-- More rules permit at least as much. -/
theorem evaluate_adds {rule : Rule} (h : Adds rule rules rules')
    (hlegible : ∃ answer, windowMatches tzdb rule now timezone = .ok answer)
    (heval : evaluate tzdb rules trigger now seedType timezone = .ok decision) :
    ∃ decision', evaluate tzdb rules' trigger now seedType timezone = .ok decision' ∧
      ∀ action, decision.action = some action →
        ∃ action', decision'.action = some action' ∧ action ≤ action' := by
  obtain ⟨answer, hsearch, _⟩ := evaluateActions_ok.mp heval
  obtain ⟨answer', hsearch', hmore⟩ := Search.findSomeM?_mono
    (fun action _ answer hanswer => decideAction_adds h hlegible action answer hanswer) hsearch
  have heval' : evaluate tzdb rules' trigger now seedType timezone = .ok (answer'.getD .deny) :=
    evaluateActions_ok.mpr ⟨answer', hsearch', rfl⟩
  refine ⟨_, heval', fun action haction => ?_⟩
  obtain ⟨hsupported, hhit, _⟩ := evaluate_action heval haction
  obtain ⟨own, hown, hkept⟩ := decideAction_adds h hlegible action _ hhit
  cases answer' with
  | none =>
    -- Every supported action would have been passed over, this one too.
    have hmissed := Search.findSomeM?_eq_ok_none.mp hsearch' action
      (mem_supported_hierarchy.mpr hsupported)
    rw [hmissed] at hown
    cases hown
    cases hkept rfl
  | some decision' =>
    obtain ⟨x, hx, hhit', hmissed⟩ :=
      Search.findSomeM?_descending supported_hierarchy_descending hsearch'
    have hverdict := (decideAction_ok.mp hhit').2
    refine ⟨x, verdict_action hverdict.symm, ?_⟩
    by_contra hle
    have hmiss := hmissed action (mem_supported_hierarchy.mpr hsupported) hle
    rw [hmiss] at hown
    cases hown
    cases hkept rfl

/-- An action with an answer is granted, whatever the trigger. -/
theorem grants_of_evaluate (heval : evaluate tzdb rules trigger now seedType timezone = .ok decision)
    (haction : decision.action = some action) :
    Grants tzdb rules now seedType timezone action := by
  obtain ⟨hsupported, hhit, _⟩ := evaluate_action heval haction
  obtain ⟨_, hverdict⟩ := decideAction_ok.mp hhit
  have hmatch : ∃ rule ∈ rules.effective, Matches tzdb trigger now timezone action rule := by
    by_contra hnone
    have hnothing : verdict tzdb trigger now timezone rules.effective action = none :=
      verdict_none.mpr fun rule hrule hmatches => hnone ⟨rule, hrule, hmatches⟩
    rw [hnothing] at hverdict
    cases hverdict
  obtain ⟨rule, hrule, hmatches⟩ := hmatch
  obtain ⟨hnames, _, hopen⟩ := ruleMatches_true.mp hmatches
  exact ⟨hsupported, rule, hrule, hnames, hopen⟩

theorem evaluate_deny : evaluate tzdb rules trigger now seedType timezone = .ok .deny ↔
    ∀ action ∈ actionsBySeedType seedType, ∀ rule ∈ rules.effective,
      ruleMatches tzdb action trigger now timezone rule = .ok false := by
  have hnone {action : Action} :
      decideAction tzdb rules.effective trigger now timezone action = .ok none ↔
        ∀ rule ∈ rules.effective, ruleMatches tzdb action trigger now timezone rule = .ok false := by
    rw [decideAction_ok]
    constructor
    · intro h rule hrule
      obtain ⟨htested, hverdict⟩ := h
      rcases htested rule hrule with hmatches | hfalse
      · exact absurd hmatches (verdict_none.mp hverdict.symm rule hrule)
      · exact hfalse
    · intro h
      refine ⟨fun rule hrule => Or.inr (h rule hrule), ?_⟩
      refine (verdict_none.mpr fun rule hrule hmatches => ?_).symm
      have hfalse := h rule hrule
      rw [show ruleMatches tzdb action trigger now timezone rule = .ok true from hmatches] at hfalse
      cases hfalse
  constructor
  · intro h
    obtain ⟨answer, hsearch, hanswer⟩ := evaluateActions_ok.mp h
    cases answer with
    | none =>
      intro action haction
      exact hnone.mp (Search.findSomeM?_eq_ok_none.mp hsearch action
        (mem_supported_hierarchy.mpr haction))
    | some found =>
      have hfound : found = .deny := hanswer
      subst hfound
      obtain ⟨x, hx, hhit, _⟩ :=
        Search.findSomeM?_descending supported_hierarchy_descending hsearch
      have haction := verdict_action (decideAction_ok.mp hhit).2.symm
      cases haction
  · intro h
    refine evaluateActions_ok.mpr ⟨none, Search.findSomeM?_eq_ok_none.mpr ?_, rfl⟩
    intro action haction
    exact hnone.mpr (h action (mem_supported_hierarchy.mp haction))

/-- The laws hold for every policy and every trigger at every time. -/
theorem policy_laws (tzdb : TimeZoneDatabase) (rules : Rules) (trigger : Trigger) (now : DateTime)
    (seedType timezone : Option String) : Laws tzdb now seedType timezone rules trigger := by
  constructor
  · intro rules' hsame decision
    refine ⟨evaluateActions_congr hsame _, fun name => ?_⟩
    exact evaluateActions_congr hsame _
  · intro rules' hsame hlegible
    exact highestPermittedAction_congr hsame hlegible
  · intro rule rules' decision hadds hlegible heval
    exact evaluate_adds hadds hlegible heval
  · intro decision action heval haction
    obtain ⟨hsupported, hhit, _⟩ := evaluate_action heval haction
    exact evaluateAction_ok hsupported hhit
  · intro decision action heval haction other hother hlt
    obtain ⟨_, _, hmissed⟩ := evaluate_action heval haction
    exact evaluateAction_ok hother (hmissed other hother (not_le_of_gt hlt))
  · intro decision action heval haction hlegible
    have hgrants := grants_of_evaluate heval haction
    obtain ⟨answer, hanswer⟩ :
        ∃ answer, highestPermittedAction tzdb rules now seedType timezone = .ok answer :=
      highestPermittedAction_legible hlegible
    cases answer with
    | none =>
      obtain ⟨hsupported, rule, hrule, hnames, hopen⟩ := hgrants
      have hclosed := highestPermittedAction_none.mp hanswer action hsupported rule hrule hnames
      exact absurd hclosed hopen.not_closed
    | some most => exact ⟨most, hanswer, (highestPermittedAction_some hanswer).2 hgrants⟩
  · exact evaluate_deny
  · intro htrigger hnotDenied
    by_contra hnever
    apply hnotDenied
    rw [evaluate_deny]
    intro action haction rule hrule
    apply ruleMatches_false.mpr
    intro _ hrealtime
    rw [htrigger] at hrealtime
    have hany : hasRealtimeTrigger rules = true := List.any_eq_true.mpr ⟨rule, hrule, hrealtime⟩
    exact absurd hany hnever

/-- A rule for another trigger whose window cannot be read: the evaluation under this
trigger never reads it, the highest permitted action does. -/
theorem highest_unreadable :
    evaluate .utcOnly
        (.list
          [{ actions := ["activate"] },
            { actions := ["restart"]
              triggers := some ["scheduled"]
              window := some { timeStart := "9:00", timeEnd := "17:00" } }])
        .manual 0 (some "nixos") none = .ok (.allow .activate) ∧
      highestPermittedAction .utcOnly
        (.list
          [{ actions := ["activate"] },
            { actions := ["restart"]
              triggers := some ["scheduled"]
              window := some { timeStart := "9:00", timeEnd := "17:00" } }])
        0 (some "nixos") none = .error (.invalidTime "9:00:00") := by
  decide +kernel

end Laws

end Sower.Policy
