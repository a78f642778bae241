import Sower.Policy

/-!
# What a policy permits

The policy as a relation between times, seed types and actions, without the
order in which the evaluator looks at rules and actions. The evaluator's
answers are the greatest elements of the permitted sets.
-/

namespace Sower.Policy

open Sower.Calendar

section Meaning

variable (tzdb : TimeZoneDatabase) (rules : Rules) (now : DateTime)
  (seedType timezone : Option String)

/-- The rule's window is open. -/
def Open (rule : Rule) : Prop := windowMatches tzdb rule now timezone = .ok true

/-- The rule's window can be read and is closed. -/
def Closed (rule : Rule) : Prop := windowMatches tzdb rule now timezone = .ok false

/-- Some rule in force names the supported action, whatever its triggers. -/
def Grants (action : Action) : Prop :=
  action ∈ actionsBySeedType seedType ∧
    ∃ rule ∈ rules.effective, actionMatches rule action = true ∧ Open tzdb now timezone rule

/-- Some rule in force names the supported action and the trigger. -/
def GrantsUnder (trigger : Trigger) (action : Action) : Prop :=
  action ∈ actionsBySeedType seedType ∧
    ∃ rule ∈ rules.effective, actionMatches rule action = true ∧
      triggerMatches rule trigger = true ∧ Open tzdb now timezone rule

/-- A rule in force names the supported action and the trigger, and every rule
that names both is closed or asks for no confirmation. -/
def Authorizes (trigger : Trigger) (action : Action) : Prop :=
  GrantsUnder tzdb rules now seedType timezone trigger action ∧
    ∀ rule ∈ rules.effective, actionMatches rule action = true → triggerMatches rule trigger = true →
      Closed tzdb now timezone rule ∨ (Open tzdb now timezone rule ∧ rule.confirm = false)

variable {tzdb rules now seedType timezone}

/-- No action can be granted to a seed type that supports none. -/
theorem Grants.supported {action : Action}
    (h : Grants tzdb rules now seedType timezone action) : action ∈ actionsBySeedType seedType := h.1

/-- A window is not open and closed at once. -/
theorem Open.not_closed {rule : Rule} (h : Open tzdb now timezone rule) :
    ¬ Closed tzdb now timezone rule := by
  intro hclosed
  have htrue : windowMatches tzdb rule now timezone = .ok true := h
  have hfalse : windowMatches tzdb rule now timezone = .ok false := hclosed
  simp [htrue] at hfalse

section Highest

theorem mem_supported_hierarchy {action : Action} :
    action ∈ disruptionHierarchy.filter (· ∈ actionsBySeedType seedType) ↔
      action ∈ actionsBySeedType seedType := by
  simp [mem_disruptionHierarchy]

theorem supported_hierarchy_descending :
    (disruptionHierarchy.filter (· ∈ actionsBySeedType seedType)).Pairwise (· > ·) :=
  disruptionHierarchy_descending.filter _

theorem anyRulePermits_false {rules : List Rule} {action : Action} :
    anyRulePermits tzdb rules now timezone action = .ok false ↔
      ∀ rule ∈ rules, actionMatches rule action = true → Closed tzdb now timezone rule := by
  unfold anyRulePermits
  rw [Search.anyM_eq_ok_false]
  constructor
  · intro h rule hrule hmatch
    have htest := h rule hrule
    rwa [if_pos hmatch] at htest
  · intro h rule hrule
    split
    · exact h rule hrule ‹_›
    · rfl

theorem anyRulePermits_true {rules : List Rule} {action : Action}
    (h : anyRulePermits tzdb rules now timezone action = .ok true) :
    ∃ rule ∈ rules, actionMatches rule action = true ∧ Open tzdb now timezone rule := by
  obtain ⟨before, rule, after, rfl, htest, _⟩ := Search.anyM_eq_ok_true.mp h
  split at htest
  · exact ⟨rule, by simp, ‹_›, htest⟩
  · simp at htest

/-- An action is passed over exactly when each rule naming it is closed. -/
theorem permittedAction_none {rules : List Rule} {action : Action} :
    permittedAction tzdb rules now timezone action = .ok none ↔
      ∀ rule ∈ rules, actionMatches rule action = true → Closed tzdb now timezone rule := by
  rw [← anyRulePermits_false]
  unfold permittedAction
  rcases anyRulePermits tzdb rules now timezone action with e | _ | _ <;>
    simp [bind, Except.bind, pure, Except.pure]

/-- An action is selected only as itself and because of a rule in force. -/
theorem permittedAction_some {rules : List Rule} {action chosen : Action}
    (h : permittedAction tzdb rules now timezone action = .ok (some chosen)) :
    chosen = action ∧
      ∃ rule ∈ rules, actionMatches rule action = true ∧ Open tzdb now timezone rule := by
  unfold permittedAction at h
  rcases hany : anyRulePermits tzdb rules now timezone action with e | _ | _
  · simp [hany, bind, Except.bind] at h
  · simp [hany, bind, Except.bind, pure, Except.pure] at h
  · have hchosen : action = chosen := by
      simpa [hany, bind, Except.bind, pure, Except.pure] using h
    exact ⟨hchosen.symm, anyRulePermits_true hany⟩

/-- Nothing is permitted exactly when every rule for a supported action can be
read and is closed. -/
theorem highestPermittedAction_none :
    highestPermittedAction tzdb rules now seedType timezone = .ok none ↔
      ∀ action ∈ actionsBySeedType seedType, ∀ rule ∈ rules.effective,
        actionMatches rule action = true → Closed tzdb now timezone rule := by
  unfold highestPermittedAction
  rw [Search.findSomeM?_eq_ok_none]
  simp only [mem_supported_hierarchy, permittedAction_none]

/-- The selected action is the greatest one that a rule in force names. -/
theorem highestPermittedAction_some {action : Action}
    (h : highestPermittedAction tzdb rules now seedType timezone = .ok (some action)) :
    IsGreatest {a | Grants tzdb rules now seedType timezone a} action := by
  obtain ⟨x, hx, hhit, hmissed⟩ := Search.findSomeM?_descending supported_hierarchy_descending h
  obtain ⟨rfl, hgrant⟩ := permittedAction_some hhit
  refine ⟨⟨mem_supported_hierarchy.mp hx, hgrant⟩, ?_⟩
  rintro a ⟨hsupported, rule, hrule, hmatch, hopen⟩
  by_contra hle
  have hmiss := hmissed a (mem_supported_hierarchy.mpr hsupported) hle
  exact hopen.not_closed (permittedAction_none.mp hmiss rule hrule hmatch)

end Highest

section Evaluate

variable {trigger : Trigger}

theorem ruleMatches_true {action : Action} {rule : Rule} :
    ruleMatches tzdb action trigger now timezone rule = .ok true ↔
      actionMatches rule action = true ∧ triggerMatches rule trigger = true ∧
        Open tzdb now timezone rule := by
  unfold ruleMatches
  split
  · rename_i h
    obtain ⟨haction, htrigger⟩ := (Bool.and_eq_true _ _).mp h
    exact ⟨fun hopen => ⟨haction, htrigger, hopen⟩, fun hall => hall.2.2⟩
  · rename_i h
    constructor
    · intro hfalse
      simp at hfalse
    · rintro ⟨haction, htrigger, _⟩
      exact absurd ((Bool.and_eq_true _ _).mpr ⟨haction, htrigger⟩) h

theorem ruleMatches_false {action : Action} {rule : Rule} :
    ruleMatches tzdb action trigger now timezone rule = .ok false ↔
      (actionMatches rule action = true → triggerMatches rule trigger = true →
        Closed tzdb now timezone rule) := by
  unfold ruleMatches
  split
  · rename_i h
    obtain ⟨haction, htrigger⟩ := (Bool.and_eq_true _ _).mp h
    exact ⟨fun hclosed _ _ => hclosed, fun hall => hall haction htrigger⟩
  · rename_i h
    refine ⟨fun _ haction htrigger => ?_, fun _ => rfl⟩
    exact absurd ((Bool.and_eq_true _ _).mpr ⟨haction, htrigger⟩) h

/-- An action is allowed exactly when it is authorized apart from its support. -/
theorem decideAction_allow {rules : List Rule} {action chosen : Action} :
    decideAction tzdb rules trigger now timezone action = .ok (some (.allow chosen)) ↔
      chosen = action ∧
      (∃ rule ∈ rules, actionMatches rule action = true ∧ triggerMatches rule trigger = true ∧
        Open tzdb now timezone rule) ∧
      ∀ rule ∈ rules, actionMatches rule action = true → triggerMatches rule trigger = true →
        Closed tzdb now timezone rule ∨ (Open tzdb now timezone rule ∧ rule.confirm = false) := by
  unfold decideAction
  constructor
  · intro h
    rcases hhits : Search.hits (ruleMatches tzdb action trigger now timezone) rules with e | found
    · simp [hhits, bind, Except.bind] at h
    · obtain ⟨htested, hmem⟩ := Search.hits_eq_ok hhits
      rcases found with _ | ⟨first, rest⟩
      · simp [hhits, bind, Except.bind, pure, Except.pure] at h
      · simp only [hhits, bind, Except.bind, pure, Except.pure] at h
        split at h
        · simp at h
        · rename_i hconfirm
          have hchosen : action = chosen := by simpa using h
          obtain ⟨hfirst, hmatch⟩ := (hmem first).mp List.mem_cons_self
          refine ⟨hchosen.symm, ⟨first, hfirst, ruleMatches_true.mp hmatch⟩, ?_⟩
          intro rule hrule haction htrigger
          rcases htested rule hrule with htrue | hfalse
          · have hnot : rule.confirm = false := by
              by_contra hc
              refine hconfirm (List.any_eq_true.mpr ⟨rule, (hmem rule).mpr ⟨hrule, htrue⟩, ?_⟩)
              simpa using hc
            exact Or.inr ⟨(ruleMatches_true.mp htrue).2.2, hnot⟩
          · exact Or.inl (ruleMatches_false.mp hfalse haction htrigger)
  · rintro ⟨rfl, ⟨rule, hrule, haction, htrigger, hopen⟩, hall⟩
    have htested : ∀ r ∈ rules, ruleMatches tzdb chosen trigger now timezone r = .ok true ∨
        ruleMatches tzdb chosen trigger now timezone r = .ok false := by
      intro r hr
      by_cases hboth : actionMatches r chosen = true ∧ triggerMatches r trigger = true
      · rcases hall r hr hboth.1 hboth.2 with hclosed | ⟨hopen', _⟩
        · exact Or.inr (ruleMatches_false.mpr fun _ _ => hclosed)
        · exact Or.inl (ruleMatches_true.mpr ⟨hboth.1, hboth.2, hopen'⟩)
      · exact Or.inr (ruleMatches_false.mpr fun h₁ h₂ => absurd ⟨h₁, h₂⟩ hboth)
    obtain ⟨found, hhits⟩ := Search.exists_hits htested
    obtain ⟨_, hmem⟩ := Search.hits_eq_ok hhits
    have hfound : rule ∈ found :=
      (hmem rule).mpr ⟨hrule, ruleMatches_true.mpr ⟨haction, htrigger, hopen⟩⟩
    have hconfirm : found.any Rule.confirm = false := by
      refine List.any_eq_false.mpr ?_
      intro r hr
      obtain ⟨hmemr, hmatch⟩ := (hmem r).mp hr
      obtain ⟨haction', htrigger', hopen'⟩ := ruleMatches_true.mp hmatch
      rcases hall r hmemr haction' htrigger' with hclosed | ⟨_, hnot⟩
      · exact absurd hclosed hopen'.not_closed
      · simp [hnot]
    rcases found with _ | ⟨first, rest⟩
    · exact absurd hfound List.not_mem_nil
    · simp [hhits, hconfirm, bind, Except.bind, pure, Except.pure]

/-- One supported action is allowed when its own answer allows it. -/
theorem evaluateAction_of_supported {action chosen : Action}
    (h : action ∈ actionsBySeedType seedType) :
    evaluateAction tzdb rules action.name trigger now seedType timezone = .ok (.allow chosen) ↔
      decideAction tzdb rules.effective trigger now timezone action = .ok (some (.allow chosen)) := by
  unfold evaluateAction evaluateActions
  rcases hdecide : decideAction tzdb rules.effective trigger now timezone action with
    e | _ | decision <;>
    simp [h, hdecide, List.findSomeM?, bind, Except.bind, pure, Except.pure]

/-- Evaluating one requested action allows exactly an authorized one. -/
theorem evaluateAction_allow {action chosen : Action} :
    evaluateAction tzdb rules action.name trigger now seedType timezone = .ok (.allow chosen) ↔
      chosen = action ∧ Authorizes tzdb rules now seedType timezone trigger action := by
  by_cases hsupported : action ∈ actionsBySeedType seedType
  · rw [evaluateAction_of_supported hsupported, decideAction_allow]
    constructor
    · rintro ⟨rfl, hexists, hall⟩
      exact ⟨rfl, ⟨hsupported, hexists⟩, hall⟩
    · rintro ⟨rfl, hgrants, hall⟩
      exact ⟨rfl, hgrants.2, hall⟩
  · constructor
    · intro h
      simp [evaluateAction, evaluateActions, hsupported, bind, Except.bind, pure,
        Except.pure] at h
    · rintro ⟨_, hgrants, _⟩
      exact absurd hgrants.1 hsupported

end Evaluate

end Meaning

end Sower.Policy
