import Mathlib.Order.Basic
import Mathlib.Data.List.Basic
import Sower.Lib.Search
import Sower.Calendar

/-!
# The deployment policy evaluator

The one evaluator that server and garden share. Rules carry the strings of the
wire; only names of known actions can be selected. A window with an unreadable
time or an unknown zone makes the evaluation raise, so every evaluation is in
`Except Raise`.
-/

namespace Sower.Policy

open Sower.Calendar

/-- What a deployment does to a machine. -/
inductive Action where
  /-- Download and pin only. -/
  | stage
  /-- Apply the configuration. -/
  | activate
  /-- Apply it with a reboot of the machine. -/
  | restart
  deriving DecidableEq, Repr

/-- Wire name of an action. -/
def Action.name : Action → String
  | .stage => "stage"
  | .activate => "activate"
  | .restart => "restart"

/-- `String.to_existing_atom` on the names of actions. -/
def Action.ofName? (name : String) : Option Action :=
  if name = "stage" then some .stage
  else if name = "activate" then some .activate
  else if name = "restart" then some .restart
  else none

@[simp] theorem Action.ofName?_name (a : Action) : Action.ofName? a.name = some a := by
  cases a <;> decide

/-- Position in the disruption hierarchy, least disruptive first. -/
def Action.rank : Action → ℕ
  | .stage => 0
  | .activate => 1
  | .restart => 2

theorem Action.rank_injective : Function.Injective Action.rank := by
  intro a b h
  cases a <;> cases b <;> first | rfl | cases h

/-- Actions are ordered by their disruption. -/
instance : LinearOrder Action := LinearOrder.lift' Action.rank Action.rank_injective

theorem Action.stage_le (a : Action) : Action.stage ≤ a := Nat.zero_le _

/-- How a deployment was initiated. -/
inductive Trigger where
  | manual
  | scheduled
  | realtime
  | pollOnConnect
  | direct
  deriving DecidableEq, Repr

/-- Wire name of a trigger. -/
def Trigger.name : Trigger → String
  | .manual => "manual"
  | .scheduled => "scheduled"
  | .realtime => "realtime"
  | .pollOnConnect => "poll_on_connect"
  | .direct => "direct"

/-- Audit reason of a deployment event. -/
inductive Reason where
  | userTriggered
  | userRetry
  | scheduleTriggered
  | realtimeTriggered
  | pollOnConnect
  | directTriggered
  | directOverride
  | retry
  | superseded
  | stale
  deriving DecidableEq, Repr

/-- Map an audit reason to a policy trigger. The other reasons have no clause
in the source and raise there. -/
def triggerForReason : Reason → Option Trigger
  | .userTriggered => some .manual
  | .userRetry => some .manual
  | .scheduleTriggered => some .scheduled
  | .realtimeTriggered => some .realtime
  | .pollOnConnect => some .pollOnConnect
  | .directTriggered => some .direct
  | .directOverride => none
  | .retry => none
  | .superseded => none
  | .stale => none

/-- Actions a seed type supports; none for an unknown or missing type. -/
def actionsBySeedType (seedType : Option String) : List Action :=
  if seedType = some "nixos" then [.stage, .activate, .restart]
  else if seedType = some "nix-darwin" then [.stage, .activate, .restart]
  else if seedType = some "home-manager" then [.stage, .activate]
  else if seedType = some "service" then [.stage, .activate]
  else []

/-- Highest disruption first. -/
def disruptionHierarchy : List Action := [.restart, .activate, .stage]

theorem disruptionHierarchy_descending : disruptionHierarchy.Pairwise (· > ·) := by decide

theorem mem_disruptionHierarchy (a : Action) : a ∈ disruptionHierarchy := by cases a <;> decide

/-- Days and times at which a rule applies. -/
structure Window where
  /-- Names of the days the window opens on; all seven when absent. -/
  days : Option (List String) := none
  /-- Start as `HH:MM`. -/
  timeStart : String
  /-- End as `HH:MM`. -/
  timeEnd : String
  /-- Zone of the window, before the one of the subscription. -/
  tz : Option String := none
  deriving DecidableEq, Repr

/-- One rule of a policy. -/
structure Rule where
  /-- Names of the actions the rule permits. -/
  actions : List String
  /-- Names of the triggers it applies to; all when absent. -/
  triggers : Option (List String) := none
  /-- Time constraint; none when absent. -/
  window : Option Window := none
  /-- Whether the deployment waits for a confirmation. -/
  confirm : Bool := false
  deriving DecidableEq, Repr

/-- A policy as it is stored or configured: missing, a list, or a map by name. -/
inductive Rules where
  | missing
  | list (rules : List Rule)
  | map (rules : List (String × Rule))
  deriving DecidableEq, Repr

/-- Permits activation when a person, a schedule or a poll asks for it. -/
def defaultPolicy : List Rule :=
  [{ actions := ["activate"], triggers := some ["manual", "scheduled", "poll_on_connect"] }]

/-- `normalize_rules`: a map becomes the list of its rules. -/
def normalizeRules : Rules → Option (List Rule)
  | .missing => none
  | .list rules => some rules
  | .map rules => some (rules.map Prod.snd)

/-- `effective_rules`: the default policy replaces a missing or empty one. -/
def effectiveRules : Option (List Rule) → List Rule
  | none => defaultPolicy
  | some [] => defaultPolicy
  | some (rule :: rest) => rule :: rest

/-- The rules an evaluation goes through. -/
def Rules.effective (rules : Rules) : List Rule := effectiveRules (normalizeRules rules)

/-- No evaluation goes through an empty list of rules. -/
theorem Rules.effective_ne_nil (rules : Rules) : rules.effective ≠ [] := by
  unfold Rules.effective
  rcases normalizeRules rules with _ | _ | ⟨rule, rest⟩ <;> simp [effectiveRules, defaultPolicy]

def actionMatches (rule : Rule) (action : Action) : Bool := action.name ∈ rule.actions

def triggerMatches (rule : Rule) (trigger : Trigger) : Bool :=
  match rule.triggers with
  | none => true
  | some triggers => trigger.name ∈ triggers

def allDays : List String := ["mon", "tue", "wed", "thu", "fri", "sat", "sun"]

def dayName (day : ℤ) : String :=
  if day = 1 then "mon"
  else if day = 2 then "tue"
  else if day = 3 then "wed"
  else if day = 4 then "thu"
  else if day = 5 then "fri"
  else if day = 6 then "sat"
  else "sun"

def windowDays (window : Window) : List String := window.days.getD allDays

/-- A window over midnight: the part after the start belongs to the day it
opens on, the part before the end to the day after. -/
def overnightMatch (days : List String) (day : String) (time startTime endTime : Time)
    (local_ : NaiveDateTime) : Bool :=
  let inOpeningDay := day ∈ days && startTime ≤ time
  let yesterday := dayName (dayOfWeek (local_.toDate - 1))
  let inClosingDay := yesterday ∈ days && time ≤ endTime
  inOpeningDay || inClosingDay

def withinWindow (tzdb : TimeZoneDatabase) (window : Window) (now : DateTime)
    (timezone : Option String) : Except Raise Bool := do
  let tz := (window.tz.or timezone).getD "Etc/UTC"
  let local_ ← shiftZone tzdb now tz
  let day := dayName (dayOfWeek local_.toDate)
  let time := local_.toTime
  let startTime ← timeFromIso8601! (window.timeStart ++ ":00")
  let endTime ← timeFromIso8601! (window.timeEnd ++ ":00")
  let days := windowDays window
  if endTime < startTime then
    return overnightMatch days day time startTime endTime local_
  else
    return day ∈ days && startTime ≤ time && time ≤ endTime

def windowMatches (tzdb : TimeZoneDatabase) (rule : Rule) (now : DateTime)
    (timezone : Option String) : Except Raise Bool :=
  match rule.window with
  | none => .ok true
  | some window => withinWindow tzdb window now timezone

/-- Answer of an evaluation under a trigger. -/
inductive Decision where
  | allow (action : Action)
  | confirm (action : Action)
  | deny
  deriving DecidableEq, Repr

/-- Whether a rule applies to the action under the trigger right now. The
window is read only for rules that name both. -/
def ruleMatches (tzdb : TimeZoneDatabase) (action : Action) (trigger : Trigger) (now : DateTime)
    (timezone : Option String) (rule : Rule) : Except Raise Bool :=
  if actionMatches rule action && triggerMatches rule trigger then
    windowMatches tzdb rule now timezone
  else .ok false

/-- Answer for one action: nothing without a matching rule, a confirmation as
soon as one matching rule asks for it. -/
def decideAction (tzdb : TimeZoneDatabase) (rules : List Rule) (trigger : Trigger)
    (now : DateTime) (timezone : Option String) (action : Action) :
    Except Raise (Option Decision) := do
  match ← Search.hits (ruleMatches tzdb action trigger now timezone) rules with
  | [] => return none
  | rule :: rest =>
    if (rule :: rest).any Rule.confirm then return some (.confirm action)
    else return some (.allow action)

def evaluateActions (tzdb : TimeZoneDatabase) (rules : Rules) (actions : List Action)
    (trigger : Trigger) (now : DateTime) (seedType : Option String)
    (timezone : Option String) : Except Raise Decision := do
  let supported := actionsBySeedType seedType
  let answer ← (actions.filter (· ∈ supported)).findSomeM?
    (decideAction tzdb rules.effective trigger now timezone)
  return answer.getD .deny

/-- Evaluate policy rules against a trigger and the current time. -/
def evaluate (tzdb : TimeZoneDatabase) (rules : Rules) (trigger : Trigger) (now : DateTime)
    (seedType timezone : Option String) : Except Raise Decision :=
  evaluateActions tzdb rules disruptionHierarchy trigger now seedType timezone

/-- Evaluate only the requested action; a name that is no action is supported
by no seed type. -/
def evaluateAction (tzdb : TimeZoneDatabase) (rules : Rules) (action : String)
    (trigger : Trigger) (now : DateTime) (seedType timezone : Option String) :
    Except Raise Decision :=
  evaluateActions tzdb rules (Action.ofName? action).toList trigger now seedType timezone

/-- Whether any rule names the action and is in force; the rules behind the
first such rule are not looked at. -/
def anyRulePermits (tzdb : TimeZoneDatabase) (rules : List Rule) (now : DateTime)
    (timezone : Option String) (action : Action) : Except Raise Bool :=
  rules.anyM fun rule =>
    if actionMatches rule action then windowMatches tzdb rule now timezone else .ok false

/-- The action itself when some rule permits it. -/
def permittedAction (tzdb : TimeZoneDatabase) (rules : List Rule) (now : DateTime)
    (timezone : Option String) (action : Action) : Except Raise (Option Action) := do
  let permitted ← anyRulePermits tzdb rules now timezone action
  return if permitted then some action else none

/-- The highest-disruption action any rule permits at the time, whatever its
triggers. -/
def highestPermittedAction (tzdb : TimeZoneDatabase) (rules : Rules) (now : DateTime)
    (seedType timezone : Option String) : Except Raise (Option Action) :=
  let supported := actionsBySeedType seedType
  (disruptionHierarchy.filter (· ∈ supported)).findSomeM?
    (permittedAction tzdb rules.effective now timezone)

/-- The less disruptive of a proposed action and a permitted one; nothing when
either side permits nothing or the proposed name is no action. -/
def clampAction : Option String → Option Action → Option Action
  | none, _ => none
  | _, none => none
  | some proposed, some permitted => (Action.ofName? proposed).map fun action => min action permitted

/-- Whether some rule applies to the realtime trigger. -/
def hasRealtimeTrigger (rules : Rules) : Bool :=
  rules.effective.any fun rule => triggerMatches rule .realtime

end Sower.Policy
