import Mathlib.Tactic.Linarith
import Sower.Policy

/-!
# When a window is open

A window opens on some days and stays open from its start until its end, on the day it
opens or on the day after. The evaluator compares names of days and times of day; here
both are compared as wall-clock readings, over all days there are.
-/

namespace Sower.Calendar

section TimesOfDay

variable {c a b : Char} {d x : ℤ}

theorem digit?_range (h : digit? c = some d) : 0 ≤ d ∧ d ≤ 9 := by
  unfold digit? at h
  split at h
  · rename_i hdigit
    obtain ⟨hlow, hhigh⟩ := hdigit
    have hlow' : '0'.toNat ≤ c.toNat := hlow
    have hhigh' : c.toNat ≤ '9'.toNat := hhigh
    have hzero : '0'.toNat = 48 := rfl
    have hnine : '9'.toNat = 57 := rfl
    cases h
    omega
  · cases h

theorem twoDigits?_nonneg (h : twoDigits? a b = some x) : 0 ≤ x := by
  unfold twoDigits? at h
  simp only [Option.bind_eq_bind, Option.bind_eq_some_iff] at h
  obtain ⟨first, hfirst, second, hsecond, h⟩ := h
  have hx : 10 * first + second = x := Option.some.inj h
  have hfirst' := digit?_range hfirst
  have hsecond' := digit?_range hsecond
  omega

/-- Digits of a fraction add up to less than one more of what they follow. -/
theorem fraction_range (rest : List Char) (scale value : ℤ) (hscale : 0 ≤ scale) :
    value ≤ (fraction scale value rest).1 ∧
      ((fraction scale value rest).1 < value + 10 * scale ∨
        (fraction scale value rest).1 = value) := by
  induction rest generalizing scale value with
  | nil => exact ⟨le_refl value, Or.inr rfl⟩
  | cons c rest ih =>
    unfold fraction
    cases hdigit : digit? c with
    | none => exact ⟨le_refl value, Or.inr rfl⟩
    | some d =>
      dsimp only
      have hd := digit?_range hdigit
      have hnext := ih (scale / 10) (value + d * scale) (by omega)
      have hlow : 0 ≤ d * scale := mul_nonneg hd.1 hscale
      have hhigh : d * scale ≤ 9 * scale := mul_le_mul_of_nonneg_right hd.2 hscale
      rcases hnext with ⟨hge, hlt | heq⟩
      · refine ⟨by omega, Or.inl ?_⟩
        omega
      · refine ⟨by omega, ?_⟩
        rw [heq]
        rcases eq_or_lt_of_le hscale with hzero | hpos
        · right
          rw [← hzero]
          omega
        · left
          omega

/-- A fraction of a second is less than a second. -/
theorem microsecond?_range {rest tail : List Char} {micros : ℤ}
    (h : microsecond? rest = some (micros, tail)) : 0 ≤ micros ∧ micros < 1000000 := by
  unfold microsecond? at h
  split at h
  · split at h
    · rename_i c rest hsep
      obtain ⟨d, hdigit, hvalue⟩ := Option.map_eq_some_iff.mp h
      have hd := digit?_range hdigit
      have hrange := fraction_range rest 10000 (d * 100000) (by omega)
      rw [hvalue] at hrange
      dsimp only at hrange
      omega
    · cases h
      omega
  · cases h
  · cases h
  · cases h
    omega

theorem guard_holds {p : Prop} [Decidable p] {u : Unit} (h : (guard p : Option Unit) = some u) :
    p := by
  by_contra hnot
  rw [guard, if_neg hnot] at h
  cases h

/-- A time of day that was read lies within the day. -/
theorem timeFromIso8601_range {text : String} {time : ℤ}
    (h : timeFromIso8601 text = some time) : 0 ≤ time ∧ time < usPerDay := by
  unfold timeFromIso8601 at h
  dsimp only at h
  split at h
  · simp only [Option.bind_eq_bind, Option.bind_eq_some_iff] at h
    obtain ⟨hour, hhour, minute, hminute, second, hsecond, ⟨micros, tail⟩, hmicros, u, hguard, h⟩ := h
    have htime : ((hour * 60 + minute) * 60 + second) * 1000000 + micros = time :=
      Option.some.inj h
    obtain ⟨_, hhour', hminute', hsecond'⟩ := guard_holds hguard
    have hhour₀ := twoDigits?_nonneg hhour
    have hminute₀ := twoDigits?_nonneg hminute
    have hsecond₀ := twoDigits?_nonneg hsecond
    have hmicros₀ := microsecond?_range hmicros
    unfold usPerDay
    omega
  · cases h

theorem timeFromIso8601!_range {text : String} {time : ℤ}
    (h : timeFromIso8601! text = .ok time) : 0 ≤ time ∧ time < usPerDay := by
  unfold timeFromIso8601! at h
  cases hread : timeFromIso8601 text with
  | none =>
    rw [hread] at h
    cases h
  | some read =>
    rw [hread] at h
    cases h
    exact timeFromIso8601_range hread

end TimesOfDay

section Openings

/-- Some day opens on which the reading lies between two offsets from midnight. -/
def OpenAt (opens : ℤ → Prop) (first last reading : ℤ) : Prop :=
  ∃ date, opens date ∧ date * usPerDay + first ≤ reading ∧ reading ≤ date * usPerDay + last

variable {opens : ℤ → Prop} {first last day time : ℤ}

/-- An opening that ends before the second midnight has begun today or yesterday. -/
theorem openAt_split (hfirst : 0 ≤ first) (hlast : last < 2 * usPerDay) (htime : 0 ≤ time)
    (htime' : time < usPerDay) :
    OpenAt opens first last (day * usPerDay + time) ↔
      (opens day ∧ first ≤ time ∧ time ≤ last) ∨
        (opens (day - 1) ∧ first ≤ time + usPerDay ∧ time + usPerDay ≤ last) := by
  unfold OpenAt
  unfold usPerDay at hlast htime' ⊢
  constructor
  · intro h
    obtain ⟨date, hopens, hlow, hhigh⟩ := h
    have hdate : date = day ∨ date = day - 1 := by omega
    rcases hdate with rfl | rfl
    · exact Or.inl ⟨hopens, by omega, by omega⟩
    · exact Or.inr ⟨hopens, by omega, by omega⟩
  · intro h
    rcases h with ⟨hopens, hlow, hhigh⟩ | ⟨hopens, hlow, hhigh⟩
    · exact ⟨day, hopens, by omega, by omega⟩
    · exact ⟨day - 1, hopens, by omega, by omega⟩

theorem openAt_iff {reading : NaiveDateTime} (hfirst : 0 ≤ first) (hlast : last < 2 * usPerDay) :
    OpenAt opens first last reading ↔
      (opens reading.toDate ∧ first ≤ reading.toTime ∧ reading.toTime ≤ last) ∨
        (opens (reading.toDate - 1) ∧ first ≤ reading.toTime + usPerDay ∧
          reading.toTime + usPerDay ≤ last) := by
  have hsplit : reading.toDate * usPerDay + reading.toTime = reading :=
    Int.ediv_mul_add_emod reading usPerDay
  have hiff : OpenAt opens first last (reading.toDate * usPerDay + reading.toTime) ↔ _ :=
    openAt_split hfirst hlast reading.toTime_nonneg reading.toTime_lt
  rw [hsplit] at hiff
  exact hiff

end Openings

end Sower.Calendar

namespace Sower.Policy

open Sower.Calendar

section Windows

/-- The window opens on the date. -/
def OpensOn (window : Window) (date : Date) : Prop := dayName (dayOfWeek date) ∈ windowDays window

/-- The last moment of an opening, counted from the midnight before it. -/
def closesAfter (start finish : ℤ) : ℤ := if finish < start then finish + usPerDay else finish

variable {today yesterday : Prop} {start finish time : ℤ}

/-- A window over midnight: nothing lies beyond the end of its first day. -/
theorem overnight_iff (hstart : start < usPerDay) (hfinish : 0 ≤ finish) (htime : 0 ≤ time)
    (htime' : time < usPerDay) :
    (today ∧ start ≤ time) ∨ (yesterday ∧ time ≤ finish) ↔
      (today ∧ start ≤ time ∧ time ≤ finish + usPerDay) ∨
        (yesterday ∧ start ≤ time + usPerDay ∧ time + usPerDay ≤ finish + usPerDay) := by
  constructor
  · intro h
    rcases h with ⟨hday, hafter⟩ | ⟨hday, hbefore⟩
    · exact Or.inl ⟨hday, hafter, by omega⟩
    · exact Or.inr ⟨hday, by omega, by omega⟩
  · intro h
    rcases h with ⟨hday, hafter, _⟩ | ⟨hday, _, hbefore⟩
    · exact Or.inl ⟨hday, hafter⟩
    · exact Or.inr ⟨hday, by omega⟩

/-- A window within a day is not open on the next one. -/
theorem daytime_iff (hfinish : finish < usPerDay) (htime : 0 ≤ time) :
    (today ∧ start ≤ time) ∧ time ≤ finish ↔
      (today ∧ start ≤ time ∧ time ≤ finish) ∨
        (yesterday ∧ start ≤ time + usPerDay ∧ time + usPerDay ≤ finish) := by
  constructor
  · intro h
    obtain ⟨⟨hday, hafter⟩, hbefore⟩ := h
    exact Or.inl ⟨hday, hafter, hbefore⟩
  · intro h
    rcases h with ⟨hday, hafter, hbefore⟩ | ⟨_, _, hbefore⟩
    · exact ⟨⟨hday, hafter⟩, hbefore⟩
    · omega

/-- A time is within a window exactly when it lies in the opening of some day. -/
theorem within_window_iff (tzdb : TimeZoneDatabase) (window : Window) (now : DateTime)
    (timezone : Option String) {reading : NaiveDateTime} {start finish : ℤ}
    (hreading : shiftZone tzdb now ((window.tz.or timezone).getD "Etc/UTC") = .ok reading)
    (hstart : timeFromIso8601! (window.timeStart ++ ":00") = .ok start)
    (hfinish : timeFromIso8601! (window.timeEnd ++ ":00") = .ok finish) :
    ∃ answer, withinWindow tzdb window now timezone = .ok answer ∧
      (answer = true ↔
        OpenAt (OpensOn window) start (closesAfter start finish) reading) := by
  obtain ⟨hstart₀, hstart₁⟩ := timeFromIso8601!_range hstart
  obtain ⟨hfinish₀, hfinish₁⟩ := timeFromIso8601!_range hfinish
  have htime := reading.toTime_nonneg
  have htime' := reading.toTime_lt
  unfold withinWindow
  dsimp only
  rw [hreading, hstart, hfinish]
  dsimp only [bind, Except.bind]
  by_cases hovernight : finish < start
  · have hcloses : closesAfter start finish = finish + usPerDay := if_pos hovernight
    rw [if_pos hovernight, hcloses]
    refine ⟨_, rfl, ?_⟩
    rw [openAt_iff hstart₀ (by omega)]
    unfold overnightMatch OpensOn
    simp only [Bool.or_eq_true, Bool.and_eq_true, decide_eq_true_eq]
    exact overnight_iff hstart₁ hfinish₀ htime htime'
  · have hcloses : closesAfter start finish = finish := if_neg hovernight
    rw [if_neg hovernight, hcloses]
    refine ⟨_, rfl, ?_⟩
    rw [openAt_iff hstart₀ (by omega)]
    unfold OpensOn
    simp only [Bool.and_eq_true, decide_eq_true_eq]
    exact daytime_iff hfinish₁ htime

/-- From Friday to Saturday, at two o'clock on a Saturday. -/
theorem within_window_after_friday :
    ∃ answer, withinWindow .utcOnly
        { days := some ["fri"], timeStart := "22:00", timeEnd := "06:00" } 180000000000 none =
          .ok answer ∧
      (answer = true ↔
        OpenAt (OpensOn { days := some ["fri"], timeStart := "22:00", timeEnd := "06:00" })
          79200000000 (closesAfter 79200000000 21600000000) 180000000000) :=
  within_window_iff .utcOnly _ 180000000000 none rfl (by decide) (by decide)

end Windows

end Sower.Policy
