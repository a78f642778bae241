import Mathlib.Data.Int.Order.Basic
import Mathlib.Tactic.Common

/-!
# Instants, wall clocks and times of day

Instants and wall-clock readings are microseconds from 1970-01-01 00:00:00,
the first in UTC, the second as a clock in some zone shows them. The time zone
database is outside the repository and enters as a parameter. Times of day are
read from text as the standard library of the source reads them.
-/

namespace Sower.Calendar

/-- Microseconds since the epoch in UTC. -/
abbrev DateTime := ℤ

/-- Instants are compared as numbers, by comparisons that can be evaluated. -/
instance : LinearOrder DateTime := Int.instLinearOrder

instance : Preorder DateTime := Int.instLinearOrder.toPreorder

/-- A wall-clock reading without a zone, in microseconds since the epoch. -/
abbrev NaiveDateTime := ℤ

/-- Days since the epoch. -/
abbrev Date := ℤ

/-- Microseconds since midnight. -/
abbrev Time := ℤ

/-- Length of a day in microseconds. -/
def usPerDay : ℤ := 86400000000

/-- Reasons for which evaluating a calendar expression raises. -/
inductive Raise where
  /-- The text is no ISO 8601 time of day. -/
  | invalidTime (text : String)
  /-- The time zone database does not know the zone. -/
  | unknownZone (zone : String)
  /-- The schedule has no run before the time. -/
  | noPreviousRun (schedule : String)
  deriving DecidableEq, Repr

/-- How a wall-clock reading resolves to an instant in a zone. -/
inductive Resolution where
  /-- Exactly one instant shows this reading. -/
  | ok (at_ : DateTime)
  /-- Two instants show it; the clock was set back. -/
  | ambiguous (first second : DateTime)
  /-- None shows it; the clock was set forward. -/
  | gap (justBefore justAfter : DateTime)

/-- The installed time zone database. -/
structure TimeZoneDatabase where
  /-- Reading of a clock in the zone at an instant. -/
  wallClock : String → DateTime → Option NaiveDateTime
  /-- Instants at which a clock in the zone shows the reading. -/
  resolve : String → NaiveDateTime → Option Resolution

/-- A database without any zone; only Etc/UTC works with it. -/
def TimeZoneDatabase.utcOnly : TimeZoneDatabase := ⟨fun _ _ => none, fun _ _ => none⟩

/-- `DateTime.shift_zone!`: Etc/UTC needs no database. -/
def shiftZone (tzdb : TimeZoneDatabase) (now : DateTime) (zone : String) :
    Except Raise NaiveDateTime :=
  if zone = "Etc/UTC" then .ok now
  else match tzdb.wallClock zone now with
    | some reading => .ok reading
    | none => .error (.unknownZone zone)

/-- Date of a wall-clock reading. -/
def NaiveDateTime.toDate (reading : NaiveDateTime) : Date := reading / usPerDay

/-- Time of day of a wall-clock reading. -/
def NaiveDateTime.toTime (reading : NaiveDateTime) : Time := reading % usPerDay

theorem NaiveDateTime.toTime_lt (reading : NaiveDateTime) : reading.toTime < usPerDay :=
  Int.emod_lt_of_pos _ (by decide)

theorem NaiveDateTime.toTime_nonneg (reading : NaiveDateTime) : 0 ≤ reading.toTime :=
  Int.emod_nonneg _ (by decide)

/-- Monday is 1 and Sunday is 7; the epoch was a Thursday. -/
def dayOfWeek (date : Date) : ℤ := (date + 3) % 7 + 1

/-- Days of the week are the numbers from 1 to 7. -/
theorem dayOfWeek_range (date : Date) : 1 ≤ dayOfWeek date ∧ dayOfWeek date ≤ 7 := by
  unfold dayOfWeek
  omega

/-- Value of a decimal digit. -/
def digit? (c : Char) : Option ℤ :=
  if '0' ≤ c ∧ c ≤ '9' then some (c.toNat - '0'.toNat : ℕ) else none

/-- Value of two decimal digits. -/
def twoDigits? (a b : Char) : Option ℤ := do
  let x ← digit? a
  let y ← digit? b
  return 10 * x + y

/-- Leading digits of a fraction of a second as microseconds, and what follows
them. Digits past the sixth are dropped. -/
def fraction (scale value : ℤ) : List Char → ℤ × List Char
  | [] => (value, [])
  | c :: rest =>
    match digit? c with
    | some d => fraction (scale / 10) (value + d * scale) rest
    | none => (value, c :: rest)

/-- Optional fraction of a second behind the seconds. -/
def microsecond? : List Char → Option (ℤ × List Char)
  | sep :: c :: rest =>
    if sep = '.' ∨ sep = ',' then
      (digit? c).map fun d => fraction 10000 (d * 100000) rest
    else some (0, sep :: c :: rest)
  | ['.'] => none
  | [','] => none
  | rest => some (0, rest)

/-- Optional offset at the end of a time; it is checked and ignored. -/
def offsetEnds : List Char → Bool
  | [] => true
  | ['Z'] => true
  | [sign, h, h', ':', m, m'] =>
    if [sign, h, h', ':', m, m'] = ['-', '0', '0', ':', '0', '0'] then false
    else (sign = '+' ∨ sign = '-') && (twoDigits? h h').any (· < 24) && (twoDigits? m m').any (· < 60)
  | _ => false

/-- `Time.from_iso8601`: an optional `T`, `HH:MM:SS`, an optional fraction and
an optional offset. -/
def timeFromIso8601 (text : String) : Option Time :=
  let body := match text.toList with
    | 'T' :: rest => rest
    | chars => chars
  match body with
  | h :: h' :: ':' :: m :: m' :: ':' :: s :: s' :: rest => do
    let hour ← twoDigits? h h'
    let minute ← twoDigits? m m'
    let second ← twoDigits? s s'
    let (micros, tail) ← microsecond? rest
    guard (offsetEnds tail = true ∧ hour < 24 ∧ minute < 60 ∧ second < 60)
    return ((hour * 60 + minute) * 60 + second) * 1000000 + micros
  | _ => none

/-- `Time.from_iso8601!`. -/
def timeFromIso8601! (text : String) : Except Raise Time :=
  match timeFromIso8601 text with
  | some time => .ok time
  | none => .error (.invalidTime text)

example : timeFromIso8601 "22:00:00" = some (22 * 3600 * 1000000) := by decide
example : timeFromIso8601 "24:00:00" = none := by decide

/-- The naive reading at an instant; a missing zone is read as Etc/UTC. -/
def toLocalNaive (tzdb : TimeZoneDatabase) (at_ : DateTime) (zone : Option String) :
    Except Raise NaiveDateTime :=
  match zone with
  | none => .ok at_
  | some zone => shiftZone tzdb at_ zone

/-- The instant of a naive reading: the first of two, the one after a gap. -/
def fromLocalNaive (tzdb : TimeZoneDatabase) (reading : NaiveDateTime) (zone : Option String) :
    Except Raise DateTime :=
  match zone with
  | none => .ok reading
  | some zone =>
    if zone = "Etc/UTC" then .ok reading
    else match tzdb.resolve zone reading with
      | some (.ok instant) => .ok instant
      | some (.ambiguous first _) => .ok first
      | some (.gap _ justAfter) => .ok justAfter
      | none => .error (.unknownZone zone)

end Sower.Calendar
