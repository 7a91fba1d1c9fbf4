/-!
# Instants and their calendar text

An instant is a count of seconds since the beginning of 1970 with nanoseconds and the offset of the
place where it is shown. Its text uses the proleptic Gregorian calendar. Two layouts are written:
the one of literals, without spaces and with the shortest fraction, and the one of values, with
spaces and a fraction in groups of three digits.
-/

namespace SafeQuery.Calendar

/-- A day of the proleptic Gregorian calendar. -/
structure Date where
  year : Int
  month : Nat
  day : Nat
deriving DecidableEq, Repr

/-- The day that lies the given number of days after the first of January 1970. Years are counted
from the first of March, so that the leap day is the last one, in eras of four hundred years. -/
def Date.ofDays (days : Int) : Date :=
  let z := days + 719468
  let era := z / 146097
  let dayOfEra := (z % 146097).toNat
  let yearOfEra := (dayOfEra - dayOfEra / 1460 + dayOfEra / 36524 - dayOfEra / 146096) / 365
  let dayOfYear := dayOfEra - (365 * yearOfEra + yearOfEra / 4 - yearOfEra / 100)
  let monthFromMarch := (5 * dayOfYear + 2) / 153
  let day := dayOfYear - (153 * monthFromMarch + 2) / 5 + 1
  let month := if monthFromMarch < 10 then monthFromMarch + 3 else monthFromMarch - 9
  ⟨yearOfEra + era * 400 + (if month ≤ 2 then 1 else 0), month, day⟩

/-- An instant, and the offset in seconds at which it is shown. From `10 ^ 9` nanoseconds on it lies
in a leap second, which follows the second that is counted. -/
structure Instant where
  seconds : Int
  nanos : Nat
  offset : Int
deriving DecidableEq, Repr

namespace Instant

def same (s t : Instant) : Bool := s.seconds = t.seconds && s.nanos = t.nanos

/-- Earlier instants come first; a leap second comes after the second that it follows. -/
def order (s t : Instant) : Ordering := (compare s.seconds t.seconds).then (compare s.nanos t.nanos)

def localSeconds (t : Instant) : Int := t.seconds + t.offset

def date (t : Instant) : Date := .ofDays (t.localSeconds / 86400)

def secondOfDay (t : Instant) : Nat := (t.localSeconds % 86400).toNat

def fraction (t : Instant) : Nat := t.nanos % 1000000000

end Instant

/-- The digits of a number, with zeros in front up to a width. -/
def padded (width n : Nat) : List Char :=
  let ds := Nat.toDigits 10 n
  List.replicate (width - ds.length) '0' ++ ds

/-- Hours, minutes and seconds, where the sixtieth second is a leap second. -/
def clock (t : Instant) : List Char :=
  let s := t.secondOfDay
  padded 2 (s / 3600) ++ ':' :: padded 2 (s / 60 % 60)
    ++ ':' :: padded 2 (s % 60 + t.nanos / 1000000000)

def monthAndDay (d : Date) : List Char := '-' :: padded 2 d.month ++ '-' :: padded 2 d.day

/-- An offset as signed hours and minutes; seconds are rounded to the nearest minute. -/
def offsetText (offset : Int) : List Char :=
  let minutes := (offset.natAbs + 30) / 60
  (if offset < 0 then '-' else '+') :: padded 2 (minutes / 60) ++ ':' :: padded 2 (minutes % 60)

def yearText (y : Int) : List Char := (if y < 0 then ['-'] else []) ++ padded 4 y.natAbs

def shortFraction (nanos : Nat) : List Char :=
  if nanos = 0 then [] else '.' :: ((padded 9 nanos).reverse.dropWhile (· = '0')).reverse

/-- The text of an instant in a literal. -/
def stamp (t : Instant) : List Char :=
  yearText t.date.year ++ monthAndDay t.date ++ 'T' :: clock t ++ shortFraction t.fraction
    ++ (if t.offset = 0 then ['Z'] else offsetText t.offset)

/-- A year of at least four digits, signed when it has more or is negative. -/
def wideYearText (y : Int) : List Char :=
  (if y < 0 then ['-'] else if 9999 < y then ['+'] else []) ++ padded 4 y.natAbs

/-- The fraction of a second with three, six or nine digits, or nothing. -/
def groupedFraction (nanos : Nat) : List Char :=
  if nanos = 0 then []
  else if nanos % 1000000 = 0 then '.' :: padded 3 (nanos / 1000000)
  else if nanos % 1000 = 0 then '.' :: padded 6 (nanos / 1000)
  else '.' :: padded 9 nanos

def display (t : Instant) : List Char :=
  wideYearText t.date.year ++ monthAndDay t.date ++ ' ' :: clock t ++ groupedFraction t.fraction
    ++ ' ' :: offsetText t.offset

example : String.ofList (stamp ⟨1580646645, 300001000, 0⟩) = "2020-02-02T12:30:45.300001Z" := by
  decide +kernel
example :
    String.ofList (display ⟨1483228799, 1500000000, 0⟩) = "2016-12-31 23:59:60.500 +00:00" := by
  decide +kernel

end SafeQuery.Calendar
