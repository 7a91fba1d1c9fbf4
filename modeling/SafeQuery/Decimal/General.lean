import SafeQuery.Decimal.Shortest

/-!
# Texts of floating-point numbers

Two layouts of a number. The general one starts from the shortest digits, or from a count of
significant ones, and writes an exponent where the number is small or large; the fixed one has a
given number of places.
-/

namespace SafeQuery.Decimal

/-- At least two digits of an exponent. -/
def exponentDigits (n : Nat) : List Char :=
  let ds := Nat.toDigits 10 n
  if ds.length < 2 then '0' :: ds else ds

/-- With an exponent: one digit, the others after a point, and a signed exponent. -/
def withExponent (s : Scientific) : List Char :=
  let fraction := s.digits.tail
  s.digits.take 1 ++ (if fraction.isEmpty then [] else '.' :: fraction)
    ++ ['e', if s.exponent < 0 then '-' else '+'] ++ exponentDigits s.exponent.natAbs

/-- Without an exponent: the point stands inside the digits, or zeros fill the gap to it. -/
def positional (s : Scientific) : List Char :=
  if s.exponent < 0 then
    '0' :: '.' :: List.replicate (s.exponent.natAbs - 1) '0' ++ s.digits
  else
    let whole := s.exponent.toNat + 1
    let fraction := s.digits.drop whole
    s.digits.take whole ++ List.replicate (whole - s.digits.length) '0'
      ++ (if fraction.isEmpty then [] else '.' :: fraction)

/-- The exponent from which on one is written: six for the shortest digits; with a precision the
precision, or the number of digits where that is smaller and still holds the whole part. Both are
taken as numbers of thirty-two bits, so that a precision that does not fit in them wraps around. -/
def exponentFrom (precision : Option Nat) (s : Scientific) : Int :=
  match precision with
  | none   => 6
  | some p =>
    let p := (Int32.ofNat (max p 1)).toInt
    let count := (Int32.ofNat s.digits.length).toInt
    if count < p && s.exponent + 1 ≤ count then count else p

/-- The general layout of a number without sign: an exponent is written below `-4` and from
`exponentFrom` on. -/
def layOut (precision : Option Nat) (s : Scientific) : List Char :=
  if s.exponent < -4 || exponentFrom precision s ≤ s.exponent then withExponent s else positional s

def Binary.generalDigits (x : Binary) : Option Nat → Scientific
  | none   => x.shortest
  | some p => x.significant (max p 1)

/-- A minus sign for a number below zero, and for the zero that has one. -/
def signOf (x : Float) : List Char := if isNegative x then ['-'] else []

def general (precision : Option Nat) (x : Float) : String :=
  match magnitude x with
  | .nan      => "NaN"
  | .infinite => if isNegative x then "-Inf" else "+Inf"
  | .finite b =>
    String.ofList (signOf x ++ layOut precision (b.generalDigits precision))

/-- The shortest text of a number, as values show it. -/
def text (x : Float) : String := general none x

/-- A whole number of units of `10 ^ -places`, with the point before the places. -/
def withPlaces (n places : Nat) : List Char :=
  let ds := Nat.toDigits 10 n
  let ds := List.replicate (places + 1 - ds.length) '0' ++ ds
  let whole := ds.length - places
  ds.take whole ++ (if places = 0 then [] else '.' :: ds.drop whole)

/-- The fixed layout, of the exact number; a tie goes to the even neighbour. -/
def fixed (places : Nat) (x : Float) : String :=
  match magnitude x with
  | .nan      => "NaN"
  | .infinite => if isNegative x then "-Inf" else "+Inf"
  | .finite b =>
    String.ofList (signOf x ++ withPlaces (b.roundedTo (-(places : Int)) .toEven) places)

end SafeQuery.Decimal
