import SafeQuery.Decimal.Shortest

/-!
# Reading decimals

A decimal numeral is an optional sign, digits with at most one point, at least one digit, and an
optional exponent. It is read as the nearest floating-point number.
-/

namespace SafeQuery.Decimal

def isDigit (c : Char) : Bool := '0' ≤ c && c ≤ '9'

def digitValue (c : Char) : Nat := c.toNat - '0'.toNat

/-- The number that digits write in base ten, put behind the digits of `n`. -/
def valueFrom (n : Nat) (ds : List Char) : Nat := ds.foldl (fun n d => n * 10 + digitValue d) n

/-- The number that digits write in base ten. -/
def value (ds : List Char) : Nat := valueFrom 0 ds

/-- A numeral taken apart: the number is `units · 10 ^ exponent`. -/
structure Numeral where
  negative : Bool
  units : Nat
  exponent : Int

/-- Take a sign off. -/
def splitSign : List Char → Bool × List Char
  | '-' :: cs => (true, cs)
  | '+' :: cs => (false, cs)
  | cs        => (false, cs)

/-- The exponent that ends a numeral, if it is one. -/
def readExponent? : List Char → Option Int
  | []      => some 0
  | c :: cs =>
    if c = 'e' || c = 'E' then
      let (negative, ds) := splitSign cs
      if ds.isEmpty || !ds.all isDigit then none
      else some (if negative then -(value ds : Int) else value ds)
    else none

def Numeral.read? (cs : List Char) : Option Numeral :=
  let (negative, cs) := splitSign cs
  let whole := cs.takeWhile isDigit
  let rest := cs.dropWhile isDigit
  let (fraction, rest) :=
    match rest with
    | '.' :: cs => (cs.takeWhile isDigit, cs.dropWhile isDigit)
    | cs        => ([], cs)
  if whole.isEmpty && fraction.isEmpty then none
  else (readExponent? rest).map fun e => ⟨negative, value (whole ++ fraction), e - fraction.length⟩

/-- The exponent, cut where the number is certainly too large or too small for a float. -/
def Numeral.cutExponent (n : Numeral) : Int :=
  max (min n.exponent 400) (-(400 + (Nat.toDigits 10 n.units).length : Int))

def Numeral.toFloat (n : Numeral) : Float :=
  let x := Float.ofScientific n.units (n.cutExponent < 0) n.cutExponent.natAbs
  if n.negative then -x else x

def Numeral.toFloat32 (n : Numeral) : Float32 :=
  let x := Float32.ofScientific n.units (n.cutExponent < 0) n.cutExponent.natAbs
  if n.negative then -x else x

def readFloat? (cs : List Char) : Option Float := (Numeral.read? cs).map (·.toFloat)

/-- The number of sixty-four bits with the shortest decimal of one of thirty-two bits, so that
`0.1` stays `0.1`. -/
def widen (x : Float32) : Float :=
  match Layout.single.read x.toBits.toNat with
  | .finite b =>
    let s := b.shortest
    let negative := Layout.single.isNegative x.toBits.toNat
    Numeral.toFloat ⟨negative, value s.digits, s.exponent - (s.digits.length - 1 : Nat)⟩
  | _ => x.toFloat

end SafeQuery.Decimal
