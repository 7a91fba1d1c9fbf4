/-!
# Binary floating-point numbers, exactly

A finite number is a whole number of units, each a power of two. `Layout.read` takes the bits of a
number apart; `Binary.compareScaled` compares such numbers with decimal ones in whole numbers, so
that nothing is rounded on the way to a decimal text.
-/

namespace SafeQuery.Decimal

/-- The number `units · 2 ^ exponent`, without its sign. -/
structure Binary where
  units : Nat
  exponent : Int
  /-- The number below is only half as far away as the number above. -/
  narrowBelow : Bool

/-- What the bits of a number stand for, apart from the sign. -/
inductive Magnitude where
  | nan
  | infinite
  | finite (x : Binary)

/-- How many bits a format has for the fraction and for the exponent. -/
structure Layout where
  fractionBits : Nat
  exponentBits : Nat

def Layout.double : Layout := ⟨52, 11⟩

def Layout.single : Layout := ⟨23, 8⟩

namespace Layout

def leastExponent (l : Layout) : Int := 2 - (Nat.pow 2 (l.exponentBits - 1) : Int) - l.fractionBits

def isNegative (l : Layout) (bits : Nat) : Bool :=
  bits / Nat.pow 2 (l.fractionBits + l.exponentBits) % 2 = 1

def read (l : Layout) (bits : Nat) : Magnitude :=
  let fraction := bits % Nat.pow 2 l.fractionBits
  let exponent := bits / Nat.pow 2 l.fractionBits % Nat.pow 2 l.exponentBits
  if exponent + 1 = Nat.pow 2 l.exponentBits then
    if fraction = 0 then .infinite else .nan
  else if exponent = 0 then .finite ⟨fraction, l.leastExponent, false⟩
  else
    .finite ⟨Nat.pow 2 l.fractionBits + fraction, l.leastExponent + (exponent - 1 : Nat),
      fraction = 0 && 1 < exponent⟩

end Layout

/-- What a number of sixty-four bits stands for, apart from its sign. -/
def magnitude (x : Float) : Magnitude := Layout.double.read x.toBits.toNat

def isFinite (x : Float) : Bool :=
  match magnitude x with
  | .finite _ => true
  | _         => false

/-- The number has the sign bit, also when it is zero. -/
def isNegative (x : Float) : Bool := Layout.double.isNegative x.toBits.toNat

/-- How a tie between two neighbours is settled. -/
inductive Tie where
  | toEven
  | up

def roundDiv (num den : Nat) (tie : Tie) : Nat :=
  let q := num / den
  match compare (2 * (num % den)) den, tie with
  | .lt, _       => q
  | .gt, _       => q + 1
  | .eq, .up     => q + 1
  | .eq, .toEven => if q % 2 = 0 then q else q + 1

namespace Binary

/-- The numerator of `units · 2 ^ exponent / 10 ^ e` over the denominator `scaledDen`. -/
def scaledNum (x : Binary) (e : Int) : Nat :=
  x.units * Nat.pow 2 x.exponent.toNat * Nat.pow 10 (-e).toNat

/-- The denominator that goes with `scaledNum`. -/
def scaledDen (x : Binary) (e : Int) : Nat := Nat.pow 2 (-x.exponent).toNat * Nat.pow 10 e.toNat

def compareScaled (x : Binary) (n : Nat) (e : Int) : Ordering :=
  compare (x.scaledNum e) (n * x.scaledDen e)

/-- The least `k` with the number below `10 ^ k`, estimated from the binary logarithm and set right
by comparing. -/
def decimalSize (x : Binary) : Int :=
  let estimate : Int := (x.units.log2 + x.exponent) * 30103 / 100000
  if x.compareScaled 1 estimate = .lt then estimate
  else if x.compareScaled 1 (estimate + 1) = .lt then estimate + 1
  else estimate + 2

/-- The number in units of `10 ^ e`, rounded to a whole one. -/
def roundedTo (x : Binary) (e : Int) (tie : Tie) : Nat :=
  roundDiv (x.scaledNum e) (x.scaledDen e) tie

end Binary

end SafeQuery.Decimal
