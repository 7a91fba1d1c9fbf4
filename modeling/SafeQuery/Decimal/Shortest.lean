import SafeQuery.Decimal.Binary

/-!
# Shortest decimals

The shortest decimal that is read back as a given number: among the decimals that round to the
number, one with the fewest digits, and of these the nearest; of two that are equally near, the
greater. `Binary.readsBack` says which decimals round to the number.
-/

namespace SafeQuery.Decimal

/-- The number `d.ddd · 10 ^ exponent`, given by its digits in order. -/
structure Scientific where
  digits : List Char
  exponent : Int
deriving DecidableEq, Repr

/-- Drop the zeros at the end, but not the last digit. -/
def dropTrailingZeros (ds : List Char) : List Char :=
  match ds with
  | []      => []
  | d :: ds => d :: (ds.reverse.dropWhile (· = '0')).reverse

/-- The number `n · 10 ^ e`, without zeros at the end. -/
def Scientific.ofNat (n : Nat) (e : Int) : Scientific :=
  let ds := Nat.toDigits 10 n
  ⟨dropTrailingZeros ds, e + (ds.length - 1 : Nat)⟩

namespace Binary

/-- The decimal `n · 10 ^ e` lies among the numbers that round to this one, where the ends of the
interval belong to it exactly when the number of units is even. -/
def readsBack (x : Binary) (n : Nat) (e : Int) : Bool :=
  let below : Binary :=
    ⟨if x.narrowBelow then 4 * x.units - 1 else 4 * x.units - 2, x.exponent - 2, false⟩
  let above : Binary := ⟨4 * x.units + 2, x.exponent - 2, false⟩
  let closed := x.units % 2 = 0
  let low := below.compareScaled n e
  let high := above.compareScaled n e
  (low = .lt || closed && low = .eq) && (high = .gt || closed && high = .eq)

/-- The nearer of the two neighbours of the number on the grid of `10 ^ e` that read back. -/
def onGrid (x : Binary) (e : Int) : Option Nat :=
  let n := x.scaledNum e / x.scaledDen e
  match x.readsBack n e, x.readsBack (n + 1) e with
  | true,  true  => some (x.roundedTo e .up)
  | true,  false => some n
  | false, true  => some (n + 1)
  | false, false => none

def exact (x : Binary) : Scientific :=
  if 0 ≤ x.exponent then .ofNat (x.units * Nat.pow 2 x.exponent.toNat) 0
  else .ofNat (x.units * Nat.pow 5 (-x.exponent).toNat) x.exponent

/-- The first grid on which a neighbour reads back, from the grid of the leading digit on. -/
def firstGrid (x : Binary) (size : Int) : Nat → Nat → Option Scientific
  | _, 0        => none
  | n, left + 1 =>
    match x.onGrid (size - n) with
    | some k => some (.ofNat k (size - n))
    | none   => firstGrid x size (n + 1) left

/-- The shortest decimal that is read back as this number; seventeen digits suffice. -/
def shortest (x : Binary) : Scientific :=
  if x.units = 0 then ⟨['0'], 0⟩
  else (x.firstGrid x.decimalSize 1 17).getD x.exact

/-- The number rounded to a count of significant digits, of which there is at least one; a tie goes
to the even neighbour. -/
def significant (x : Binary) (count : Nat) : Scientific :=
  if x.units = 0 then ⟨['0'], 0⟩
  else
    let grid := x.decimalSize - count
    .ofNat (x.roundedTo grid .toEven) grid

end Binary

end SafeQuery.Decimal
