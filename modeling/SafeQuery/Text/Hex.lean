/-!
# Hexadecimal digits

Numbers and bytes in base sixteen, with letters of either case.
-/

namespace SafeQuery.Text

/-- The case of the letters among hexadecimal digits. -/
inductive Case where
  | lower
  | upper

/-- The digit of a number below sixteen. -/
def hexDigit (case : Case) (n : Nat) : Char :=
  if n < 10 then Char.ofNat ('0'.toNat + n)
  else match case with
    | .lower => Char.ofNat ('a'.toNat + n - 10)
    | .upper => Char.ofNat ('A'.toNat + n - 10)

/-- Two digits for each byte. -/
def hexBytes (case : Case) (bs : List UInt8) : List Char :=
  bs.flatMap fun b => [hexDigit case (b.toNat / 16), hexDigit case (b.toNat % 16)]

/-- The value of a hexadecimal digit of either case. -/
def hexValue? (c : Char) : Option Nat :=
  if '0' ≤ c && c ≤ '9' then some (c.toNat - '0'.toNat)
  else if 'a' ≤ c && c ≤ 'f' then some (c.toNat - 'a'.toNat + 10)
  else if 'A' ≤ c && c ≤ 'F' then some (c.toNat - 'A'.toNat + 10)
  else none

def isHexDigit (c : Char) : Bool := (hexValue? c).isSome

/-- The digits of a number, without zeros in front. -/
def hexNumber (case : Case) (n : Nat) : List Char :=
  (Nat.toDigits 16 n).map fun c => match hexValue? c with
    | some v => hexDigit case v
    | none   => c

end SafeQuery.Text
