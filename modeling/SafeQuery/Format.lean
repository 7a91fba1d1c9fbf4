import SafeQuery.Text.Hex
import SafeQuery.Text.Quoted
import SafeQuery.Text.Utf8
import SafeQuery.Value

/-!
# Formatted printing

Values are printed side by side, or at the places that a format gives them. A format is read as a
list of directives; each directive that shows a value takes the next one, values that are missing
are noted at their place, and values that are left over are noted at the end.
-/

namespace SafeQuery

/-- The texts of values, with a space between two values of which none is a string. -/
def sprintFrom (previous : Value) : List Value → String
  | []      => ""
  | v :: vs =>
    (if previous.isString || v.isString then "" else " ") ++ v.display ++ sprintFrom v vs

def sprint : List Value → String
  | []      => ""
  | v :: vs => v.display ++ sprintFrom v vs

/-- The texts of values with spaces between them, and a line break. -/
def sprintln (vs : List Value) : String := " ".intercalate (vs.map Value.display) ++ "\n"

/-- A piece of a format. -/
inductive Directive where
  | text (c : Char)
  /-- The next value is shown here. -/
  | fill (precision : Option Nat) (verb : Char)
  /-- The format ends within a directive. -/
  | cut
deriving DecidableEq, Repr

/-- The precision behind a percent sign, if there is one, and what follows. A precision that does
not fit in sixty-four bits counts as none at all. -/
def readPrecision : List Char → Option Nat × List Char
  | '.' :: cs =>
    let n := Decimal.value (cs.takeWhile Decimal.isDigit)
    (some (if n < UInt64.size then n else 0), cs.dropWhile Decimal.isDigit)
  | cs => (none, cs)

theorem readPrecision_length (cs : List Char) : (readPrecision cs).2.length ≤ cs.length := by
  unfold readPrecision
  split
  · rename_i cs
    have := (List.dropWhile_suffix (l := cs) Decimal.isDigit).length_le
    simp only [List.length_cons]
    omega
  · simp

def directives (format : List Char) : List Directive :=
  match format with
  | []        => []
  | '%' :: cs =>
    match _h : readPrecision cs with
    | (_, [])              => [.cut]
    | (precision, v :: cs') =>
      (if v = '%' then .text '%' else .fill precision v) :: directives cs'
  | c :: cs   => .text c :: directives cs
termination_by format.length
decreasing_by
  · have := readPrecision_length cs
    rw [_h] at this
    simp only [List.length_cons] at *
    omega
  · simp

/-- A text between double quotes with escapes for the controls, as it can be read in a template. -/
def quoteForTemplate (s : String) : String :=
  String.ofList ('"' :: s.toList.flatMap quoted ++ ['"'])
where
  /-- One character of the text. -/
  quoted (c : Char) : List Char :=
    if c = '"' then ['\\', '"']
    else if c = '\\' then ['\\', '\\']
    else if c = '\n' then ['\\', 'n']
    else if c = '\t' then ['\\', 't']
    else if c = '\r' then ['\\', 'r']
    else if c.toNat < 0x20 || c = '\x7f' then
      ['\\', 'x', Text.hexDigit .lower (c.toNat / 16), Text.hexDigit .lower (c.toNat % 16)]
    else [c]

/-- The character of a code point, if it is one. -/
def charOfInt? (n : Int64) : Option Char :=
  if 0 ≤ n.toInt ∧ n.toInt.toNat.isValidChar then some (Char.ofNat n.toInt.toNat) else none

def signedHex (case : Text.Case) (n : Int64) : String :=
  String.ofList ((if n.toInt < 0 then ['-'] else []) ++ Text.hexNumber case n.toInt.natAbs)

def hexText (case : Text.Case) (bs : List UInt8) : String := String.ofList (Text.hexBytes case bs)

/-- What a verb shows of a value, if it is meant for values of this kind. -/
def showAs? (precision : Option Nat) : Char → Value → Option String
  | 'v', v             => some v.display
  | 's', .string s     => some s
  | 's', .raw s        => some s
  | 's', .identifier s => some s
  | 's', .bytes bs     => some (Text.ofBytesLenient bs)
  | 'd', .int n        => some (toString n.toInt)
  | 't', .bool b       => some (if b then "true" else "false")
  | 'q', .string s     => some (quoteForTemplate s)
  | 'q', .bytes bs     => some (quoteForTemplate (Text.ofBytesLenient bs))
  | 'q', .int n        => (charOfInt? n).map Text.quoteChar
  | 'g', .float x      => some (Decimal.general precision x)
  | 'f', .float x      => some (Decimal.fixed (precision.getD 6) x)
  | 'x', .int n        => some (signedHex .lower n)
  | 'X', .int n        => some (signedHex .upper n)
  | 'x', .string s     => some (hexText .lower (Text.bytesOf s))
  | 'X', .string s     => some (hexText .upper (Text.bytesOf s))
  | 'x', .bytes bs     => some (hexText .lower bs)
  | 'X', .bytes bs     => some (hexText .upper bs)
  | _,   _             => none

/-- A value with its kind, for the notes about what does not fit. -/
def described (v : Value) : String := v.kind ++ "=" ++ v.display

/-- What a directive shows of a value; a value that the verb is not meant for is noted. -/
def showWith (precision : Option Nat) (verb : Char) (v : Value) : String :=
  (showAs? precision verb v).getD ("%!" ++ String.singleton verb ++ "(" ++ described v ++ ")")

def extraNote : List Value → String
  | [] => ""
  | vs => "%!(EXTRA " ++ ", ".intercalate (vs.map described) ++ ")"

/-- Follow directives with the values that are still there. -/
def follow : List Directive → List Value → List Char
  | [],                  vs      => (extraNote vs).toList
  | .text c :: ds,       vs      => c :: follow ds vs
  | .fill p verb :: ds,  v :: vs => (showWith p verb v).toList ++ follow ds vs
  | .fill _ verb :: ds,  []      => '%' :: '!' :: verb :: "(MISSING)".toList ++ follow ds []
  | .cut :: ds,          vs      => "%!(NOVERB)".toList ++ follow ds vs

/-- A number is written with so many places at most. -/
def maxPlaces : Nat := 65535

/-- How many places a verb asks for behind the first digit of a number, or behind its point. -/
def places? (precision : Option Nat) : Char → Value → Option Nat
  | 'g', .float x => if Decimal.isFinite x then precision.map (max · 1 - 1) else none
  | 'f', .float x => if Decimal.isFinite x then some (precision.getD 6) else none
  | _,   _        => none

/-- Directives that ask for more places than a number is written with. -/
def tooPrecise : List Directive → List Value → Bool
  | .fill p verb :: ds, v :: vs => (places? p verb v).any (maxPlaces < ·) || tooPrecise ds vs
  | _ :: ds,            vs      => tooPrecise ds vs
  | [],                 _       => false

def sprintf (format : String) (vs : List Value) : String :=
  String.ofList (follow (directives format.toList) vs)

end SafeQuery
