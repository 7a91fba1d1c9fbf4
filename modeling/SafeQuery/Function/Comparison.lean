import SafeQuery.Function.Basic

/-!
# Comparison

Values of the same kind are compared if the kind has an order, and whole numbers are compared with
floating-point numbers as such. The absent value is equal to itself only. The comparison functions
of templates all rest on `Value.order`.
-/

namespace SafeQuery

/-- The order of numbers; a number that is none has no place in it. -/
def orderFloats (x y : Float) : Option Ordering :=
  if x < y then some .lt
  else if x == y then some .eq
  else if y < x then some .gt
  else none

/-- The floating-point number that is nearest to a whole number, or the even one of two such
numbers. -/
def floatOfInt (n : Int64) : Float :=
  let x := (UInt64.ofNat n.toInt.natAbs).toFloat
  if n.toInt < 0 then -x else x

/-- The order of two values, or none if they are not ordered though comparable. -/
def Value.order : Value → Value → Except FunctionError (Option Ordering)
  | .int m,    .int n    => .ok (some (compare m.toInt n.toInt))
  | .int m,    .float y  => .ok (orderFloats (floatOfInt m) y)
  | .float x,  .int n    => .ok (orderFloats x (floatOfInt n))
  | .float x,  .float y  => .ok (orderFloats x y)
  | .string s, .string t => .ok (some (compareOfLessAndEq s t))
  | .bool a,   .bool b   => .ok (some (compare a b))
  | .time s,   .time t   => .ok (some (s.order t))
  | _,         _         => .error .incomparable

def Value.isEqual : Value → Value → Except FunctionError Bool
  | .null, .null => .ok true
  | .null, _     => .ok false
  | _,     .null => .ok false
  | v,     w     => return (← v.order w) = some .eq

/-- One of the values is equal to `v`; the first that is equal or not comparable decides. -/
def Value.equalsAny (v : Value) : List Value → Except FunctionError Bool
  | []      => .ok false
  | w :: ws => do if ← v.isEqual w then return true else v.equalsAny ws

namespace Function

def eq : Function
  | v :: w :: ws => return .bool (← v.equalsAny (w :: ws))
  | _            => .error .missingComparand

def ne : Function
  | [v, w] => return .bool !(← v.isEqual w)
  | vs     => .error (.argumentCount "ne" 2 vs.length)

/-- Two arguments whose order is one of the wanted ones. -/
def ordered (name : String) (wanted : Ordering → Bool) : Function
  | [v, w] => do
    match v, w with
    | .bool _, _ => throw .unordered
    | _, .bool _ => throw .unordered
    | v, w       => return .bool ((← v.order w).any wanted)
  | vs => .error (.argumentCount name 2 vs.length)

def lt : Function := ordered "lt" (·.isLT)

def le : Function := ordered "le" (·.isLE)

def gt : Function := ordered "gt" (·.isGT)

def ge : Function := ordered "ge" (·.isGE)

end Function

end SafeQuery
