import SafeQuery.Format
import SafeQuery.Function.Comparison
import SafeQuery.Text.Utf8

/-!
# Builtin functions

The functions that every template can call: logic, size, indexing, comparison and printing.
-/

namespace SafeQuery

namespace Function

/-- The first value that does not hold, or the last one. -/
def conj : Function
  | []      => .error (.noArgument "and")
  | v :: vs => .ok (((v :: vs).find? fun v => !v.isTrue).getD ((v :: vs).getLast (by simp)))

/-- The first value that holds, or the last one. -/
def disj : Function
  | []      => .error (.noArgument "or")
  | v :: vs => .ok (((v :: vs).find? fun v => v.isTrue).getD ((v :: vs).getLast (by simp)))

def negation : Function
  | [v] => .ok (.bool !v.isTrue)
  | vs  => .error (.argumentCount "not" 1 vs.length)

/-- The number of bytes, values or entries. -/
def len : Function
  | [.string s] => .ok (.ofNat s.utf8ByteSize)
  | [.bytes bs] => .ok (.ofNat bs.length)
  | [.list vs]  => .ok (.ofNat vs.length)
  | [.map d]    => .ok (.ofNat d.size)
  | [v]         => .error (.noLength v.kind)
  | vs          => .error (.argumentCount "len" 1 vs.length)

def itemAt (vs : List Value) (i : Int64) : Except FunctionError Value :=
  if i < 0 then .error (.outOfRange i)
  else match vs[i.toInt.toNat]? with
    | some v => .ok v
    | none   => .error (.outOfRange i)

def ofByte (b : UInt8) : Value := .ofNat b.toNat

/-- What a value holds at an index: an item of a list, a byte, or the value of a key, which may be
absent. -/
def indexOne : Value → Value → Except FunctionError Value
  | .list vs,   .int i    => itemAt vs i
  | .bytes bs,  .int i    => itemAt (bs.map ofByte) i
  | .string s,  .int i    => itemAt ((Text.bytesOf s).map ofByte) i
  | .map d,     .string k => .ok ((d.get? k).getD .null)
  | .null,      _         => .error .indexOfNull
  | .list _,    i         => .error (.badIndex i.kind)
  | .bytes _,   i         => .error (.badIndex i.kind)
  | .string _,  i         => .error (.badIndex i.kind)
  | .map _,     i         => .error (.badKey i.kind)
  | v,          _         => .error (.notIndexable v.kind)

/-- What a value holds at one index after the other. -/
def index : Function
  | []      => .error (.noArgument "index")
  | v :: is => is.foldlM indexOne v

/-- Print values in a format, which is the first argument. -/
def printf : Function
  | []                 => .error (.noArgument "printf")
  | .string f :: vs    =>
    if tooPrecise (directives f.toList) vs then .error .tooPrecise
    else .ok (.string (sprintf f vs))
  | v :: _             => .error (.badFormat v.kind)

end Function

def builtins : FunctionTable := .ofList
  [("and", Function.conj), ("or", Function.disj), ("not", Function.negation),
   ("len", Function.len), ("index", Function.index),
   ("eq", Function.eq), ("ne", Function.ne), ("lt", Function.lt), ("le", Function.le),
   ("gt", Function.gt), ("ge", Function.ge),
   ("print", fun vs => .ok (.string (sprint vs))),
   ("println", fun vs => .ok (.string (sprintln vs))),
   ("printf", Function.printf)]

end SafeQuery
