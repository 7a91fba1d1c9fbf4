import SafeQuery.Text.Hex
import SafeQuery.Value

/-!
# Literals

How values are written into a query. An encoder turns a value into the text of a literal or
refuses it; `Literal.postgres` is the encoder that templates start with.
-/

namespace SafeQuery

inductive EncodeError where
  /-- Values of this kind have no literal. -/
  | unsupported (kind : String)
  /-- The valuer did not supply its value. -/
  | valuer (message : String)

def EncodeError.message : EncodeError → String
  | unsupported kind => "unsupported type " ++ kind
  | valuer message   => message

/-- Turns a value into the text of a literal. -/
abbrev Encoder := Value → Except EncodeError String

namespace Literal

/-- Text between quotes, where a quote inside is written twice. -/
def quotedBy (quote : Char) (s : String) : String :=
  String.ofList (quote :: s.toList.flatMap (fun c => if c = quote then [c, c] else [c]) ++ [quote])

/-- The literal of a number: a decimal, or a quoted word where it is no finite number. -/
def float (x : Float) : String :=
  match Decimal.magnitude x with
  | .nan      => "'NaN'"
  | .infinite => if Decimal.isNegative x then "'-Infinity'" else "'Infinity'"
  | .finite _ => Decimal.text x

/-- The literal of bytes: two digits for each after a mark. -/
def bytes (bs : List UInt8) : String :=
  String.ofList (['\'', '\\', 'x'] ++ Text.hexBytes .upper bs ++ ['\''])

/-- The literal of a value that is no valuer, or a valuer that was supplied by another. -/
def ofResolved : Value → Except EncodeError String
  | .null            => .ok "NULL"
  | .raw sql         => .ok sql
  | .identifier name => .ok (quotedBy '"' name)
  | .bool true       => .ok "TRUE"
  | .bool false      => .ok "FALSE"
  | .int n           => .ok (toString n.toInt)
  | .float x         => .ok (float x)
  | .bytes bs        => .ok (bytes bs)
  | .string s        => .ok (quotedBy '\'' s)
  | .time t          => .ok (String.ofList ('\'' :: Calendar.stamp t ++ ['\'']))
  | v                => .error (.unsupported v.kind)

/-- The literals of PostgreSQL. A valuer is asked once for its value. -/
def postgres : Encoder
  | .valuer v =>
    match v.outcome with
    | .ok value      => ofResolved value
    | .error message => .error (.valuer message)
  | v         => ofResolved v

end Literal

end SafeQuery
