import SafeQuery.Calendar
import SafeQuery.Decimal.General
import SafeQuery.Decimal.Reading
import SafeQuery.Dict

/-!
# Values

What a template works on: the data that it is given, what its variables hold, and what the literal
encoder receives. Values are compared by `Value.same`, shown by `Value.display`, and taken as a
condition by `Value.isTrue`.
-/

namespace SafeQuery

/-- A wrapper that supplies its value on demand, or fails to. It is known by its identity. -/
structure Valuer (α : Type) where
  identity : Nat
  /-- How the wrapper itself is shown. -/
  shown : String
  outcome : Except String α

/-- The data of templates. -/
inductive Value where
  | null
  | bool (b : Bool)
  | int (n : Int64)
  | float (x : Float)
  | bytes (bs : List UInt8)
  | string (s : String)
  | time (t : Calendar.Instant)
  /-- A part of a query that is written as it is. -/
  | raw (sql : String)
  /-- A name that is written as a quoted identifier. -/
  | identifier (name : String)
  | list (vs : List Value)
  | map (entries : Dict Value)
  | valuer (v : Valuer Value)

namespace Value

instance : Inhabited Value := ⟨null⟩

def kind : Value → String
  | null         => "nil"
  | bool _       => "bool"
  | int _        => "int"
  | float _      => "float"
  | bytes _      => "bytes"
  | string _     => "string"
  | time _       => "time"
  | raw _        => "raw sql"
  | identifier _ => "identifier"
  | list _       => "list"
  | map _        => "map"
  | valuer _     => "valuer"

def isNull : Value → Bool
  | null => true
  | _    => false

/-- The value holds as a condition: it is neither absent, false, zero nor empty. -/
def isTrue : Value → Bool
  | null         => false
  | bool b       => b
  | int n        => n != 0
  | float x      => x != 0.0
  | bytes bs     => !bs.isEmpty
  | string s     => !s.isEmpty
  | raw s        => !s.isEmpty
  | identifier s => !s.isEmpty
  | list vs      => !vs.isEmpty
  | map d        => !d.isEmpty
  | time _       => true
  | valuer _     => true

def asString? : Value → Option String
  | string s => some s
  | _        => none

def isString : Value → Bool
  | string _ => true
  | _        => false

/-- Texts between brackets, separated by spaces. -/
def bracketed (ts : List String) : String := "[" ++ " ".intercalate ts ++ "]"

/-- The text of a number of bytes. -/
def byteText (b : UInt8) : String := toString b.toNat

mutual

/-- The text of a value in running text. -/
def display : Value → String
  | null         => "<nil>"
  | bool b       => if b then "true" else "false"
  | int n        => toString n.toInt
  | float x      => Decimal.text x
  | bytes bs     => bracketed (bs.map byteText)
  | string s     => s
  | time t       => String.ofList (Calendar.display t)
  | raw s        => s
  | identifier s => s
  | list vs      => bracketed (displayAll vs)
  | map ⟨es⟩     => "map" ++ bracketed (displayEntries es)
  | valuer v     => v.shown

def displayAll : List Value → List String
  | []      => []
  | v :: vs => display v :: displayAll vs

def displayEntries : List (String × Value) → List String
  | []           => []
  | (k, v) :: es => (k ++ ":" ++ display v) :: displayEntries es

end

mutual

/-- Equality of values: of the same kind and content, where a number that is none equals nothing,
instants do not count their offset, and a valuer equals only itself. -/
def same : Value → Value → Bool
  | null,         null         => true
  | bool a,       bool b       => a == b
  | int a,        int b        => a == b
  | float a,      float b      => a == b
  | bytes a,      bytes b      => a == b
  | string a,     string b     => a == b
  | time a,       time b       => a.same b
  | raw a,        raw b        => a == b
  | identifier a, identifier b => a == b
  | list a,       list b       => sameAll a b
  | map ⟨a⟩,      map ⟨b⟩      => sameEntries a b
  | valuer a,     valuer b     => a.identity == b.identity
  | _,            _            => false

/-- Lists of equal length with equal values at each place. -/
def sameAll : List Value → List Value → Bool
  | [],      []      => true
  | a :: as, b :: bs => same a b && sameAll as bs
  | _,       _       => false

def sameEntries : List (String × Value) → List (String × Value) → Bool
  | [],           []           => true
  | (k, a) :: as, (l, b) :: bs => k == l && same a b && sameEntries as bs
  | _,            _            => false

end

/-- A number of thirty-two bits, with the digits that show it. -/
def ofFloat32 (x : Float32) : Value := float (Decimal.widen x)

/-- A whole number as a value, of sixty-four bits. -/
def ofNat (n : Nat) : Value := int (Int64.ofNat n)

/-- An optional value, absent where there is none. -/
def ofOption : Option Value → Value := (·.getD null)

end Value

end SafeQuery
