import SafeQuery.Dict
import SafeQuery.Value

/-!
# Functions

What a template can call: functions from values to a value, which may fail. Functions are kept
under their names.
-/

namespace SafeQuery

inductive FunctionError where
  | argumentCount (name : String) (want got : Nat)
  /-- There is no argument where there has to be one. -/
  | noArgument (name : String)
  | missingComparand
  | incomparable
  | unordered
  | noLength (kind : String)
  | outOfRange (index : Int64)
  | indexOfNull
  | badIndex (kind : String)
  | badKey (kind : String)
  | notIndexable (kind : String)
  | badFormat (kind : String)
  /-- A number cannot be written with so many places. The program does not survive this. -/
  | tooPrecise
  /-- A function of the program that uses the templates has failed. -/
  | failed (message : String)
deriving DecidableEq

def FunctionError.message : FunctionError → String
  | argumentCount name want got =>
    "wrong number of args for " ++ name ++ ": want " ++ toString want ++ " got " ++ toString got
  | noArgument name   => "wrong number of args for " ++ name ++ ": want at least 1 got 0"
  | missingComparand  => "missing argument for comparison"
  | incomparable      => "incompatible types for comparison"
  | unordered         => "invalid type for comparison"
  | noLength kind     => "len of type " ++ kind
  | outOfRange index  => "index out of range: " ++ toString index.toInt
  | indexOfNull       => "index of untyped nil"
  | badIndex kind     => "cannot index slice/array with type " ++ kind
  | badKey kind       => "value has type " ++ kind ++ "; should be string"
  | notIndexable kind => "can't index item of type " ++ kind
  | badFormat kind    => "wrong type for value; expected string; got " ++ kind
  | tooPrecise        => "Formatting argument out of range"
  | failed message    => message

/-- A function of templates. A value that is handed to it in a pipeline is its last argument. -/
abbrev Function := List Value → Except FunctionError Value

abbrev FunctionTable := Dict Function

end SafeQuery
