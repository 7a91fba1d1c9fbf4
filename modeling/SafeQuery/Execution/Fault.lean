import SafeQuery.Function.Basic
import SafeQuery.Literal
import SafeQuery.Text.Quoted
import SafeQuery.Tree.Hook

/-!
# Failures of an execution

An execution fails at a place of a template, because of the template and its data or because a
value has no literal, or it fails because its output cannot be written.
-/

namespace SafeQuery

/-- Calls of templates are nested at most as deep as this. -/
def maxCallDepth : Nat := 256

/-- A place of a template: its line, and the beginning of the source of what is executed there. -/
structure Place where
  template : String
  line : Nat
  context : String
deriving DecidableEq, Repr

/-- The beginning of a text: twenty characters, and a mark if there are more. -/
def shortened (s : String) : String :=
  if s.length ≤ 20 then s else String.ofList (s.toList.take 20) ++ "..."

/-- Why a template cannot be executed with its data. -/
inductive ExecutionCause where
  /-- The encoder takes one value. -/
  | encoderArguments (got : Nat)
  | noArgument (function : String)
  | emptyCommand
  | explicitNil (operand : String)
  | nilCommand
  | notAFunction (operand : String)
  | noFields
  | notAMethod (field : String)
  | missingKey (key : String)
  | nilData (key : String)
  | noField (field kind : String)
  | unknownFunction (name : String)
  | callFailed (function : String) (cause : FunctionError)
  | undefinedVariable (name : String)
  | illegalNumber (text : String)
  | notIterable (shown : String)
  | noTemplate (name : String)
  | tooDeep
deriving DecidableEq

def ExecutionCause.message : ExecutionCause → String
  | encoderArguments got   =>
    "wrong number of args for " ++ hookName ++ ": want 1 got " ++ toString got
  | noArgument function    => (FunctionError.noArgument function).message
  | emptyCommand           => "empty command"
  | explicitNil operand    => "indirection through explicit nil in " ++ operand
  | nilCommand             => "nil is not a command"
  | notAFunction operand   => "can't give argument to non-function " ++ operand
  | noFields               => "internal error: no fields in field chain"
  | notAMethod field       => field ++ " is not a method but has arguments"
  | missingKey key         => "map has no entry for key " ++ Text.quoteText key
  | nilData key            => "nil data; no entry for key " ++ Text.quoteText key
  | noField field kind     => "can't evaluate field " ++ field ++ " in type " ++ kind
  | unknownFunction name   => Text.quoteText name ++ " is not a defined function"
  | callFailed function e  => "error calling " ++ function ++ ": " ++ e.message
  | undefinedVariable name => "undefined variable: " ++ name
  | illegalNumber text     => "illegal number syntax: " ++ Text.quoteText text
  | notIterable shown      => "range can't iterate over " ++ shown
  | noTemplate name        => "template: no such template " ++ Text.quoteText name
  | tooDeep                => "exceeded maximum template depth (" ++ toString maxCallDepth ++ ")"

inductive ExecutionError where
  | fault (place : Place) (cause : ExecutionCause)
  /-- The value that a command yields has no literal. -/
  | encoding (place : Place) (cause : EncodeError)
  /-- The output takes no more bytes. -/
  | outputFull

end SafeQuery
