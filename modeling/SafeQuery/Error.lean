import SafeQuery.Execution.Fault
import SafeQuery.File.Disk
import SafeQuery.Glob.Pattern
import SafeQuery.Token.Fault

/-!
# Errors

Everything that can go wrong with templates, and how it is worded.
-/

namespace SafeQuery

/-- Where an execution was, in front of the wording of a cause. -/
def Place.describe (p : Place) (message : String) : String :=
  "template: " ++ p.template ++ ":" ++ toString p.line ++ ": executing \"" ++ p.template
    ++ "\" at <" ++ p.context ++ ">: " ++ message

def ExecutionError.message : ExecutionError → String
  | fault place cause    => place.describe cause.message
  | encoding place cause => place.describe cause.message
  | outputFull           => "IO error: writer is full"

inductive Error where
  /-- The source of a template is wrong. -/
  | source (template : String) (line : Nat) (cause : SyntaxCause)
  | execution (e : ExecutionError)
  /-- The template has not been defined. -/
  | incomplete (name : String)
  | noTemplate (name parent : String)
  /-- A function cannot have the name of the encoder. -/
  | reservedName (name : String)
  | invalidFunctionName (name : String)
  | unknownOption (option : String)
  | noFiles
  | noPatterns
  | noMatch (pattern : String)
  | pattern (f : Glob.PatternFault)
  | file (f : FileFault)
  /-- A settings file is wrong. -/
  | settings

namespace Error

def message : Error → String
  | source template line cause =>
    "template: " ++ template ++ ":" ++ toString line ++ ": " ++ cause.message
  | execution e              => e.message
  | incomplete name          =>
    "sqltemplate: " ++ Text.quoteText name ++ " is an incomplete or empty template"
  | noTemplate name parent   =>
    "sqltemplate: no template " ++ Text.quoteText name ++ " associated with template "
      ++ Text.quoteText parent
  | reservedName name        =>
    "sqltemplate: function name " ++ Text.quoteText name ++ " is reserved"
  | invalidFunctionName name =>
    "sqltemplate: function name " ++ Text.quoteText name ++ " is not a valid identifier"
  | unknownOption option     => "sqltemplate: unrecognized option " ++ Text.quoteText option
  | noFiles                  => "sqltemplate: no files named in call to ParseFiles"
  | noPatterns               => "sqltemplate: no patterns provided in call to ParseFS"
  | noMatch p                => "sqltemplate: pattern matches no files: \x60" ++ p ++ "\x60"
  | pattern f                => "syntax error in pattern: " ++ f.message
  | file f                   => "IO error: " ++ f.message
  | settings                 => "config error: "

/-- The program stops with the error and cannot tell it. -/
def stops : Error → Bool
  | execution (.fault _ (.callFailed _ .tooPrecise)) => true
  | _ => false

/-- The wordings of the errors behind an error, the nearest first. -/
def causes : Error → List String
  | execution (.encoding _ cause) => [cause.message]
  | execution .outputFull         => ["writer is full"]
  | pattern f                     => [f.message]
  | file f                        => [f.message]
  | _                             => []

end Error

end SafeQuery
