import SafeQuery.Token.Basic

/-!
# Faults of a source

Why a source is no template. A fault lies at an offset; its wording is kept apart in
`SyntaxCause.message`.
-/

namespace SafeQuery

/-- The clause of a template that is being read, for diagnostics. -/
inductive Clause where
  | command
  | branch (kind : Control)
  | templateCall
  | block
  | define
  | parentheses
  | operand
  | otherwise
  | finish
  | loopExit (k : Keyword)

def Clause.name : Clause → String
  | command     => "command"
  | branch kind => kind.word
  | templateCall => "template clause"
  | block       => "block clause"
  | define      => "define clause"
  | parentheses => "parenthesized pipeline"
  | operand     => "operand"
  | otherwise   => "else"
  | finish      => "end"
  | loopExit k  => "\x7b\x7b" ++ k.word ++ "\x7d\x7d"

/-- Why a source is no template. -/
inductive SyntaxCause where
  | unclosedComment
  | commentBeforeDelimiter
  | unclosedAction
  | badEscape
  | unterminatedString
  | unterminatedRawString
  | badNumber (word : String)
  | unexpectedCharacter (c : Char)
  | unexpectedToken (kind : TokenKind) (clause : Clause)
  | missingValue (clause : Clause)
  | missingName (clause : Clause)
  | missingCommand
  | emptyCommand
  | notExecutable (stage : Nat)
  | tooManyDeclarations (clause : Clause)
  | missingDeclare (clause : Clause)
  | undefinedVariable (name : String)
  | undefinedFunction (name : String)
  | unclosedParen
  | fieldAfter (operand : String)
  | illegalNumber (text : String)
  | missingDefinitionName
  | strayElse
  | strayEnd
  | elseIn (clause : Clause)
  | elseAfterElse
  | outsideRange (k : Keyword)
  | unexpectedEnd
  | redefined (name : String)

def SyntaxCause.message : SyntaxCause → String
  | unclosedComment            => "unclosed comment"
  | commentBeforeDelimiter     => "comment ends before closing delimiter"
  | unclosedAction             => "unclosed action"
  | badEscape                  => "invalid syntax in quoted string"
  | unterminatedString         => "unterminated quoted string"
  | unterminatedRawString      => "unterminated raw quoted string"
  | badNumber word             => "bad number syntax: " ++ Text.quoteText word
  | unexpectedCharacter c      =>
    "unexpected " ++ Text.quoteText (String.singleton c) ++ " in command"
  | unexpectedToken kind cl    => "unexpected " ++ kind.describe ++ " in " ++ cl.name
  | missingValue cl            => "missing value for " ++ cl.name
  | missingName cl             => "missing name in " ++ cl.name
  | missingCommand             => "missing command after |"
  | emptyCommand               => "empty command"
  | notExecutable stage        => "non executable command in pipeline stage " ++ toString stage
  | tooManyDeclarations cl     => "too many declarations in " ++ cl.name
  | missingDeclare cl          => "missing := in " ++ cl.name
  | undefinedVariable name     => "undefined variable " ++ Text.quoteText name
  | undefinedFunction name     => "function " ++ Text.quoteText name ++ " not defined"
  | unclosedParen              => "unclosed left paren"
  | fieldAfter operand         => "unexpected . after term " ++ Text.quoteText operand
  | illegalNumber text         => "illegal number syntax: " ++ Text.quoteText text
  | missingDefinitionName      => "name of defined template must be a string"
  | strayElse                  => "unexpected \x7b\x7belse\x7d\x7d"
  | strayEnd                   => "unexpected \x7b\x7bend\x7d\x7d"
  | elseIn cl                  => "unexpected \x7b\x7belse\x7d\x7d in " ++ cl.name
  | elseAfterElse              => "expected end; found \x7b\x7belse\x7d\x7d"
  | outsideRange k             =>
    "\x7b\x7b" ++ k.word ++ "\x7d\x7d outside \x7b\x7brange\x7d\x7d"
  | unexpectedEnd              => "unexpected EOF"
  | redefined name             =>
    "template: multiple definition of template " ++ Text.quoteText name

/-- A cause and the offset at which it is found. -/
structure SyntaxFault where
  offset : Nat
  cause : SyntaxCause

end SafeQuery
