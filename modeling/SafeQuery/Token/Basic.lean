import SafeQuery.Text.Quoted
import SafeQuery.Tree.Basic

/-!
# Tokens

The words of an action: names, numerals, strings, fields, variables and marks. A token knows its
offset in the source and whether blank space stands before it.
-/

namespace SafeQuery

/-- The words that cannot be names of functions because they begin or end a clause. -/
inductive Keyword where
  | cond
  | otherwise
  | finish
  | range
  | withValue
  | define
  | template
  | block
  | breakLoop
  | continueLoop
deriving DecidableEq, Repr

def Keyword.word : Keyword → String
  | cond         => "if"
  | otherwise    => "else"
  | finish       => "end"
  | range        => "range"
  | withValue    => "with"
  | define       => "define"
  | template     => "template"
  | block        => "block"
  | breakLoop    => "break"
  | continueLoop => "continue"

def Keyword.all : List Keyword :=
  [cond, otherwise, finish, range, withValue, define, template, block, breakLoop, continueLoop]

def Keyword.ofWord? (w : String) : Option Keyword := all.find? fun k => k.word = w

/-- What a token is. -/
inductive TokenKind where
  | dot
  | field (names : List String)
  | var (name : String) (fields : List String)
  | identifier (name : String)
  | keyword (k : Keyword)
  | bool (b : Bool)
  | nil
  | number (text : String)
  | string (quoted text : String)
  | bar
  | declare
  | assign
  | comma
  | leftParen
  | rightParen
deriving DecidableEq, Repr

/-- A token, its offset in the source, and whether blank space or the beginning of the action
stands before it. -/
structure Token where
  kind : TokenKind
  offset : Nat
  spaced : Bool
deriving DecidableEq, Repr

/-- How a word is read that is no variable: a keyword, a constant, or the name of a function. -/
def TokenKind.ofWord (w : String) : TokenKind :=
  match Keyword.ofWord? w with
  | some k => keyword k
  | none   =>
    if w = "true" then bool true
    else if w = "false" then bool false
    else if w = "nil" then nil
    else identifier w

def TokenKind.print : TokenKind → String
  | dot             => "."
  | field names     => String.join (names.map ("." ++ ·))
  | var name fields => name ++ String.join (fields.map ("." ++ ·))
  | identifier name => name
  | keyword k       => k.word
  | bool b          => if b then "true" else "false"
  | nil             => "nil"
  | number text     => text
  | string quoted _ => quoted
  | bar             => "|"
  | declare         => ":="
  | assign          => "="
  | comma           => ","
  | leftParen       => "("
  | rightParen      => ")"

/-- A token in diagnostics: a keyword between angle brackets, anything else between quotes. -/
def TokenKind.describe : TokenKind → String
  | keyword k => "<" ++ k.word ++ ">"
  | kind      => Text.quoteText kind.print

end SafeQuery
