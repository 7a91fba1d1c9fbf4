import SafeQuery.Text.Extending
import SafeQuery.Text.Unprintable

/-!
# Quoted names

How diagnostics write a name: between quotes, with a backslash in front of the quote and of
backslashes, with a letter for the common controls, and with the code point of every character
that has no glyph or that would join the quote before it.
-/

namespace SafeQuery.Text

def hexDigits (n : Nat) : List Char := Nat.toDigits 16 n

/-- One character of a text that stands between the given quotes. -/
def escapeIn (quote : Char) (c : Char) : List Char :=
  if c = '\x00' then ['\\', '0']
  else if c = '\t' then ['\\', 't']
  else if c = '\r' then ['\\', 'r']
  else if c = '\n' then ['\\', 'n']
  else if c = '\\' then ['\\', '\\']
  else if c = quote then ['\\', c]
  else if isExtending c || isUnprintable c then
    ['\\', 'u', '\x7b'] ++ hexDigits c.toNat ++ ['\x7d']
  else [c]

/-- A text between double quotes. -/
def quoteText (s : String) : String :=
  String.ofList ('"' :: s.toList.flatMap (escapeIn '"') ++ ['"'])

/-- A character between single quotes. -/
def quoteChar (c : Char) : String := String.ofList ('\'' :: escapeIn '\'' c ++ ['\''])

example : quoteText "a\"b\n" = "\"a\\\"b\\n\"" := by decide +kernel
example : quoteChar '\u0301' = "'\\u\x7b301\x7d'" := by decide +kernel

end SafeQuery.Text
