/-!
# Missing keys

What happens when a template takes a field that a map does not have.
-/

namespace SafeQuery

/-- The policy for keys that a map does not have. -/
inductive MissingKey where
  /-- The value is the absent one. -/
  | default
  /-- The value is the absent one. -/
  | invalid
  /-- The value is the zero value of the data, which is the absent one. -/
  | zero
  /-- The execution fails. -/
  | error
deriving DecidableEq, Repr

namespace MissingKey

instance : Inhabited MissingKey := ⟨default⟩

def all : List MissingKey := [default, invalid, zero, error]

/-- How a policy is written in options and settings. -/
def word : MissingKey → String
  | default => "default"
  | invalid => "invalid"
  | zero    => "zero"
  | error   => "error"

def ofWord? (w : String) : Option MissingKey := all.find? fun p => p.word = w

end MissingKey

end SafeQuery
