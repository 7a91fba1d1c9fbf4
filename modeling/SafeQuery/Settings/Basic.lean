import SafeQuery.Template

/-!
# Settings

What can be set for templates before they are read. Settings are laid over each other, so that the
ones that come later count, and are applied to a template.
-/

namespace SafeQuery

/-- Settings for templates, each of which may be left open. -/
structure Settings where
  left : Option String
  right : Option String
  missingKey : Option MissingKey
deriving DecidableEq, Repr

namespace Settings

def empty : Settings := ⟨none, none, none⟩

/-- Settings over others. -/
def merge (lower upper : Settings) : Settings where
  left := upper.left.or lower.left
  right := upper.right.or lower.right
  missingKey := upper.missingKey.or lower.missingKey

/-- The template with the settings. If one delimiter is set, the other one stands for braces unless
it is set as well. -/
def apply (s : Settings) (t : Template) : Template :=
  let t :=
    if s.left.isSome || s.right.isSome then
      t.withDelimiters (s.left.getD "") (s.right.getD "")
    else t
  match s.missingKey with
  | some policy => t.withMissingKey policy
  | none        => t

end Settings

end SafeQuery
