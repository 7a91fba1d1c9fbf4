/-!
# Widths

Positions in a text count the bytes of its encoding. `width` is the number of bytes of a list of
characters.
-/

namespace SafeQuery.Text

/-- The number of bytes that the characters take. -/
def width : List Char → Nat
  | []      => 0
  | c :: cs => c.utf8Size + width cs

@[simp] theorem width_nil : width [] = 0 := rfl

@[simp] theorem width_cons (c : Char) (cs : List Char) : width (c :: cs) = c.utf8Size + width cs :=
  rfl

@[simp] theorem width_append (cs ds : List Char) : width (cs ++ ds) = width cs + width ds := by
  induction cs with
  | nil => simp
  | cons c cs ih => simp [ih, Nat.add_assoc]

end SafeQuery.Text
