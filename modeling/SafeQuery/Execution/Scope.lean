import SafeQuery.Value

/-!
# Variables of an execution

The variables in scope with their values, the innermost first. Variables are added and given other
values, and the scope of a clause ends by going back to the number of variables before it.
-/

namespace SafeQuery

/-- Variables and their values, the innermost first. -/
abbrev Scope := List (String × Value)

namespace Scope

def get? (s : Scope) (name : String) : Option Value := (s.find? fun v => v.1 = name).map (·.2)

def set? : Scope → String → Value → Option Scope
  | [],     _,    _     => none
  | v :: s, name, value =>
    if v.1 = name then some ((name, value) :: s) else (set? s name value).map (v :: ·)

/-- The outermost variables, as many as given. -/
def outermost (s : Scope) (n : Nat) : Scope := s.drop (s.length - n)

def names (s : Scope) : List String := s.map (·.1)

/-- Another value does not change the names. -/
theorem names_set {s t : Scope} {name : String} {value : Value} (h : s.set? name value = some t) :
    t.names = s.names := by
  induction s generalizing t with
  | nil => simp [set?] at h
  | cons v s ih =>
    simp only [set?] at h
    split at h
    · rename_i hv
      cases h
      simp [names, hv]
    · simp only [Option.map_eq_some_iff] at h
      obtain ⟨u, hu, rfl⟩ := h
      have := ih hu
      simp only [names] at this
      simp [names, this]

end Scope

end SafeQuery
