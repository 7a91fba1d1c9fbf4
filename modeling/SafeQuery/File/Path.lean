/-!
# Paths

A path is a text of segments between slashes. Empty segments and segments of one point do not count,
except for a point at the beginning, and a path that begins with a slash begins at the root.
-/

namespace SafeQuery.Path

/-- The segments of a list of characters, between the slashes; there is at least one. -/
def split : List Char → List (List Char)
  | []      => [[]]
  | c :: cs =>
    if c = '/' then [] :: split cs
    else match split cs with
      | []      => [[c]]
      | s :: ss => (c :: s) :: ss

theorem split_ne_nil (cs : List Char) : split cs ≠ [] := by
  cases cs with
  | nil => simp [split]
  | cons c cs =>
    simp only [split]
    split
    · simp
    · split <;> simp

/-- Put segments together again, with slashes between them. -/
def unite : List (List Char) → List Char
  | []           => []
  | [s]          => s
  | s :: t :: ss => s ++ '/' :: unite (t :: ss)

/-- No segment is lost. -/
theorem unite_split (cs : List Char) : unite (split cs) = cs := by
  induction cs with
  | nil => rfl
  | cons c cs ih =>
    simp only [split]
    split
    · rename_i hc
      rcases h : split cs with _ | ⟨s, ss⟩
      · exact absurd h (split_ne_nil cs)
      · rw [h] at ih
        simp [unite, ih, hc]
    · rcases h : split cs with _ | ⟨s, ss⟩
      · exact absurd h (split_ne_nil cs)
      · rw [h] at ih
        cases ss with
        | nil => simpa [unite] using ih
        | cons t ss => simpa [unite] using ih

def segments (p : String) : List String := (split p.toList).map String.ofList

def ofSegments (ss : List String) : String := String.ofList (unite (ss.map String.toList))

def isAbsolute (p : String) : Bool := p.toList.head? = some '/'

/-- The segment does not count. -/
def isIdle (s : String) : Bool := s = "" || s = "."

/-- A part of a path that counts. -/
inductive Component where
  | root
  | here
  | parent
  | name (s : String)
deriving DecidableEq, Repr

def Component.ofSegment (s : String) : Component := if s = ".." then parent else name s

def components (p : String) : List Component :=
  let ss := segments p
  let first := if isAbsolute p then [.root] else if ss.head? = some "." then [.here] else []
  first ++ (ss.filter fun s => !isIdle s).map Component.ofSegment

/-- A path behind another one; a path that begins at the root stays as it is. -/
def join (p q : String) : String :=
  if isAbsolute q then q
  else if p = "" || p.toList.getLast? = some '/' then p ++ q
  else p ++ "/" ++ q

/-- The last name of a path, unless the path ends at the root or leads up. -/
def fileName? (p : String) : Option String :=
  match (components p).getLast? with
  | some (.name s) => some s
  | _              => none

/-- The path without segments at its ends that do not count. -/
def trimmed (ss : List String) : List String :=
  ((ss.dropWhile isIdle).reverse.dropWhile isIdle).reverse

def dropSegments : Nat → List String → List String
  | 0,     ss => ss
  | n + 1, ss => dropSegments n (ss.dropWhile isIdle).tail

/-- The rest of a path that begins with the components of another one. -/
def relative? (base p : String) : Option String :=
  let bs := components base
  if bs.isEmpty then some p
  else if bs.isPrefixOf (components p) then
    let counted := bs.countP fun b => b != .root && b != .here
    some (ofSegments (trimmed (dropSegments counted (segments p))))
  else none

/-- The name behind the last slash, where slashes at the end do not count. -/
def baseName (p : String) : String :=
  let cs := (p.toList.reverse.dropWhile (· = '/')).reverse
  String.ofList ((split cs).getLast (split_ne_nil cs))

end SafeQuery.Path
