/-!
# Patterns of names

A pattern matches names with wildcards: one character, any characters within a segment, any
segments, or one character of a class. `Pattern.ofText` reads a pattern, and `Pattern.admits` says
what it matches.
-/

namespace SafeQuery.Glob

/-- Characters of a class: one, or all from one to another. -/
inductive Choice where
  | one (c : Char)
  | range (first last : Char)
deriving DecidableEq, Repr

def Choice.has (c : Char) : Choice → Bool
  | one d            => c = d
  | range first last => first ≤ c && c ≤ last

/-- A piece of a pattern. -/
inductive Wildcard where
  | char (c : Char)
  /-- Any character of a segment. -/
  | any
  /-- Any number of characters of a segment. -/
  | star
  /-- Any number of segments. -/
  | deep
  | within (choices : List Choice)
  | except (choices : List Choice)
deriving DecidableEq, Repr

inductive PatternCause where
  | tooManyStars
  | deepInSegment
  | badClass
deriving DecidableEq, Repr

def PatternCause.message : PatternCause → String
  | tooManyStars  => "wildcards are either regular `*` or recursive `**`"
  | deepInSegment => "recursive wildcards must form a single path component"
  | badClass      => "invalid range pattern"

/-- A cause and the number of characters before it. -/
structure PatternFault where
  position : Nat
  cause : PatternCause
deriving DecidableEq, Repr

def PatternFault.message (f : PatternFault) : String :=
  "Pattern syntax error near position " ++ toString f.position ++ ": " ++ f.cause.message

abbrev Pattern := List Wildcard

def choices : List Char → List Choice
  | c :: '-' :: d :: cs => .range c d :: choices cs
  | c :: cs             => .one c :: choices cs
  | []                  => []

/-- The characters up to a closing bracket and those behind it. The first one belongs to the class
in any case. -/
def classText? : List Char → Option (List Char × List Char)
  | []      => none
  | c :: cs =>
    match cs.dropWhile (· ≠ ']') with
    | []        => none
    | _ :: rest => some (c :: cs.takeWhile (· ≠ ']'), rest)

/-- A class behind its opening bracket, and what follows it. -/
def readClass? : List Char → Option (Wildcard × List Char)
  | '!' :: cs => (classText? cs).map fun r => (.except (choices r.1), r.2)
  | cs        => (classText? cs).map fun r => (.within (choices r.1), r.2)

theorem classText_length {cs text rest : List Char} (h : classText? cs = some (text, rest)) :
    rest.length < cs.length := by
  unfold classText? at h
  split at h
  · simp at h
  · rename_i c cs
    have hl := (List.dropWhile_suffix (l := cs) (· ≠ ']')).length_le
    split at h
    · simp at h
    · rename_i d r hd
      simp only [Option.some.injEq, Prod.mk.injEq] at h
      obtain ⟨-, rfl⟩ := h
      rw [hd] at hl
      simp only [List.length_cons] at *
      omega

theorem readClass_length {cs rest : List Char} {w : Wildcard}
    (h : readClass? cs = some (w, rest)) : rest.length < cs.length := by
  unfold readClass? at h
  split at h
  · obtain ⟨⟨t, r⟩, hr, h'⟩ := Option.map_eq_some_iff.mp h
    cases h'
    have := classText_length hr
    simp only [List.length_cons]
    omega
  · obtain ⟨⟨t, r⟩, hr, h'⟩ := Option.map_eq_some_iff.mp h
    cases h'
    exact classText_length hr

/-- What follows a wildcard for segments, which ends a segment: the text behind a slash that belongs
to it, or nothing. -/
def afterDeep? : List Char → Option (List Char)
  | []        => some []
  | '/' :: cs => some cs
  | _         => none

theorem afterDeep_length {cs rest : List Char} (h : afterDeep? cs = some rest) :
    rest.length ≤ cs.length := by
  unfold afterDeep? at h
  split at h <;> simp_all

/-- Read a pattern from a position on; `before` is the character before it. -/
def readFrom (position : Nat) (before : Option Char) (s : List Char) :
    Except PatternFault Pattern :=
  match s with
  | [] => .ok []
  | '?' :: cs => do return .any :: (← readFrom (position + 1) (some '?') cs)
  | '*' :: '*' :: '*' :: _ => .error ⟨position + 2, .tooManyStars⟩
  | '*' :: '*' :: cs =>
    if before.any (· ≠ '/') then .error ⟨position - 1, .deepInSegment⟩
    else match _h : afterDeep? cs with
      | none      => .error ⟨position + 2, .deepInSegment⟩
      | some rest => do
        return .deep :: (← readFrom (position + 2 + (cs.length - rest.length)) (some '/') rest)
  | '*' :: cs => do return .star :: (← readFrom (position + 1) (some '*') cs)
  | '[' :: cs =>
    match _h : readClass? cs with
    | none           => .error ⟨position, .badClass⟩
    | some (w, rest) => do
      return w :: (← readFrom (position + 1 + (cs.length - rest.length)) (some ']') rest)
  | c :: cs => do return .char c :: (← readFrom (position + 1) (some c) cs)
termination_by s.length
decreasing_by
  all_goals simp only [List.length_cons]
  · omega
  · have := afterDeep_length _h
    omega
  · omega
  · have := readClass_length _h
    omega
  · omega

def Pattern.ofText (s : String) : Except PatternFault Pattern := readFrom 0 none s.toList

/-- A pattern that matches a text and nothing else. -/
def escape (s : String) : String :=
  String.ofList (s.toList.flatMap fun c =>
    if c = '?' || c = '*' || c = '[' || c = ']' then ['[', c, ']'] else [c])

/-- What can be left behind any characters of a segment. -/
def starRests : List Char → List (List Char)
  | []      => [[]]
  | c :: cs => (c :: cs) :: (if c = '/' then [] else starRests cs)

/-- What can be left behind any segments with their slashes, or behind everything. -/
def segmentRests : List Char → List (List Char)
  | []      => [[]]
  | c :: cs => if c = '/' then cs :: segmentRests cs else segmentRests cs

/-- The piece matches a character. Only a slash itself matches a slash. -/
def Wildcard.admits (w : Wildcard) (c : Char) : Bool :=
  match w with
  | .char d    => c = d
  | .any       => c ≠ '/'
  | .within cs => c ≠ '/' && cs.any (·.has c)
  | .except cs => c ≠ '/' && !cs.any (·.has c)
  | .star      => false
  | .deep      => false

/-- The pattern matches a name as a whole. -/
def Pattern.admits : Pattern → List Char → Bool
  | [],          s => s.isEmpty
  | .star :: ws, s => (starRests s).any (Pattern.admits ws)
  | .deep :: ws, s => (s :: segmentRests s).any (Pattern.admits ws)
  | w :: ws,     s =>
    match s with
    | []      => false
    | c :: cs => w.admits c && Pattern.admits ws cs

/-- The text that a pattern without wildcards matches. -/
def Pattern.literal? : Pattern → Option (List Char)
  | []            => some []
  | .char c :: ws => (Pattern.literal? ws).map (c :: ·)
  | _             => none

end SafeQuery.Glob
