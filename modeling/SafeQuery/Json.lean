import SafeQuery.Text.Hex
import SafeQuery.Value

/-!
# Data in JSON

`Value.ofJson?` reads a text of JSON as a value: numbers without point and exponent that fit are
whole numbers, all other numbers are floating-point numbers, and the last value of a key stays.
Nesting is limited. The significand of a number is kept to sixty-four bits: digits that do not fit
are dropped, and the number is scaled by powers of ten in floating-point arithmetic.
-/

namespace SafeQuery.Json

/-- A part that has been read and the text that is left, of less than `n` characters. -/
structure Part (n : Nat) (α : Type) where
  value : α
  rest : List Char
  fewer : rest.length < n

/-- Arrays and objects are nested at most as deep as this. -/
def maxDepth : Nat := 127

/-- The characters that may stand between tokens. -/
def isSpace (c : Char) : Bool := c = ' ' || c = '\t' || c = '\n' || c = '\r'

def skip (s : List Char) : List Char := s.dropWhile isSpace

theorem skip_length (s : List Char) : (skip s).length ≤ s.length :=
  (List.dropWhile_suffix isSpace).length_le

/-! ### Strings -/

/-- The number of four hexadecimal digits. -/
def hexUnit? (a b c d : Char) : Option Nat := do
  return (((← Text.hexValue? a) * 16 + (← Text.hexValue? b)) * 16 + (← Text.hexValue? c)) * 16
    + (← Text.hexValue? d)

def isHigh (n : Nat) : Bool := 0xD800 ≤ n && n < 0xDC00

def isLow (n : Nat) : Bool := 0xDC00 ≤ n && n < 0xE000

/-- The character of a pair of units. -/
def ofPair (high low : Nat) : Char :=
  Char.ofNat (0x10000 + (high - 0xD800) * 0x400 + (low - 0xDC00))

/-- The character that a letter stands for behind a backslash. -/
def unescape? : Char → Option Char
  | '"'  => some '"'
  | '\\' => some '\\'
  | '/'  => some '/'
  | 'b'  => some '\x08'
  | 'f'  => some '\x0c'
  | 'n'  => some '\n'
  | 'r'  => some '\r'
  | 't'  => some '\t'
  | _    => none

/-- The units of an escape sequence in hexadecimal digits, behind its backslash and its letter: one
that stands alone or a pair. -/
def readUnits? : List Char → Option (Char × List Char)
  | a :: b :: c :: d :: s => do
    let n ← hexUnit? a b c d
    if isLow n then none
    else if isHigh n then
      match s with
      | '\\' :: 'u' :: a :: b :: c :: d :: s =>
        let m ← hexUnit? a b c d
        if isLow m then some (ofPair n m, s) else none
      | _ => none
    else some (Char.ofNat n, s)
  | _ => none

/-- The character of an escape sequence, behind its backslash. -/
def readEscape? : List Char → Option (Char × List Char)
  | 'u' :: s => readUnits? s
  | c :: s   => (unescape? c).map fun c => (c, s)
  | []       => none

theorem readUnits_length {s rest : List Char} {c : Char} (h : readUnits? s = some (c, rest)) :
    rest.length ≤ s.length := by
  unfold readUnits? at h
  split at h
  · simp only [Option.bind_eq_bind, Option.bind_eq_some_iff] at h
    obtain ⟨n, -, h⟩ := h
    split at h
    · simp at h
    · split at h
      · split at h
        · simp only [Option.bind_eq_some_iff] at h
          obtain ⟨m, -, h⟩ := h
          split at h
          · simp only [Option.some.injEq, Prod.mk.injEq] at h
            obtain ⟨-, rfl⟩ := h
            simp only [List.length_cons]
            omega
          · simp at h
        · simp at h
      · simp only [Option.some.injEq, Prod.mk.injEq] at h
        obtain ⟨-, rfl⟩ := h
        simp only [List.length_cons]
        omega
  · simp at h

theorem readEscape_length {s rest : List Char} {c : Char} (h : readEscape? s = some (c, rest)) :
    rest.length ≤ s.length := by
  unfold readEscape? at h
  split at h
  · have := readUnits_length h
    simp only [List.length_cons]
    omega
  · simp only [Option.map_eq_some_iff, Prod.mk.injEq] at h
    obtain ⟨_, -, -, rfl⟩ := h
    simp
  · simp at h

/-- The content of a string and the text behind its closing quote. -/
def readText? (s : List Char) : Option (List Char × List Char) :=
  match s with
  | []        => none
  | '"' :: s  => some ([], s)
  | '\\' :: s =>
    match _h : readEscape? s with
    | none           => none
    | some (c, rest) => (readText? rest).map fun r => (c :: r.1, r.2)
  | c :: s    => if c.toNat < 0x20 then none else (readText? s).map fun r => (c :: r.1, r.2)
termination_by s.length
decreasing_by
  · have := readEscape_length _h
    simp only [List.length_cons]
    omega
  · simp

theorem readText_length {s : List Char} {r : List Char × List Char} (h : readText? s = some r) :
    r.2.length < s.length := by
  fun_induction readText? s generalizing r with
  | case1 => simp at h
  | case2 s =>
    cases h
    simp
  | case3 => simp at h
  | case4 s c rest hc ih =>
    simp only [Option.map_eq_some_iff] at h
    obtain ⟨q, hq, rfl⟩ := h
    have := readEscape_length hc
    have := ih hq
    simp only [List.length_cons]
    omega
  | case5 => simp at h
  | case6 c s _ _ _ ih =>
    simp only [Option.map_eq_some_iff] at h
    obtain ⟨q, hq, rfl⟩ := h
    have := ih hq
    simp only [List.length_cons]
    omega

/-! ### Numbers -/

/-- Append digits to a number as long as the result has no more than sixty-four bits, and count
how many were not taken. -/
def gather (n : Nat) : List Char → Nat × Nat
  | []      => (n, 0)
  | d :: ds =>
    let m := n * 10 + Decimal.digitValue d
    if m < UInt64.size then gather m ds else (n, ds.length + 1)

/-- The power of ten, rounded. -/
def tenPower (n : Nat) : Float := Float.ofScientific 1 false n

def wholeFloat (n : Nat) : Float := (UInt64.ofNat n).toFloat

/-- Divide by a power of ten, in steps that have a power in the range of floating-point numbers. -/
def divideByPower (x : Float) (n : Nat) : Float :=
  if n ≤ 308 then x / tenPower n
  else if x == 0.0 then x
  else divideByPower (x / tenPower 308) (n - 308)
termination_by n
decreasing_by omega

/-- Multiply a significand by a power of ten, unless the result is too large. -/
def scale? (significand : Nat) (exponent : Int) : Option Float :=
  let x := wholeFloat significand
  if exponent < 0 then some (divideByPower x exponent.natAbs)
  else if 308 < exponent then if significand = 0 then some x else none
  else
    let y := x * tenPower exponent.toNat
    if y.isInf then none else some y

/-- The digits of a number, before it is known what number it is. -/
structure Numeral where
  negative : Bool
  whole : List Char
  fraction : Option (List Char)
  exponent : Option Int

def Numeral.value? (n : Numeral) : Option Value :=
  let (units, dropped) := gather 0 n.whole
  match n.fraction, n.exponent with
  | none, none =>
    if 0 < dropped then (scale? units dropped).map (signed n.negative)
    else if n.negative then
      if units = 0 || (-units : Int) < Int64.minValue.toInt then
        some (signed true (wholeFloat units))
      else some (.int (Int64.ofInt (-units)))
    else if (units : Int) ≤ Int64.maxValue.toInt then some (.int (Int64.ofNat units))
    else some (.float (wholeFloat units))
  | fraction, exponent =>
    let fraction := fraction.getD []
    let (units, left) := gather units fraction
    (scale? units (dropped - (fraction.length - left : Nat) + exponent.getD 0)).map
      (signed n.negative)
where
  /-- The number with a sign. -/
  signed (negative : Bool) (x : Float) : Value := .float (if negative then -x else x)

/-- The exponent at the beginning of a text, if there is one, and the text behind it. -/
def readExponent? (s : List Char) : Option (Option Int × List Char) :=
  match s with
  | c :: cs =>
    if c = 'e' || c = 'E' then
      let (negative, cs) := Decimal.splitSign cs
      let ds := cs.takeWhile Decimal.isDigit
      if ds.isEmpty then none
      else
        let e : Int := Decimal.value ds
        some (some (if negative then -e else e), cs.dropWhile Decimal.isDigit)
    else some (none, s)
  | [] => some (none, [])

/-- The fraction at the beginning of a text, if there is one, and the text behind it. -/
def readFraction? (s : List Char) : Option (Option (List Char) × List Char) :=
  match s with
  | '.' :: cs =>
    let ds := cs.takeWhile Decimal.isDigit
    if ds.isEmpty then none else some (some ds, cs.dropWhile Decimal.isDigit)
  | s => some (none, s)

/-- The whole part at the beginning of a text, which begins with zero only if it is zero, and the
text behind it. -/
def readWhole? (s : List Char) : Option (List Char × List Char) :=
  let ds := s.takeWhile Decimal.isDigit
  if ds.isEmpty || (1 < ds.length && ds.head? = some '0') then none
  else some (ds, s.dropWhile Decimal.isDigit)

theorem splitSign_length (s : List Char) : (Decimal.splitSign s).2.length ≤ s.length := by
  unfold Decimal.splitSign
  split <;> simp

theorem readExponent_length {s rest : List Char} {e : Option Int}
    (h : readExponent? s = some (e, rest)) : rest.length ≤ s.length := by
  unfold readExponent? at h
  split at h
  · rename_i c cs
    split at h
    · simp only at h
      split at h
      · simp at h
      · cases h
        have h1 := splitSign_length cs
        have h2 := (List.dropWhile_suffix (l := (Decimal.splitSign cs).2) Decimal.isDigit).length_le
        simp only [List.length_cons]
        omega
    · cases h; simp
  · cases h; simp

theorem readFraction_length {s rest : List Char} {f : Option (List Char)}
    (h : readFraction? s = some (f, rest)) : rest.length ≤ s.length := by
  unfold readFraction? at h
  split at h
  · rename_i cs
    simp only at h
    split at h
    · simp at h
    · cases h
      have := (List.dropWhile_suffix (l := cs) Decimal.isDigit).length_le
      simp only [List.length_cons]
      omega
  · cases h; simp

theorem readWhole_length {s ds rest : List Char} (h : readWhole? s = some (ds, rest)) :
    rest.length < s.length := by
  unfold readWhole? at h
  simp only at h
  split at h
  · simp at h
  · rename_i hd
    cases h
    have h1 := congrArg List.length
      (List.takeWhile_append_dropWhile (p := Decimal.isDigit) (l := s))
    have h2 : 0 < (s.takeWhile Decimal.isDigit).length := by
      apply List.length_pos_iff.mpr
      intro h
      simp [h] at hd
    rw [List.length_append] at h1
    omega

def readNumber? (s : List Char) : Option (Part s.length Value) :=
  let sign : Bool × { r : List Char // r.length ≤ s.length } :=
    match h : s with
    | '-' :: cs => (true, ⟨cs, by simp⟩)
    | _         => (false, ⟨s, by simp [h]⟩)
  match h₁ : readWhole? sign.2 with
  | none             => none
  | some (whole, s₁) =>
    match h₂ : readFraction? s₁ with
    | none                => none
    | some (fraction, s₂) =>
      match h₃ : readExponent? s₂ with
      | none                => none
      | some (exponent, s₃) =>
        (Numeral.value? ⟨sign.1, whole, fraction, exponent⟩).map fun v => ⟨v, s₃, by
          have := sign.2.2
          have := readWhole_length h₁
          have := readFraction_length h₂
          have := readExponent_length h₃
          omega⟩

/-! ### Values -/

/-- A part of a shorter text is a part of a longer one. -/
def Part.map {m n : Nat} {α β : Type} (f : α → β) (r : Part m α) (h : m ≤ n) : Part n β :=
  ⟨f r.value, r.rest, Nat.lt_of_lt_of_le r.fewer h⟩

/-- The words that are values. -/
def readWord? (s : List Char) : Option (Part s.length Value) :=
  match s with
  | 'n' :: 'u' :: 'l' :: 'l' :: rest =>
    some ⟨.null, rest, by simp only [List.length_cons]; omega⟩
  | 't' :: 'r' :: 'u' :: 'e' :: rest =>
    some ⟨.bool true, rest, by simp only [List.length_cons]; omega⟩
  | 'f' :: 'a' :: 'l' :: 's' :: 'e' :: rest =>
    some ⟨.bool false, rest, by simp only [List.length_cons]; omega⟩
  | _ => none

/-- What stands behind the comma, where there has to be one. -/
def separated? (first : Bool) (s : List Char) : Option { r : List Char // r.length ≤ s.length } :=
  if first then some ⟨s, Nat.le_refl _⟩
  else match s with
    | ',' :: rest => some ⟨rest, Nat.le_succ _⟩
    | _           => none

def readKey? (s : List Char) : Option (Part s.length String) :=
  match h : skip s with
  | '"' :: s₁ =>
    match h₁ : readText? s₁ with
    | none         => none
    | some (t, s₂) =>
      match h₂ : skip s₂ with
      | ':' :: rest => some ⟨String.ofList t, rest, by
          have h₃ := skip_length s
          have h₄ := readText_length h₁
          have h₅ := skip_length s₂
          simp only [h, h₂, List.length_cons] at h₃ h₄ h₅
          omega⟩
      | _ => none
  | _ => none

section Shorter
variable {s cs : List Char} {c : Char}

theorem length_le_of_skip (h : skip s = c :: cs) : (c :: cs).length ≤ s.length :=
  h ▸ skip_length s

theorem length_lt_of_skip (h : skip s = c :: cs) : cs.length < s.length :=
  length_le_of_skip h

theorem length_tail_le_of_skip (h : skip s = c :: cs) : cs.length ≤ s.length :=
  Nat.le_of_lt (length_lt_of_skip h)

theorem length_lt_of_readText {t rest : List Char} (h : skip s = c :: cs)
    (ht : readText? cs = some (t, rest)) : rest.length < s.length :=
  Nat.lt_trans (readText_length ht) (length_lt_of_skip h)

theorem length_le_of_separated (h : skip s = c :: cs)
    (t : { r : List Char // r.length ≤ (c :: cs).length }) : t.1.length ≤ s.length :=
  Nat.le_trans t.2 (length_le_of_skip h)

theorem length_lt_of_item {α : Type} (h : skip s = c :: cs)
    (t : { r : List Char // r.length ≤ (c :: cs).length }) (v : Part t.1.length α) :
    v.rest.length < s.length :=
  Nat.lt_of_lt_of_le v.fewer (length_le_of_separated h t)

theorem length_lt_of_items {α β : Type} (h : skip s = c :: cs)
    (t : { r : List Char // r.length ≤ (c :: cs).length }) (v : Part t.1.length α)
    (vs : Part v.rest.length β) : vs.rest.length < s.length :=
  Nat.lt_trans vs.fewer (length_lt_of_item h t v)

theorem length_lt_of_entry {α β : Type} (h : skip s = c :: cs)
    (t : { r : List Char // r.length ≤ (c :: cs).length }) (k : Part t.1.length α)
    (v : Part k.rest.length β) : v.rest.length < s.length :=
  length_lt_of_items h t k v

theorem length_lt_of_entries {α β γ : Type} (h : skip s = c :: cs)
    (t : { r : List Char // r.length ≤ (c :: cs).length }) (k : Part t.1.length α)
    (v : Part k.rest.length β) (es : Part v.rest.length γ) : es.rest.length < s.length :=
  Nat.lt_trans es.fewer (length_lt_of_entry h t k v)

end Shorter

mutual

/-- Read a value that is nested no deeper than `depth`. -/
def readValue? (depth : Nat) (s : List Char) : Option (Part s.length Value) :=
  match h : skip s with
  | []      => none
  | c :: cs =>
    if c = '"' then
      match ht : readText? cs with
      | none           => none
      | some (t, rest) => some ⟨.string (String.ofList t), rest, length_lt_of_readText h ht⟩
    else if c = '[' then
      match depth with
      | 0         => none
      | depth + 1 =>
        (readItems? depth true cs).map fun vs => vs.map .list (length_tail_le_of_skip h)
    else if c = '\x7b' then
      match depth with
      | 0         => none
      | depth + 1 =>
        (readEntries? depth true cs).map fun es =>
          es.map (fun es => .map (.ofList es)) (length_tail_le_of_skip h)
    else
      (if c = '-' || Decimal.isDigit c then readNumber? (c :: cs) else readWord? (c :: cs)).map
        fun r => r.map id (length_le_of_skip h)
termination_by (s.length, 0)
decreasing_by all_goals exact Prod.Lex.left _ _ (length_lt_of_skip h)

def readItems? (depth : Nat) (first : Bool) (s : List Char) :
    Option (Part s.length (List Value)) :=
  match h : skip s with
  | []      => none
  | c :: cs =>
    if c = ']' then some ⟨[], cs, length_lt_of_skip h⟩
    else do
      let t ← separated? first (c :: cs)
      let v ← readValue? depth t.1
      let vs ← readItems? depth false v.rest
      return ⟨v.value :: vs.value, vs.rest, length_lt_of_items h t v vs⟩
termination_by (s.length, 1)
decreasing_by
  · rcases Nat.lt_or_eq_of_le (length_le_of_separated h t) with h' | h'
    · exact Prod.Lex.left _ _ h'
    · rw [h']
      exact Prod.Lex.right _ Nat.zero_lt_one
  · exact Prod.Lex.left _ _ (length_lt_of_item h t v)

def readEntries? (depth : Nat) (first : Bool) (s : List Char) :
    Option (Part s.length (List (String × Value))) :=
  match h : skip s with
  | []      => none
  | c :: cs =>
    if c = '\x7d' then some ⟨[], cs, length_lt_of_skip h⟩
    else do
      let t ← separated? first (c :: cs)
      let k ← readKey? t.1
      let v ← readValue? depth k.rest
      let es ← readEntries? depth false v.rest
      return ⟨(k.value, v.value) :: es.value, es.rest, length_lt_of_entries h t k v es⟩
termination_by (s.length, 1)
decreasing_by
  · exact Prod.Lex.left _ _ (length_lt_of_item h t k)
  · exact Prod.Lex.left _ _ (length_lt_of_entry h t k v)

end

end SafeQuery.Json

namespace SafeQuery

/-- Read a text of JSON, which holds one value and nothing else. -/
def Value.ofJson? (text : String) : Option Value := do
  let r ← Json.readValue? Json.maxDepth text.toList
  if (Json.skip r.rest).isEmpty then some r.value else none

end SafeQuery
