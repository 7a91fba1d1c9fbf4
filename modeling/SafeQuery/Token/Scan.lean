import SafeQuery.Decimal.Reading
import SafeQuery.Text.Alphabetic
import SafeQuery.Text.Hex
import SafeQuery.Text.Numeric
import SafeQuery.Token.Fault

/-!
# Scanning tokens

`scanToken` reads the token at the beginning of a text. The readers of names, fields, numerals and
strings split a text into what they read and the rest; `scanToken_append` says that nothing is lost
between the two, and `scanToken_length` that something is read.
-/

namespace SafeQuery

def isNameStart (c : Char) : Bool := Text.isAlphabetic c || c = '_'

def isNameChar (c : Char) : Bool := Text.isAlphabetic c || Text.isNumeric c || c = '_'

/-- A name can be written as the call of a function. -/
def isName (s : String) : Bool :=
  match s.toList with
  | []      => false
  | c :: cs => isNameStart c && cs.all isNameChar

/-- What is read from the beginning of a text, as it is written, and the rest. -/
structure Scanned (α : Type) where
  value : α
  lexeme : List Char
  rest : List Char

/-- As many field names as follow, each after a point. -/
def scanFields (s : List Char) : Scanned (List String) :=
  match s with
  | '.' :: c :: cs =>
    if isNameStart c then
      let name := c :: cs.takeWhile isNameChar
      let r := scanFields (cs.dropWhile isNameChar)
      ⟨String.ofList name :: r.value, '.' :: name ++ r.lexeme, r.rest⟩
    else ⟨[], [], s⟩
  | _ => ⟨[], [], s⟩
termination_by s.length
decreasing_by
  have := (List.dropWhile_suffix (l := cs) isNameChar).length_le
  simp only [List.length_cons]
  omega

theorem scanFields_append (s : List Char) : (scanFields s).lexeme ++ (scanFields s).rest = s := by
  fun_induction scanFields s with
  | case1 c cs h name r ih =>
    simp only [name, r, List.cons_append, List.append_assoc, ih, List.takeWhile_append_dropWhile]
  | case2 => rfl
  | case3 => rfl

/-! ### Numerals -/

def takeSign : List Char → List Char × List Char
  | []      => ([], [])
  | c :: cs => if c = '+' || c = '-' then ([c], cs) else ([], c :: cs)

def takeDigits (s : List Char) : List Char × List Char :=
  (s.takeWhile Decimal.isDigit, s.dropWhile Decimal.isDigit)

/-- A point and the digits after it, if a point follows. -/
def takeFraction (s : List Char) : List Char × List Char :=
  match s with
  | '.' :: cs => ('.' :: (takeDigits cs).1, (takeDigits cs).2)
  | _         => ([], s)

/-- An exponent, if one follows. -/
def takeExponent : List Char → List Char × List Char
  | []      => ([], [])
  | e :: cs =>
    let (sign, ds) := takeSign cs
    let (digits, rest) := takeDigits ds
    if (e = 'e' || e = 'E') && !digits.isEmpty then (e :: sign ++ digits, rest) else ([], e :: cs)

/-- Hexadecimal digits after their mark. -/
def scanHex? : List Char → Option (List Char × List Char)
  | '0' :: x :: cs =>
    if (x = 'x' || x = 'X') && !(cs.takeWhile Text.isHexDigit).isEmpty then
      some ('0' :: x :: cs.takeWhile Text.isHexDigit, cs.dropWhile Text.isHexDigit)
    else none
  | _ => none

/-- Digits with at most one point, of which at least one, and an exponent. -/
def scanDecimal? (s : List Char) : Option (List Char × List Char) :=
  let (whole, rest) := takeDigits s
  let (fraction, rest) := takeFraction rest
  let (exponent, rest) := takeExponent rest
  if whole.isEmpty && fraction.length < 2 then none else some (whole ++ fraction ++ exponent, rest)

def scanMagnitude? (s : List Char) : Option (List Char × List Char) :=
  match scanHex? s with
  | some r => some r
  | none   => scanDecimal? s

/-- The text goes on with a character that a numeral may not run into. -/
def runsOn : List Char → Bool
  | []     => false
  | c :: _ => isNameChar c || c = '.'

/-- A numeral, which may not run into a name or a point. -/
def scanNumber? (s : List Char) : Option (List Char × List Char) :=
  let (sign, cs) := takeSign s
  match scanMagnitude? cs with
  | none              => none
  | some (text, rest) => if runsOn rest then none else some (sign ++ text, rest)

/-! ### Strings -/

/-- Where the reader of a string stands. -/
inductive StringState where
  | plain
  | escape
  /-- Digits of a code point in some base are to come. -/
  | digits (base left value : Nat)

/-- What follows the opening quote of a string. -/
inductive StringTail where
  /-- The text, how it is written up to the closing quote, and the rest. -/
  | closed (text written rest : List Char)
  | unterminated
  | badEscape

namespace StringTail

/-- A character was written before. -/
def written (c : Char) : StringTail → StringTail
  | closed text w rest => closed text (c :: w) rest
  | t                  => t

/-- A character was written before, and the text has a character more. -/
def yields (d c : Char) : StringTail → StringTail
  | closed text w rest => closed (d :: text) (c :: w) rest
  | t                  => t

end StringTail

/-- The characters that one letter after a backslash stands for. -/
def letterEscape? (c : Char) : Option Char :=
  if c = 'n' then some '\n'
  else if c = 't' then some '\t'
  else if c = 'r' then some '\r'
  else if c = 'a' then some '\x07'
  else if c = 'b' then some '\x08'
  else if c = 'f' then some '\x0c'
  else if c = 'v' then some '\x0b'
  else if c = '\\' || c = '"' || c = '\'' then some c
  else none

/-- The digits of a code point that a letter or a digit after a backslash announces. -/
def digitsEscape? (c : Char) : Option StringState :=
  if c = 'x' then some (.digits 16 2 0)
  else if c = 'u' then some (.digits 16 4 0)
  else if c = 'U' then some (.digits 16 8 0)
  else if '0' ≤ c && c ≤ '7' then some (.digits 8 2 (c.toNat - '0'.toNat))
  else none

/-- The value of a digit in some base. -/
def digitIn? (base : Nat) (c : Char) : Option Nat :=
  match Text.hexValue? c with
  | some v => if v < base then some v else none
  | none   => none

/-- The character of a code point, if there is one. -/
def charOf? (n : Nat) : Option Char := if n.isValidChar then some (Char.ofNat n) else none

/-- Read a string from behind its opening quote. -/
def scanString : StringState → List Char → StringTail
  | .plain, [] => .unterminated
  | .plain, c :: cs =>
    if c = '"' then .closed [] ['"'] cs
    else if c = '\n' then .unterminated
    else if c = '\\' then (scanString .escape cs).written c
    else (scanString .plain cs).yields c c
  | .escape, [] => .unterminated
  | .escape, c :: cs =>
    match letterEscape? c with
    | some d => (scanString .plain cs).yields d c
    | none   =>
      match digitsEscape? c with
      | some state => (scanString state cs).written c
      | none       => .badEscape
  | .digits _ _ _, [] => .badEscape
  | .digits base left value, c :: cs =>
    match digitIn? base c with
    | none   => .badEscape
    | some v =>
      let value := value * base + v
      if left ≤ 1 then
        match charOf? value with
        | some d => (scanString .plain cs).yields d c
        | none   => .badEscape
      else (scanString (.digits base (left - 1) value) cs).written c

namespace StringTail

theorem written_eq_closed {c : Char} {t : StringTail} {text w rest : List Char} :
    t.written c = closed text w rest ↔ ∃ w', w = c :: w' ∧ t = closed text w' rest := by
  cases t with
  | closed text₁ w₁ rest₁ =>
    simp only [written, closed.injEq]
    constructor
    · rintro ⟨rfl, rfl, rfl⟩
      exact ⟨_, rfl, rfl, rfl, rfl⟩
    · rintro ⟨w', rfl, rfl, rfl, rfl⟩
      exact ⟨rfl, rfl, rfl⟩
  | unterminated => simp [written]
  | badEscape => simp [written]

theorem yields_eq_closed {d c : Char} {t : StringTail} {text w rest : List Char} :
    t.yields d c = closed text w rest ↔
      ∃ text' w', text = d :: text' ∧ w = c :: w' ∧ t = closed text' w' rest := by
  cases t with
  | closed text₁ w₁ rest₁ =>
    simp only [yields, closed.injEq]
    constructor
    · rintro ⟨rfl, rfl, rfl⟩
      exact ⟨_, _, rfl, rfl, rfl, rfl, rfl⟩
    · rintro ⟨text', w', rfl, rfl, rfl, rfl, rfl⟩
      exact ⟨rfl, rfl, rfl⟩
  | unterminated => simp [yields]
  | badEscape => simp [yields]

end StringTail

theorem scanString_append {state : StringState} {s text written rest : List Char}
    (h : scanString state s = .closed text written rest) : written ++ rest = s := by
  induction s generalizing state text written rest with
  | nil => cases state <;> simp [scanString] at h
  | cons c cs ih =>
    unfold scanString at h
    split at h <;> rename_i heq <;> simp only [List.cons.injEq, reduceCtorEq] at heq <;>
      (try obtain ⟨rfl, rfl⟩ := heq)
    · repeat' split at h
      · rename_i hc
        obtain ⟨-, rfl, rfl⟩ := StringTail.closed.inj h
        simp [hc]
      · simp at h
      · obtain ⟨w, rfl, h'⟩ := StringTail.written_eq_closed.mp h
        simp [ih h']
      · obtain ⟨t, w, rfl, rfl, h'⟩ := StringTail.yields_eq_closed.mp h
        simp [ih h']
    · repeat' split at h
      · obtain ⟨t, w, rfl, rfl, h'⟩ := StringTail.yields_eq_closed.mp h
        simp [ih h']
      · obtain ⟨w, rfl, h'⟩ := StringTail.written_eq_closed.mp h
        simp [ih h']
      · simp at h
    · split at h
      · simp at h
      · simp only at h
        repeat' split at h
        · obtain ⟨t, w, rfl, rfl, h'⟩ := StringTail.yields_eq_closed.mp h
          simp [ih h']
        · simp at h
        · obtain ⟨w, rfl, h'⟩ := StringTail.written_eq_closed.mp h
          simp [ih h']

/-! ### Tokens -/

def rawQuote : Char := '\x60'

/-- The characters up to the first blank. -/
def firstWord (s : List Char) : List Char := s.takeWhile fun c => !Text.isSpace c

/-- A token that is a single mark. -/
def markToken? (c : Char) : Option TokenKind :=
  if c = '|' then some .bar
  else if c = '=' then some .assign
  else if c = ',' then some .comma
  else if c = '(' then some .leftParen
  else if c = ')' then some .rightParen
  else none

/-- A token that begins with the character `c` and is neither a mark nor a numeral. -/
def scanWord (c : Char) (cs : List Char) : Except SyntaxCause (Scanned TokenKind) :=
  if c = '.' then
    let r := scanFields (c :: cs)
    if r.value.isEmpty then .ok ⟨.dot, [c], cs⟩ else .ok ⟨.field r.value, r.lexeme, r.rest⟩
  else if c = '$' then
    let name := c :: cs.takeWhile isNameChar
    let r := scanFields (cs.dropWhile isNameChar)
    .ok ⟨.var (String.ofList name) r.value, name ++ r.lexeme, r.rest⟩
  else if c = rawQuote then
    let text := cs.takeWhile (· ≠ rawQuote)
    match cs.dropWhile (· ≠ rawQuote) with
    | q :: rest =>
      .ok ⟨.string (String.ofList (c :: text ++ [q])) (String.ofList text), c :: text ++ [q], rest⟩
    | []        => .error .unterminatedRawString
  else if c = '"' then
    match scanString .plain cs with
    | .closed text written rest =>
      .ok ⟨.string (String.ofList (c :: written)) (String.ofList text), c :: written, rest⟩
    | .unterminated => .error .unterminatedString
    | .badEscape    => .error .badEscape
  else if isNameStart c then
    let name := c :: cs.takeWhile isNameChar
    .ok ⟨.ofWord (String.ofList name), name, cs.dropWhile isNameChar⟩
  else if Decimal.isDigit c || c = '+' || c = '-' then
    .error (.badNumber (String.ofList (firstWord (c :: cs))))
  else .error (.unexpectedCharacter c)

/-- The token at the beginning of a text. -/
def scanToken : List Char → Except SyntaxCause (Scanned TokenKind)
  | []      => .error .unclosedAction
  | c :: cs =>
    match c, cs with
    | ':', '=' :: rest => .ok ⟨.declare, [':', '='], rest⟩
    | c,   cs          =>
      match markToken? c with
      | some kind => .ok ⟨kind, [c], cs⟩
      | none      =>
        match scanNumber? (c :: cs) with
        | some (text, rest) => .ok ⟨.number (String.ofList text), text, rest⟩
        | none              => scanWord c cs

/-! ### Nothing is lost -/

theorem takeSign_append (s : List Char) : (takeSign s).1 ++ (takeSign s).2 = s := by
  unfold takeSign
  split
  · rfl
  · split <;> rfl

theorem takeDigits_append (s : List Char) : (takeDigits s).1 ++ (takeDigits s).2 = s :=
  List.takeWhile_append_dropWhile

theorem takeFraction_append (s : List Char) : (takeFraction s).1 ++ (takeFraction s).2 = s := by
  unfold takeFraction
  split
  · simp [takeDigits_append]
  · rfl

theorem takeExponent_append (s : List Char) : (takeExponent s).1 ++ (takeExponent s).2 = s := by
  unfold takeExponent
  split
  · rfl
  · simp only
    split
    · simp [takeDigits_append, takeSign_append]
    · rfl

theorem scanHex_append {s text rest : List Char} (h : scanHex? s = some (text, rest)) :
    text ++ rest = s := by
  unfold scanHex? at h
  split at h
  · split at h
    · simp only [Option.some.injEq, Prod.mk.injEq] at h
      obtain ⟨rfl, rfl⟩ := h
      simp
    · simp at h
  · simp at h

theorem scanDecimal_append {s text rest : List Char} (h : scanDecimal? s = some (text, rest)) :
    text ++ rest = s := by
  unfold scanDecimal? at h
  simp only at h
  split at h
  · simp at h
  · simp only [Option.some.injEq, Prod.mk.injEq] at h
    obtain ⟨rfl, rfl⟩ := h
    rw [List.append_assoc, takeExponent_append, List.append_assoc, takeFraction_append,
      takeDigits_append]

theorem scanNumber_append {s text rest : List Char} (h : scanNumber? s = some (text, rest)) :
    text ++ rest = s := by
  unfold scanNumber? scanMagnitude? at h
  simp only at h
  split at h
  · simp at h
  · rename_i t r hm
    split at h
    · simp at h
    · simp only [Option.some.injEq, Prod.mk.injEq] at h
      obtain ⟨rfl, rfl⟩ := h
      have ha : t ++ r = (takeSign s).2 := by
        split at hm
        · rename_i hr
          rw [Option.some.inj hm] at hr
          exact scanHex_append hr
        · exact scanDecimal_append hm
      rw [List.append_assoc, ha, takeSign_append]

theorem scanWord_append {c : Char} {cs : List Char} {r : Scanned TokenKind}
    (h : scanWord c cs = .ok r) : r.lexeme ++ r.rest = c :: cs := by
  unfold scanWord at h
  simp only at h
  repeat' split at h
  all_goals first
    | (simp only [Except.ok.injEq, reduceCtorEq] at h; done)
    | (simp only [Except.ok.injEq] at h; subst h)
  · rfl
  · exact scanFields_append _
  · simp [scanFields_append]
  · rename_i q rest hq
    have := List.takeWhile_append_dropWhile (p := (· ≠ rawQuote)) (l := cs)
    rw [hq] at this
    simp only [List.cons_append, List.append_assoc, List.nil_append, List.cons.injEq, true_and]
    exact this
  · rename_i text written rest hs
    simp [scanString_append hs]
  · simp

/-- What is read and the rest make up the text. -/
theorem scanToken_append {s : List Char} {r : Scanned TokenKind} (h : scanToken s = .ok r) :
    r.lexeme ++ r.rest = s := by
  unfold scanToken at h
  split at h
  · simp at h
  · split at h
    · simp only [Except.ok.injEq] at h
      subst h
      rfl
    · split at h
      · simp only [Except.ok.injEq] at h
        subst h
        rfl
      · split at h
        · rename_i text rest hn
          simp only [Except.ok.injEq] at h
          subst h
          exact scanNumber_append hn
        · exact scanWord_append h

/-! ### Something is read -/

theorem scanFields_lexeme_ne_nil {s : List Char} (h : (scanFields s).value ≠ []) :
    (scanFields s).lexeme ≠ [] := by
  unfold scanFields at h ⊢
  split <;> simp_all
  split <;> simp_all

theorem scanDecimal_ne_nil {s text rest : List Char} (h : scanDecimal? s = some (text, rest)) :
    text ≠ [] := by
  unfold scanDecimal? at h
  simp only at h
  split at h
  · simp at h
  · rename_i hn
    simp only [Option.some.injEq, Prod.mk.injEq] at h
    obtain ⟨rfl, rfl⟩ := h
    intro he
    simp only [List.append_eq_nil_iff] at he
    simp [he.1.1, he.1.2] at hn

theorem scanNumber_ne_nil {s text rest : List Char} (h : scanNumber? s = some (text, rest)) :
    text ≠ [] := by
  unfold scanNumber? scanMagnitude? at h
  simp only at h
  split at h
  · simp at h
  · rename_i t r hm
    split at h
    · simp at h
    · simp only [Option.some.injEq, Prod.mk.injEq] at h
      obtain ⟨rfl, rfl⟩ := h
      have ht : t ≠ [] := by
        split at hm
        · rename_i hr
          rw [Option.some.inj hm] at hr
          unfold scanHex? at hr
          split at hr
          · split at hr <;> simp at hr
            rw [← hr.1]
            simp
          · simp at hr
        · exact scanDecimal_ne_nil hm
      simp [ht]

theorem scanWord_ne_nil {c : Char} {cs : List Char} {r : Scanned TokenKind}
    (h : scanWord c cs = .ok r) : r.lexeme ≠ [] := by
  unfold scanWord at h
  simp only at h
  repeat' split at h
  all_goals first
    | (simp only [Except.ok.injEq, reduceCtorEq] at h; done)
    | (simp only [Except.ok.injEq] at h; subst h)
  all_goals try simp
  rename_i hv
  exact scanFields_lexeme_ne_nil (by simpa using hv)

/-- A token is made of at least one character. -/
theorem scanToken_ne_nil {s : List Char} {r : Scanned TokenKind} (h : scanToken s = .ok r) :
    r.lexeme ≠ [] := by
  unfold scanToken at h
  split at h
  · simp at h
  · split at h
    · simp only [Except.ok.injEq] at h
      subst h
      simp
    · split at h
      · simp only [Except.ok.injEq] at h
        subst h
        simp
      · split at h
        · rename_i text rest hn
          simp only [Except.ok.injEq] at h
          subst h
          exact scanNumber_ne_nil hn
        · exact scanWord_ne_nil h

theorem scanToken_length {s : List Char} {r : Scanned TokenKind} (h : scanToken s = .ok r) :
    r.rest.length < s.length := by
  have h1 := congrArg List.length (scanToken_append h)
  have h2 := List.length_pos_iff.mpr (scanToken_ne_nil h)
  simp only [List.length_append] at h1
  omega

end SafeQuery
