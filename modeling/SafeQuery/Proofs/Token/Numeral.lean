import SafeQuery.Proofs.Token.Lexeme

/-!
# Numerals

A numeral that has been scanned is scanned again where its text stands before something that it does
not run into (`scanNumber_again`): its parts are taken one after the other, and none of them reaches
into the next one.
-/

namespace SafeQuery

/-- The text does not begin with a character of the class. -/
def Avoids (p : Char → Bool) (s : List Char) : Prop := ∀ c ∈ s.head?, p c = false

namespace Avoids

variable {p q : Char → Bool} {s : List Char}

lemma nil : Avoids p [] := by simp [Avoids]

lemma cons {c : Char} (h : p c = false) : Avoids p (c :: s) := by
  simpa [Avoids] using h

lemma mono (h : Avoids p s) (hqp : ∀ c, q c = true → p c = true) : Avoids q s := by
  intro c hc
  have hp := h c hc
  by_contra hq
  rw [hqp c (by simpa using hq)] at hp
  contradiction

end Avoids

/-- Characters of a class are taken up to a text that avoids it. -/
lemma takeWhile_append {p : Char → Bool} {l s : List Char} (hl : ∀ c ∈ l, p c = true)
    (hs : Avoids p s) : (l ++ s).takeWhile p = l := by
  rw [List.takeWhile_append_of_pos hl]
  cases s with
  | nil => simp
  | cons c s => rw [List.takeWhile_cons_of_neg (by simp [hs c rfl]), List.append_nil]

lemma dropWhile_append {p : Char → Bool} {l s : List Char} (hl : ∀ c ∈ l, p c = true)
    (hs : Avoids p s) : (l ++ s).dropWhile p = s := by
  rw [List.dropWhile_append_of_pos hl]
  cases s with
  | nil => rfl
  | cons c s => exact List.dropWhile_cons_of_neg (by simp [hs c rfl])

lemma isHexDigit_of_isDigit {c : Char} (h : Decimal.isDigit c = true) :
    Text.isHexDigit c = true := by
  unfold Decimal.isDigit at h
  simp [Text.isHexDigit, Text.hexValue?, h]

/-- A character of the first half of a byte is in a class with another one, if that can be seen from
the table of these characters. -/
lemma class_of_table {p q : Char → Bool}
    (htable : ∀ n < 128, p (Char.ofNat n) = true → q (Char.ofNat n) = true) {c : Char}
    (hc : c.toNat < 128) (hp : p c = true) : q c = true := by
  have h := htable c.toNat hc
  rw [Char.ofNat_toNat] at h
  exact h hp

/-- Hexadecimal digits may stand inside names. -/
lemma isNameChar_of_isHexDigit {c : Char} (h : Text.isHexDigit c = true) :
    isNameChar c = true := by
  refine class_of_table (p := Text.isHexDigit) (by decide) ?_ h
  simp only [Text.isHexDigit, Text.hexValue?, Bool.and_eq_true, decide_eq_true_eq] at h
  split_ifs at h with h₁ h₂ h₃
  · exact Nat.lt_of_le_of_lt (Char.le_def.mp h₁.2) (by decide)
  · exact Nat.lt_of_le_of_lt (Char.le_def.mp h₂.2) (by decide)
  · exact Nat.lt_of_le_of_lt (Char.le_def.mp h₃.2) (by decide)
  · cases h

lemma isNameChar_of_isNameStart {c : Char} (h : isNameStart c = true) : isNameChar c = true := by
  simp only [isNameStart, isNameChar, Bool.or_eq_true] at h ⊢
  tauto

lemma ne_of_class {p : Char → Bool} {c d : Char} (hc : p c = true) (hd : p d = false) : c ≠ d := by
  rintro rfl
  rw [hc] at hd
  contradiction

/-- What a numeral does not run into begins with no character of a name. -/
lemma avoids_of_runsOn {s : List Char} (h : runsOn s = false) : Avoids isNameChar s := by
  cases s with
  | nil => exact .nil
  | cons c s =>
    rw [runsOn, Bool.or_eq_false_iff] at h
    exact .cons h.1

lemma avoids_dot_of_runsOn {s : List Char} (h : runsOn s = false) : Avoids (· = '.') s := by
  cases s with
  | nil => exact .nil
  | cons c s =>
    rw [runsOn, Bool.or_eq_false_iff] at h
    exact .cons h.2

/-! ### Numerals -/

/-- Digits are taken again in front of what begins with none. -/
lemma takeDigits_again {s rest : List Char} (hrest : Avoids Decimal.isDigit rest) :
    takeDigits ((takeDigits s).1 ++ rest) = ((takeDigits s).1, rest) := by
  have hdigits : ∀ c ∈ (takeDigits s).1, Decimal.isDigit c = true :=
    fun c hc => List.mem_takeWhile_imp hc
  exact Prod.ext (takeWhile_append hdigits hrest) (dropWhile_append hdigits hrest)

lemma takeFraction_dot (cs : List Char) :
    takeFraction ('.' :: cs) = ('.' :: (takeDigits cs).1, (takeDigits cs).2) := rfl

lemma takeFraction_of_avoids {s : List Char} (h : Avoids (· = '.') s) :
    takeFraction s = ([], s) := by
  unfold takeFraction
  split
  · have hdot := h '.' rfl
    contradiction
  · rfl

/-- A fraction is nothing, or a point and digits. -/
lemma takeFraction_cases (s : List Char) :
    (takeFraction s).1 = [] ∨ ∃ cs, (takeFraction s).1 = '.' :: (takeDigits cs).1 := by
  unfold takeFraction
  split
  · exact .inr ⟨_, rfl⟩
  · exact .inl rfl

/-- A fraction is taken again in front of what begins neither with a digit nor with a point. -/
lemma takeFraction_again {s rest : List Char} (hdigit : Avoids Decimal.isDigit rest)
    (hdot : Avoids (· = '.') rest) :
    takeFraction ((takeFraction s).1 ++ rest) = ((takeFraction s).1, rest) := by
  rcases takeFraction_cases s with h | ⟨cs, h⟩
  · rw [h]
    exact takeFraction_of_avoids hdot
  · rw [h, List.cons_append, takeFraction_dot, takeDigits_again hdigit]

def isExponentMark (c : Char) : Bool := c = 'e' || c = 'E'

/-- An exponent is nothing, or a mark, a sign and digits. -/
lemma takeExponent_cases (s : List Char) :
    (takeExponent s).1 = [] ∨
      ∃ e ds, isExponentMark e = true ∧ (takeDigits (takeSign ds).2).1 ≠ [] ∧
      (takeExponent s).1 = e :: ((takeSign ds).1 ++ (takeDigits (takeSign ds).2).1) := by
  unfold takeExponent
  split
  · exact .inl rfl
  · rename_i e ds
    dsimp only
    split_ifs with h
    · simp only [Bool.and_eq_true, Bool.not_eq_true', List.isEmpty_eq_false_iff] at h
      exact .inr ⟨e, ds, h.1, h.2, rfl⟩
    · exact .inl rfl

def isSign (c : Char) : Bool := c = '+' || c = '-'

lemma takeSign_of_avoids {s : List Char} (h : Avoids isSign s) : takeSign s = ([], s) := by
  unfold takeSign
  split
  · rfl
  · exact if_neg (by simpa [isSign] using h _ rfl)

lemma takeSign_cons {c : Char} (h : isSign c = true) (cs : List Char) :
    takeSign (c :: cs) = ([c], cs) := if_pos h

/-- A text begins with a sign that is taken off, or it is left as it is. -/
lemma takeSign_cases (s : List Char) :
    (Avoids isSign s ∧ takeSign s = ([], s)) ∨
      ∃ c cs, isSign c = true ∧ s = c :: cs ∧ takeSign s = ([c], cs) := by
  cases s with
  | nil => exact .inl ⟨.nil, rfl⟩
  | cons c cs =>
    cases h : isSign c with
    | false =>
      have hs : Avoids isSign (c :: cs) := .cons h
      exact .inl ⟨hs, takeSign_of_avoids hs⟩
    | true => exact .inr ⟨c, cs, h, rfl, takeSign_cons h cs⟩

lemma avoids_takeDigits {p : Char → Bool} {s : List Char}
    (hp : ∀ c, Decimal.isDigit c = true → p c = false) : Avoids p (takeDigits s).1 := by
  intro c hc
  exact hp c (List.mem_takeWhile_imp (List.mem_of_mem_head? hc))

lemma not_isSign_of_isDigit {c : Char} (h : Decimal.isDigit c = true) : isSign c = false := by
  have hplus : c ≠ '+' := ne_of_class h (by decide)
  have hminus : c ≠ '-' := ne_of_class h (by decide)
  simp [isSign, hplus, hminus]

/-- A sign and digits are found again before something that is no digit. -/
lemma takeSign_digits_again {s : List Char} (hdigits : (takeDigits (takeSign s).2).1 ≠ [])
    (rest : List Char) :
    takeSign ((takeSign s).1 ++ ((takeDigits (takeSign s).2).1 ++ rest)) =
      ((takeSign s).1, (takeDigits (takeSign s).2).1 ++ rest) := by
  rcases takeSign_cases s with ⟨-, h⟩ | ⟨c, cs, hc, -, h⟩
  · rw [h] at hdigits ⊢
    refine takeSign_of_avoids ?_
    obtain ⟨d, ds, hd⟩ := List.exists_cons_of_ne_nil hdigits
    have havoids := avoids_takeDigits (s := s) fun _ => not_isSign_of_isDigit
    rw [hd] at havoids ⊢
    exact havoids
  · rw [h]
    exact takeSign_cons hc _

lemma takeExponent_of_avoids {s : List Char} (h : Avoids isExponentMark s) :
    takeExponent s = ([], s) := by
  unfold takeExponent
  split
  · rfl
  · rename_i e cs
    have he : (decide (e = 'e') || decide (e = 'E')) = false := h e rfl
    simp only [he, Bool.false_and, Bool.false_eq_true, if_false]

/-- An exponent is taken again in front of what begins neither with a digit nor with its mark. -/
lemma takeExponent_again {s rest : List Char} (hdigit : Avoids Decimal.isDigit rest)
    (hmark : Avoids isExponentMark rest) :
    takeExponent ((takeExponent s).1 ++ rest) = ((takeExponent s).1, rest) := by
  rcases takeExponent_cases s with h | ⟨e, ds, he, hdigits, h⟩
  · rw [h]
    exact takeExponent_of_avoids hmark
  · have hsign := takeSign_digits_again hdigits rest
    have hmark : (decide (e = 'e') || decide (e = 'E')) = true := he
    rw [h]
    simp only [List.cons_append, List.append_assoc, takeExponent, hsign,
      takeDigits_again hdigit, hmark, Bool.true_and, Bool.not_eq_true', List.isEmpty_eq_false_iff,
      hdigits, ne_eq, not_false_eq_true, if_true]

lemma isNameChar_of_isExponentMark {c : Char} (h : isExponentMark c = true) :
    isNameChar c = true := by
  simp only [isExponentMark, Bool.or_eq_true, decide_eq_true_eq] at h
  rcases h with rfl | rfl <;> decide

lemma isNameChar_of_isDigit {c : Char} (h : Decimal.isDigit c = true) : isNameChar c = true :=
  isNameChar_of_isHexDigit (isHexDigit_of_isDigit h)

section Numerals

variable {s text r rest : List Char}

/-- The exponent does not begin like digits or a fraction. -/
lemma avoids_exponent {p : Char → Bool} (hp : ∀ c, isExponentMark c = true → p c = false)
    (hrest : Avoids p rest) : Avoids p ((takeExponent s).1 ++ rest) := by
  rcases takeExponent_cases s with h | ⟨e, ds, he, -, h⟩
  · rwa [h]
  · rw [h]
    exact .cons (hp e he)

lemma avoids_fraction {p : Char → Bool} (hp : p '.' = false) (hrest : Avoids p rest) :
    Avoids p ((takeFraction s).1 ++ rest) := by
  rcases takeFraction_cases s with h | ⟨cs, h⟩
  · rwa [h]
  · rw [h]
    exact .cons hp

lemma not_isDigit_of_isExponentMark {c : Char} (h : isExponentMark c = true) :
    Decimal.isDigit c = false := by
  simp only [isExponentMark, Bool.or_eq_true, decide_eq_true_eq] at h
  rcases h with rfl | rfl <;> decide

lemma ne_dot_of_isExponentMark {c : Char} (h : isExponentMark c = true) :
    decide (c = '.') = false := by
  rw [decide_eq_false_iff_not]
  exact ne_of_class h (by decide)

/-- A numeral in base ten is found again. -/
lemma scanDecimal_again (h : scanDecimal? s = some (text, r)) (hrest : runsOn rest = false) :
    scanDecimal? (text ++ rest) = some (text, rest) := by
  have hname := avoids_of_runsOn hrest
  have hdigit : Avoids Decimal.isDigit rest := hname.mono fun _ => isNameChar_of_isDigit
  have hmark : Avoids isExponentMark rest := hname.mono fun _ => isNameChar_of_isExponentMark
  unfold scanDecimal? at h
  dsimp only at h
  split_ifs at h with hnone
  cases h
  -- the three parts are found one after the other
  have hwhole := takeDigits_again (s := s)
    (avoids_fraction (s := (takeDigits s).2) (by decide)
      (avoids_exponent (s := (takeFraction (takeDigits s).2).2)
        (fun _ => not_isDigit_of_isExponentMark) hdigit))
  have hfraction := takeFraction_again (s := (takeDigits s).2)
    (avoids_exponent (s := (takeFraction (takeDigits s).2).2)
      (fun _ => not_isDigit_of_isExponentMark) hdigit)
    (avoids_exponent (fun _ => ne_dot_of_isExponentMark) (avoids_dot_of_runsOn hrest))
  have hexponent := takeExponent_again (s := (takeFraction (takeDigits s).2).2) hdigit hmark
  simp only [scanDecimal?, List.append_assoc, hwhole, hfraction, hexponent]
  rw [if_neg hnone]

/-- A numeral in base sixteen is found again. -/
lemma scanHex_again (h : scanHex? s = some (text, r)) (hrest : runsOn rest = false) :
    scanHex? (text ++ rest) = some (text, rest) := by
  have hhex : Avoids Text.isHexDigit rest :=
    (avoids_of_runsOn hrest).mono fun _ => isNameChar_of_isHexDigit
  unfold scanHex? at h
  split at h
  · rename_i x cs
    split_ifs at h with hx
    cases h
    have hdigits : ∀ c ∈ cs.takeWhile Text.isHexDigit, Text.isHexDigit c = true :=
      fun c hc => List.mem_takeWhile_imp hc
    simp only [List.cons_append, scanHex?, takeWhile_append hdigits hhex,
      dropWhile_append hdigits hhex]
    rw [if_pos hx]
  · cases h

def isHexMark (c : Char) : Bool := c = 'x' || c = 'X'

/-- A numeral in base ten has none of the letters that mark base sixteen. -/
lemma not_isHexMark_of_mem_decimal (h : scanDecimal? s = some (text, r)) {c : Char}
    (hc : c ∈ text) : isHexMark c = false := by
  have hdigits : ∀ {t : List Char}, c ∈ (takeDigits t).1 → isHexMark c = false := by
    intro t ht
    have hdigit : Decimal.isDigit c = true := List.mem_takeWhile_imp ht
    have hx : c ≠ 'x' := ne_of_class hdigit (by decide)
    have hX : c ≠ 'X' := ne_of_class hdigit (by decide)
    simp [isHexMark, hx, hX]
  unfold scanDecimal? at h
  dsimp only at h
  split_ifs at h
  cases h
  simp only [List.mem_append] at hc
  rcases hc with (hc | hc) | hc
  · exact hdigits hc
  · rcases takeFraction_cases (takeDigits s).2 with hf | ⟨cs, hf⟩
    · rw [hf] at hc
      contradiction
    · rw [hf] at hc
      rcases List.mem_cons.mp hc with rfl | hc
      · decide
      · exact hdigits hc
  · rcases takeExponent_cases (takeFraction (takeDigits s).2).2 with he | ⟨e, ds, hmark, -, he⟩
    · rw [he] at hc
      contradiction
    · rw [he] at hc
      rcases List.mem_cons.mp hc with rfl | hc
      · simp only [isExponentMark, Bool.or_eq_true, decide_eq_true_eq] at hmark
        rcases hmark with rfl | rfl <;> decide
      · rcases List.mem_append.mp hc with hc | hc
        · rcases takeSign_cases ds with ⟨-, hs⟩ | ⟨d, cs, hd, -, hs⟩
          · rw [hs] at hc
            contradiction
          · rw [hs] at hc
            obtain rfl := List.mem_singleton.mp hc
            simp only [isSign, Bool.or_eq_true, decide_eq_true_eq] at hd
            rcases hd with rfl | rfl <;> decide
        · exact hdigits hc

/-- A numeral in base ten is no numeral in base sixteen. -/
lemma scanHex_decimal (h : scanDecimal? s = some (text, r)) (hrest : runsOn rest = false) :
    scanHex? (text ++ rest) = none := by
  have hmark : ∀ c ∈ (text ++ rest).drop 1 |>.head?, isHexMark c = false := by
    intro c hc
    obtain ⟨d, ds, rfl⟩ := List.exists_cons_of_ne_nil (scanDecimal_ne_nil h)
    cases ds with
    | nil =>
      have hname := avoids_of_runsOn hrest c hc
      by_contra hx
      simp only [isHexMark, Bool.not_eq_false, Bool.or_eq_true, decide_eq_true_eq] at hx
      rcases hx with rfl | rfl
      all_goals
        revert hname
        decide
    | cons e es =>
      cases hc
      exact not_isHexMark_of_mem_decimal h (by simp)
  unfold scanHex?
  split
  · rename_i x cs heq
    have hx : (decide (x = 'x') || decide (x = 'X')) = false := hmark x (by simp [heq])
    simp only [hx, Bool.false_and, Bool.false_eq_true, if_false]
  · rfl

/-- A numeral of either base is found again. -/
lemma scanMagnitude_again (h : scanMagnitude? s = some (text, r)) (hrest : runsOn rest = false) :
    scanMagnitude? (text ++ rest) = some (text, rest) := by
  unfold scanMagnitude? at h ⊢
  split at h
  · rename_i hhex
    cases h
    rw [scanHex_again hhex hrest]
  · rw [scanHex_decimal h hrest]
    exact scanDecimal_again h hrest

/-- The head of a numeral without sign is a digit or a point. -/
lemma scanMagnitude_head (h : scanMagnitude? s = some (text, r)) :
    ∃ c cs, text = c :: cs ∧ (Decimal.isDigit c = true ∨ c = '.') := by
  unfold scanMagnitude? at h
  split at h
  · rename_i hhex
    cases h
    unfold scanHex? at hhex
    split at hhex
    · split_ifs at hhex
      cases hhex
      exact ⟨_, _, rfl, .inl (by decide)⟩
    · cases hhex
  · unfold scanDecimal? at h
    dsimp only at h
    split_ifs at h with hnone
    cases h
    cases hdigits : (takeDigits s).1 with
    | cons d ds =>
      have hd : d ∈ (takeDigits s).1 := by simp [hdigits]
      exact ⟨d, _, rfl, .inl (List.mem_takeWhile_imp hd)⟩
    | nil =>
      rcases takeFraction_cases (takeDigits s).2 with hf | ⟨cs, hf⟩
      · simp [hdigits, hf] at hnone
      · rw [hf]
        exact ⟨'.', _, rfl, .inr rfl⟩

/-- A numeral is found again before something that it does not run into. -/
theorem scanNumber_again (h : scanNumber? s = some (text, r)) (hrest : runsOn rest = false) :
    scanNumber? (text ++ rest) = some (text, rest) := by
  unfold scanNumber? at h
  dsimp only at h
  split at h
  · cases h
  · rename_i magnitude r' hmagnitude
    split_ifs at h
    cases h
    have hsign : takeSign ((takeSign s).1 ++ (magnitude ++ rest)) =
        ((takeSign s).1, magnitude ++ rest) := by
      rcases takeSign_cases s with ⟨-, hs⟩ | ⟨c, cs, hc, -, hs⟩
      · rw [hs]
        obtain ⟨c, cs, rfl, hc⟩ := scanMagnitude_head hmagnitude
        refine takeSign_of_avoids (.cons ?_)
        rcases hc with hc | rfl
        · exact not_isSign_of_isDigit hc
        · decide
      · rw [hs]
        exact takeSign_cons hc _
    simp only [scanNumber?, List.append_assoc, hsign, scanMagnitude_again hmagnitude hrest, hrest,
      Bool.false_eq_true, if_false]

end Numerals

end SafeQuery
