import SafeQuery.Proofs.Decimal.Exact
import SafeQuery.Proofs.Token.Numeral

/-!
# The general layout

The general layout only moves the point. Its text consists of digits, of digits behind a point where
there are some, and of an exponent where the number is small or large; read as a numeral it is the
number that it was laid out from (`general_denotes`).
-/

namespace SafeQuery.Decimal

/-- The number that a numeral stands for, without its sign. -/
def Numeral.magnitude (n : Numeral) : ℚ := n.units * (10 : ℚ) ^ n.exponent

/-- The text of a fraction, which has no point where it has no digits. -/
def pointed (fraction : List Char) : List Char :=
  if fraction.isEmpty then [] else '.' :: fraction

/-- The text of an exponent: a letter, a sign and at least two digits. -/
def IsMark (mark : List Char) : Prop :=
  ∃ sign es, mark = 'e' :: sign :: es ∧ (sign = '+' ∨ sign = '-') ∧ IsDigits es ∧ 2 ≤ es.length

def markOf (exponent : Int) : List Char :=
  'e' :: (if exponent < 0 then '-' else '+') :: exponentDigits exponent.natAbs

lemma le_length_exponentDigits (n : Nat) : 2 ≤ (exponentDigits n).length := by
  have hpos := List.length_pos_iff.mpr (isDigits_toDigits n).ne_nil
  unfold exponentDigits
  dsimp only
  split
  · rw [List.length_cons]
    omega
  · omega

@[simp] lemma value_exponentDigits (n : Nat) : value (exponentDigits n) = n := by
  unfold exponentDigits
  dsimp only
  split
  · rw [value_cons, value_toDigits]
    simp [digitValue]
  · exact value_toDigits n

lemma markOf_isMark (exponent : Int) : IsMark (markOf exponent) := by
  refine ⟨_, _, rfl, ?_, exponentDigits_isDigits _, le_length_exponentDigits _⟩
  split
  · exact Or.inr rfl
  · exact Or.inl rfl

lemma not_isMark_nil : ¬ IsMark [] := by
  rintro ⟨_, _, hmark, -⟩
  cases hmark

lemma readExponent?_markOf (exponent : Int) : readExponent? (markOf exponent) = some exponent := by
  have hdigits := exponentDigits_isDigits exponent.natAbs
  have hsome : (exponentDigits exponent.natAbs).isEmpty = false :=
    List.isEmpty_eq_false_iff.mpr hdigits.ne_nil
  have hall : (exponentDigits exponent.natAbs).all isDigit = true :=
    List.all_eq_true.mpr hdigits.all
  by_cases hneg : exponent < 0
  · simp [markOf, hneg, readExponent?, splitSign, hsome, hall, abs_of_neg hneg]
  · simp [markOf, hneg, readExponent?, splitSign, hsome, hall, abs_of_nonneg (Int.not_lt.mp hneg)]

/-- A numeral is read in its parts. -/
lemma read?_parts {whole fraction mark : List Char} {exponent : Int} (x : Float)
    (hwhole : IsDigits whole) (hfraction : ∀ f ∈ fraction, isDigit f = true)
    (hmark : mark = [] ∨ IsMark mark) (hexponent : readExponent? mark = some exponent) :
    Numeral.read? (signOf x ++ whole ++ pointed fraction ++ mark) =
      some ⟨isNegative x, value (whole ++ fraction), exponent - fraction.length⟩ := by
  have hsign : splitSign (signOf x ++ whole ++ pointed fraction ++ mark)
      = (isNegative x, whole ++ (pointed fraction ++ mark)) := by
    simp only [List.append_assoc, signOf]
    cases isNegative x
    · exact splitSign_digits hwhole _
    · rfl
  have hhead : ∀ c ∈ mark.head?, c = 'e' := by
    intro c hc
    rcases hmark with rfl | ⟨sign, es, rfl, -⟩
    · cases hc
    · exact (Option.some.inj hc).symm
  have hdigit : Avoids isDigit mark := fun c hc => by
    rw [hhead c hc]
    decide
  have hrest : Avoids isDigit (pointed fraction ++ mark) := by
    unfold pointed
    split
    · exact hdigit
    · exact .cons (by decide)
  have hall : ∀ c ∈ whole, isDigit c = true := hwhole.all
  have hsome : whole.isEmpty = false := List.isEmpty_eq_false_iff.mpr hwhole.ne_nil
  simp only [Numeral.read?, hsign, takeWhile_append hall hrest, dropWhile_append hall hrest, hsome,
    Bool.false_and]
  cases fraction with
  | nil =>
    rcases hmark with rfl | ⟨sign, es, rfl, -⟩
    · simp [pointed, hexponent]
    · simp [pointed, hexponent]
  | cons f fs =>
    rw [show pointed (f :: fs) ++ mark = '.' :: (f :: fs ++ mark) from rfl]
    simp only [takeWhile_append hfraction hdigit, dropWhile_append hfraction hdigit, hexponent]
    rfl

/-! ### Moving the point -/

/-- Digits before and behind a point that, times a power of ten, are the number. -/
structure IsSplit (s : Scientific) (exponent : Int) (whole fraction : List Char) : Prop where
  isDigits_whole : IsDigits whole
  isDigit_fraction : ∀ f ∈ fraction, isDigit f = true
  last_ne_zero : fraction.getLast? ≠ some '0'
  number_eq : (value (whole ++ fraction) : ℚ) * 10 ^ (exponent - fraction.length) = s.number

namespace Scientific.IsNormal

variable {s : Scientific}

/-- What is behind the first digits does not end with a zero. -/
lemma getLast?_drop (h : s.IsNormal) (n : Nat) : (s.digits.drop (n + 1)).getLast? ≠ some '0' := by
  rw [List.getLast?_drop]
  split
  · simp
  · rcases h.ends with rfl | ⟨-, hlast⟩
    · simp at *
    · exact hlast

/-- The point behind the first digit. -/
lemma isSplit_withExponent (h : s.IsNormal) :
    IsSplit s s.exponent (s.digits.take 1) s.digits.tail where
  isDigits_whole := h.digits.take 0
  isDigit_fraction := fun f hf => h.digits.all f (List.mem_of_mem_tail hf)
  last_ne_zero := by simpa using h.getLast?_drop 0
  number_eq := by
    rw [← List.drop_one, List.take_append_drop, List.length_drop]
    rfl

/-- The point in front of all digits. -/
lemma isSplit_below (h : s.IsNormal) (hneg : s.exponent < 0) :
    IsSplit s 0 ['0'] (List.replicate (s.exponent.natAbs - 1) '0' ++ s.digits) where
  isDigits_whole := isDigits_zero
  isDigit_fraction := (h.digits.zeros_append _).all
  last_ne_zero := by
    rcases h.ends with rfl | ⟨-, hlast⟩
    · exact absurd hneg (by decide)
    · rwa [List.getLast?_append_of_ne_nil _ h.digits.ne_nil]
  number_eq := by
    have hlength := List.length_pos_iff.mpr h.digits.ne_nil
    have hvalue : value (['0'] ++ (List.replicate (s.exponent.natAbs - 1) '0' ++ s.digits))
        = value s.digits := by
      rw [value_append, value_zeros_append]
      exact Nat.add_eq_right.mpr (Nat.zero_mul _)
    rw [hvalue, number, List.length_append, List.length_replicate]
    congr 2
    omega

/-- The point within the digits, or behind them and the zeros that follow. -/
lemma isSplit_above (h : s.IsNormal) (hpos : 0 ≤ s.exponent) :
    IsSplit s 0
      (s.digits.take (s.exponent.toNat + 1)
        ++ List.replicate (s.exponent.toNat + 1 - s.digits.length) '0')
      (s.digits.drop (s.exponent.toNat + 1)) where
  isDigits_whole := (h.digits.take _).append fun _ he => isDigit_of_mem_zeros he
  isDigit_fraction := fun f hf => h.digits.all f (List.mem_of_mem_drop hf)
  last_ne_zero := h.getLast?_drop _
  number_eq := by
    have hlength := List.length_pos_iff.mpr h.digits.ne_nil
    rcases Nat.le_total (s.exponent.toNat + 1) s.digits.length with hinside | hbehind
    · rw [Nat.sub_eq_zero_of_le hinside, List.replicate_zero, List.append_nil,
        List.take_append_drop, number, List.length_drop]
      congr 2
      omega
    · have hscale : s.exponent - (s.digits.length - 1 : Nat)
          = (s.exponent.toNat + 1 - s.digits.length : Nat) := by omega
      rw [List.take_of_length_le hbehind, List.drop_eq_nil_of_le hbehind, List.append_nil,
        value_append, value_zeros, List.length_replicate, number, hscale, zpow_natCast]
      simp

/-- The general layout in its parts. -/
lemma layOut_eq (h : s.IsNormal) (precision : Option Nat) :
    ∃ whole fraction mark exponent, layOut precision s = whole ++ pointed fraction ++ mark ∧
      IsSplit s exponent whole fraction ∧ readExponent? mark = some exponent ∧
        (mark = [] ∨ IsMark mark) ∧
          (IsMark mark ↔ s.exponent < -4 ∨ exponentFrom precision s ≤ s.exponent) := by
  unfold layOut
  simp only [Bool.or_eq_true, decide_eq_true_eq]
  split
  · rename_i hmarked
    refine ⟨_, _, markOf s.exponent, _, ?_, h.isSplit_withExponent, readExponent?_markOf _,
      Or.inr (markOf_isMark _), iff_of_true (markOf_isMark _) hmarked⟩
    simp [withExponent, pointed, markOf]
  · rename_i hplain
    unfold positional
    split
    · rename_i hneg
      refine ⟨_, _, [], _, ?_, h.isSplit_below hneg, rfl, Or.inl rfl,
        iff_of_false not_isMark_nil hplain⟩
      simp [pointed, h.digits.ne_nil]
    · rename_i hpos
      refine ⟨_, _, [], _, ?_, h.isSplit_above (by omega), rfl, Or.inl rfl,
        iff_of_false not_isMark_nil hplain⟩
      simp [pointed]

end Scientific.IsNormal

/-- The exponent from which on one is meant to be written: that of `exponentFrom`, without a bound on
the numbers. -/
def threshold (precision : Option Nat) (s : Scientific) : Int :=
  match precision with
  | none   => 6
  | some p =>
    if s.digits.length < max p 1 ∧ s.exponent + 1 ≤ s.digits.length then s.digits.length
    else (max p 1 : Nat)

/-- The count of the digits has no say in where an exponent is written: it only takes the place of the
precision where the whole part fits into the digits, and there neither has been reached. -/
lemma threshold_le_iff (p : Nat) (s : Scientific) :
    threshold (some p) s ≤ s.exponent ↔ ((max p 1 : Nat) : Int) ≤ s.exponent := by
  unfold threshold
  dsimp only
  split
  · omega
  · rfl

lemma exponentFrom_le_iff (p : Nat) (s : Scientific) :
    exponentFrom (some p) s ≤ s.exponent ↔ (Int32.ofNat (max p 1)).toInt ≤ s.exponent := by
  unfold exponentFrom
  simp only [Bool.and_eq_true, decide_eq_true_eq]
  split
  · omega
  · rfl

/-- An exponent is written where it is meant to be, except where the precision does not fit in
thirty-two bits, and what is left of it has been reached in its place. -/
lemma exponentFrom_agrees_iff (precision : Option Nat) (s : Scientific) :
    ((s.exponent < -4 ∨ exponentFrom precision s ≤ s.exponent) ↔
        (s.exponent < -4 ∨ threshold precision s ≤ s.exponent)) ↔
      ∀ p ∈ precision, 2 ^ 31 ≤ p → (Int32.ofNat p).toInt ≤ s.exponent → -4 ≤ s.exponent →
        p ≤ s.exponent := by
  cases precision with
  | none => exact iff_of_true Iff.rfl fun p hp => absurd hp (Option.not_mem_none p)
  | some p =>
    simp only [Option.mem_some_iff, forall_eq', exponentFrom_le_iff, threshold_le_iff]
    rcases Nat.lt_or_ge p (2 ^ 31) with hfits | hwide
    · have hwrapped := Int32.toInt_ofNat_of_lt (show max p 1 < 2 ^ 31 by omega)
      rw [hwrapped]
      exact iff_of_true Iff.rfl fun hge => absurd hfits (Nat.not_lt_of_le hge)
    · have hbound := (Int32.ofNat p).toInt_lt
      rw [show max p 1 = p by omega]
      omega

/-- The general layout does not change the number. The decimal `s` that it starts from is zero, or
has no zeros at its end and is a number of the size that its exponent tells. The text of the layout is
read as the number of this decimal, with the sign; no fraction ends with a zero; and an exponent has a
sign and at least two digits. It is written where the one of the number is below `-4` or has reached
the threshold, except where a precision of `2 ^ 31` or more wraps around to a number that has been
reached, though the precision has not. -/
theorem general_denotes {x : Float} {b : Binary} (hx : magnitude x = .finite b)
    (precision : Option Nat) :
    let s := b.generalDigits precision
    (s = ⟨['0'], 0⟩ ∨ s.digits.getLast? ≠ some '0' ∧
      (10 : ℚ) ^ s.exponent ≤ s.number ∧ s.number < (10 : ℚ) ^ (s.exponent + 1)) ∧
    ∃ (whole fraction mark : List Char) (n : Numeral),
      general precision x = String.ofList (signOf x ++ whole ++ pointed fraction ++ mark) ∧
      Numeral.read? (general precision x).toList = some n ∧
      n.negative = isNegative x ∧ n.magnitude = s.number ∧
      IsDigits whole ∧ (∀ f ∈ fraction, isDigit f = true) ∧ fraction.getLast? ≠ some '0' ∧
      (mark = [] ∨ IsMark mark) ∧
      (IsMark mark ↔ s.exponent < -4 ∨ exponentFrom precision s ≤ s.exponent) ∧
      ((IsMark mark ↔ s.exponent < -4 ∨ threshold precision s ≤ s.exponent) ↔
        ∀ p ∈ precision, 2 ^ 31 ≤ p → (Int32.ofNat p).toInt ≤ s.exponent → -4 ≤ s.exponent →
          p ≤ s.exponent) := by
  intro s
  have hnormal : s.IsNormal := generalDigits_isNormal hx precision
  obtain ⟨whole, fraction, mark, exponent, htext, hsplit, hexponent, hmarked, hmark⟩ :=
    hnormal.layOut_eq precision
  have hgeneral : general precision x
      = String.ofList (signOf x ++ whole ++ pointed fraction ++ mark) := by
    simp only [general, hx, List.append_assoc]
    rw [htext, List.append_assoc]
  have hread := read?_parts x hsplit.isDigits_whole hsplit.isDigit_fraction hmarked hexponent
  rw [← String.toList_ofList (l := signOf x ++ whole ++ pointed fraction ++ mark), ← hgeneral]
    at hread
  refine ⟨?_, whole, fraction, mark, _, hgeneral, hread, rfl, hsplit.number_eq,
    hsplit.isDigits_whole, hsplit.isDigit_fraction, hsplit.last_ne_zero, hmarked, hmark, ?_⟩
  · rcases hnormal.ends with hzero | ⟨hfirst, hlast⟩
    · exact Or.inl hzero
    · exact Or.inr ⟨hlast, Scientific.exponent_spec hnormal.digits hfirst⟩
  · rw [hmark]
    exact exponentFrom_agrees_iff precision s

/-- Of minus 1234567 three digits are laid out, with an exponent. -/
theorem general_denotes_three :
    magnitude (.ofBits 0xc132d68700000000) = .finite ⟨5302424889720832, -32, false⟩ ∧
    let s := (⟨5302424889720832, -32, false⟩ : Binary).generalDigits (some 3)
    (s = ⟨['0'], 0⟩ ∨ s.digits.getLast? ≠ some '0' ∧
      (10 : ℚ) ^ s.exponent ≤ s.number ∧ s.number < (10 : ℚ) ^ (s.exponent + 1)) ∧
    ∃ (whole fraction mark : List Char) (n : Numeral),
      general (some 3) (.ofBits 0xc132d68700000000) =
        String.ofList (signOf (.ofBits 0xc132d68700000000) ++ whole ++ pointed fraction ++ mark) ∧
      Numeral.read? (general (some 3) (.ofBits 0xc132d68700000000)).toList = some n ∧
      n.negative = isNegative (.ofBits 0xc132d68700000000) ∧ n.magnitude = s.number ∧
      IsDigits whole ∧ (∀ f ∈ fraction, isDigit f = true) ∧ fraction.getLast? ≠ some '0' ∧
      (mark = [] ∨ IsMark mark) ∧
      (IsMark mark ↔ s.exponent < -4 ∨ exponentFrom (some 3) s ≤ s.exponent) ∧
      ((IsMark mark ↔ s.exponent < -4 ∨ threshold (some 3) s ≤ s.exponent) ↔
        ∀ p ∈ some 3, 2 ^ 31 ≤ p → (Int32.ofNat p).toInt ≤ s.exponent → -4 ≤ s.exponent →
          p ≤ s.exponent) :=
  have hfinite : magnitude (.ofBits 0xc132d68700000000) = .finite ⟨5302424889720832, -32, false⟩ := by
    rfl
  ⟨hfinite, general_denotes hfinite (some 3)⟩

/-- With a precision of `2 ^ 31`, one is laid out with an exponent, though no threshold of its size
has been reached. -/
theorem general_wraps :
    magnitude (.ofBits 0x3ff0000000000000) = .finite ⟨4503599627370496, -52, true⟩ ∧
    (⟨4503599627370496, -52, true⟩ : Binary).generalDigits (some 2147483648) = ⟨['1'], 0⟩ ∧
    threshold (some 2147483648) ⟨['1'], 0⟩ = 1 ∧
    exponentFrom (some 2147483648) ⟨['1'], 0⟩ = -2147483648 ∧
    general (some 2147483648) (.ofBits 0x3ff0000000000000) = "1e+00" := by
  have hfinite : magnitude (.ofBits 0x3ff0000000000000)
      = .finite ⟨4503599627370496, -52, true⟩ := by rfl
  have hdigits : (⟨4503599627370496, -52, true⟩ : Binary).generalDigits (some 2147483648)
      = ⟨['1'], 0⟩ := by
    have hexact : (⟨4503599627370496, -52, true⟩ : Binary).significant 2147483648 = ⟨['1'], 0⟩ := by
      rw [Binary.significant_eq_exact (by decide) (by decide +kernel)]
      decide +kernel
    exact hexact
  refine ⟨hfinite, hdigits, by decide, by decide, ?_⟩
  simp only [general, hfinite, hdigits]
  decide +kernel

example : general (some 3) (.ofBits 0xc132d68700000000) = "-1.23e+06" := by decide +kernel

end SafeQuery.Decimal
