import Mathlib.Algebra.Order.Field.Power
import Mathlib.Algebra.Order.Field.Rat
import Mathlib.Tactic.Positivity
import SafeQuery.Proofs.Decimal.Digits

/-!
# Normal decimals

The decimals that the texts of numbers start from have no zeros at their ends, apart from zero
itself (`generalDigits_isNormal`), so that their exponent is the one of the number that they write
(`Scientific.exponent_spec`). For a decimal that was rounded this rests on the size of
the number: it is not rounded to nothing.
-/

namespace SafeQuery.Decimal

namespace Scientific

/-- The number that a decimal writes. -/
def number (s : Scientific) : ℚ :=
  value s.digits * (10 : ℚ) ^ (s.exponent - (s.digits.length - 1 : Nat))

/-- Neither the first digit nor the last is a zero, unless the number is zero. -/
structure IsNormal (s : Scientific) : Prop where
  digits : IsDigits s.digits
  ends : s = ⟨['0'], 0⟩ ∨ s.digits.head? ≠ some '0' ∧ s.digits.getLast? ≠ some '0'

/-- Where the first digit is not a zero, the exponent tells between which powers of ten the number
lies. -/
lemma exponent_spec {s : Scientific} (hdigits : IsDigits s.digits)
    (hfirst : s.digits.head? ≠ some '0') :
    (10 : ℚ) ^ s.exponent ≤ s.number ∧ s.number < (10 : ℚ) ^ (s.exponent + 1) := by
  obtain ⟨digits, exponent⟩ := s
  cases digits with
  | nil => exact absurd rfl hdigits.ne_nil
  | cons d ds =>
    have hlow : 10 ^ ds.length ≤ value (d :: ds) :=
      le_value (hdigits.all d List.mem_cons_self) fun hd => hfirst (congrArg some hd)
    have hhigh : value (d :: ds) < 10 ^ (ds.length + 1) := value_lt hdigits.all
    have hscale : (0 : ℚ) < 10 ^ (exponent - ds.length) := by positivity
    have hpow : ∀ k : Nat, ((10 ^ k : Nat) : ℚ) * 10 ^ (exponent - ds.length)
        = 10 ^ (exponent - ds.length + k) := by
      intro k
      rw [Nat.cast_pow, Nat.cast_ofNat, ← zpow_natCast, ← zpow_add₀ (by decide), Int.add_comm]
    simp only [number, List.length_cons, Nat.add_sub_cancel]
    constructor
    · calc (10 : ℚ) ^ exponent
          = ((10 ^ ds.length : Nat) : ℚ) * 10 ^ (exponent - ds.length) := by
            rw [hpow, Int.sub_add_cancel]
        _ ≤ value (d :: ds) * 10 ^ (exponent - ds.length) :=
            mul_le_mul_of_nonneg_right (Nat.cast_le.mpr hlow) hscale.le
    · calc (value (d :: ds) : ℚ) * 10 ^ (exponent - ds.length)
          < ((10 ^ (ds.length + 1) : Nat) : ℚ) * 10 ^ (exponent - ds.length) :=
            mul_lt_mul_of_pos_right (Nat.cast_lt.mpr hhigh) hscale
        _ = 10 ^ (exponent + 1) := by
            rw [hpow]
            congr 1
            omega

lemma zero_isNormal : IsNormal ⟨['0'], 0⟩ := ⟨isDigits_zero, Or.inl rfl⟩

/-- A whole number of units that is not zero has a normal decimal. -/
lemma ofNat_isNormal {n : Nat} (h : n ≠ 0) (e : Int) : (ofNat n e).IsNormal := by
  refine ⟨ofNat_isDigits n e, Or.inr ?_⟩
  have hhead := head?_toDigits h
  simp only [ofNat]
  cases hdigits : Nat.toDigits 10 n with
  | nil => exact absurd hdigits Nat.toDigits_ne_nil
  | cons d ds =>
    rw [hdigits] at hhead
    refine ⟨hhead, fun hlast => ?_⟩
    change (d :: ds.rdropWhile (· = '0')).getLast? = some '0' at hlast
    rw [List.getLast?_cons] at hlast
    cases hrest : (ds.rdropWhile (· = '0')).getLast? with
    | none =>
      rw [hrest] at hlast
      exact hhead hlast
    | some c =>
      rw [hrest] at hlast
      obtain ⟨hne, hc⟩ := List.mem_getLast?_eq_getLast hrest
      have hzero := List.rdropWhile_last_not _ _ hne
      simp only [Option.getD_some, Option.some.injEq] at hlast
      simp [← hc, hlast] at hzero

end Scientific

/-- Rounding loses less than one. -/
lemma le_roundDiv (num den : Nat) (tie : Tie) : num / den ≤ roundDiv num den tie := by
  unfold roundDiv
  dsimp only
  split
  · exact Nat.le_refl _
  · exact Nat.le_succ _
  · exact Nat.le_succ _
  · split
    · exact Nat.le_refl _
    · exact Nat.le_succ _

namespace Binary

variable {x : Binary}

/-! ### The shortest decimal -/

/-- Nothing is not read back as a number that is something. -/
lemma readsBack_zero (h : x.units ≠ 0) (e : Int) : x.readsBack 0 e = false := by
  have hpos : ∀ y : Binary, y.units ≠ 0 → y.compareScaled 0 e = .gt := by
    intro y hy
    rw [compareScaled, Nat.zero_mul, Nat.compare_eq_gt]
    exact Nat.mul_pos (Nat.mul_pos (Nat.pos_of_ne_zero hy) (Nat.pow_pos (by decide)))
      (Nat.pow_pos (by decide))
  have hbelow := hpos
    ⟨if x.narrowBelow then 4 * x.units - 1 else 4 * x.units - 2, x.exponent - 2, false⟩ (by
      dsimp only
      split <;> omega)
  simp [readsBack, hbelow]

/-- What reads back on a grid is not nothing. -/
lemma onGrid_ne_zero (h : x.units ≠ 0) {e : Int} {n : Nat} (hn : x.onGrid e = some n) : n ≠ 0 := by
  have hbelow : x.readsBack (x.scaledNum e / x.scaledDen e) e = true →
      x.scaledNum e / x.scaledDen e ≠ 0 := by
    intro hreads hzero
    rw [hzero, readsBack_zero h e] at hreads
    cases hreads
  unfold onGrid at hn
  dsimp only at hn
  split at hn
  · rename_i hreads _
    have hround := le_roundDiv (x.scaledNum e) (x.scaledDen e) .up
    have hpos := hbelow hreads
    obtain rfl : x.roundedTo e .up = n := Option.some.inj hn
    exact Nat.pos_iff_ne_zero.mp (Nat.lt_of_lt_of_le (Nat.pos_of_ne_zero hpos) hround)
  · rename_i hreads _
    obtain rfl := Option.some.inj hn
    exact hbelow hreads
  · obtain rfl := Option.some.inj hn
    exact Nat.succ_ne_zero _
  · cases hn

lemma firstGrid_isNormal (h : x.units ≠ 0) {size : Int} {n left : Nat} {s : Scientific}
    (hs : x.firstGrid size n left = some s) : s.IsNormal := by
  induction left generalizing n with
  | zero => cases hs
  | succ left ih =>
    rw [firstGrid] at hs
    split at hs
    · rename_i k hk
      cases hs
      exact Scientific.ofNat_isNormal (onGrid_ne_zero h hk) _
    · exact ih hs

lemma exact_isNormal (h : x.units ≠ 0) : x.exact.IsNormal := by
  have hpow : ∀ b k, b ≠ 0 → x.units * Nat.pow b k ≠ 0 := fun b k hb =>
    Nat.mul_ne_zero h (Nat.pos_iff_ne_zero.mp (Nat.pow_pos (Nat.pos_of_ne_zero hb)))
  unfold exact
  split
  · exact Scientific.ofNat_isNormal (hpow 2 _ (by decide)) _
  · exact Scientific.ofNat_isNormal (hpow 5 _ (by decide)) _

lemma shortest_isNormal (x : Binary) : x.shortest.IsNormal := by
  unfold shortest
  split
  · exact Scientific.zero_isNormal
  · rename_i h
    cases hs : x.firstGrid x.decimalSize 1 17 with
    | none => exact exact_isNormal h
    | some s => exact firstGrid_isNormal h hs

/-! ### A rounded decimal -/

/-- The number that is meant, without its sign. -/
def number (x : Binary) : ℚ := x.units * (2 : ℚ) ^ x.exponent

/-- A power with its exponent split into two whole numbers, of which one is zero. -/
lemma zpow_eq_div (b : ℚ) (e : Int) : b ^ e = b ^ e.toNat / b ^ (-e).toNat := by
  rcases Int.le_total 0 e with he | he
  · lift e to ℕ using he
    simp
  · obtain ⟨k, hk⟩ := Int.eq_ofNat_of_zero_le (show 0 ≤ -e by omega)
    obtain rfl : e = -(k : Int) := by omega
    simp

/-- The number has reached a power of ten where its numerator has reached the denominator. -/
lemma scaledDen_le_iff (x : Binary) (e : Int) :
    x.scaledDen e ≤ x.scaledNum e ↔ (10 : ℚ) ^ e ≤ x.number := by
  have htwo : (0 : ℚ) < 2 ^ (-x.exponent).toNat := by positivity
  have hten : (0 : ℚ) < 10 ^ (-e).toNat := by positivity
  rw [number, zpow_eq_div 10 e, zpow_eq_div 2 x.exponent, ← mul_div_assoc,
    div_le_div_iff₀ hten htwo, scaledDen, scaledNum, Nat.pow_eq, Nat.pow_eq, Nat.pow_eq, Nat.pow_eq,
    Nat.mul_comm, ← Nat.cast_le (α := ℚ)]
  push_cast
  rfl

/-- A number that has reached a power of ten has reached the smaller ones. -/
lemma scaledDen_le_mono {e f : Int} (hef : f ≤ e) (h : x.scaledDen e ≤ x.scaledNum e) :
    x.scaledDen f ≤ x.scaledNum f := by
  rw [scaledDen_le_iff] at h ⊢
  exact (zpow_le_zpow_right₀ (by decide) hef).trans h

/-- Powers are compared through a common power of both. -/
lemma pow_le_pow_of_ratio {a b p q m n : Nat} (ha : 0 < a) (hq : q ≠ 0) (h : a ^ p ≤ b ^ q)
    (hmn : m * q ≤ p * n) : a ^ m ≤ b ^ n := by
  refine (Nat.pow_le_pow_iff_left hq).mp ?_
  calc (a ^ m) ^ q
      = a ^ (m * q) := (Nat.pow_mul ..).symm
    _ ≤ a ^ (p * n) := Nat.pow_le_pow_right ha hmn
    _ = (a ^ p) ^ n := Nat.pow_mul ..
    _ ≤ (b ^ q) ^ n := Nat.pow_le_pow_left h n
    _ = (b ^ n) ^ q := by rw [← Nat.pow_mul, ← Nat.pow_mul, Nat.mul_comm]

/-- The decimal logarithm of two lies between the factor of the estimate and one that is less by a
hundred-thousandth, so that the size of a power of two is estimated at most one too high. -/
lemma estimate_le {l : Int} (h : l ≤ 100000) :
    (10 : ℚ) ^ (l * 30103 / 100000 - 1) ≤ (2 : ℚ) ^ l := by
  rcases Int.le_total 0 l with hl | hl
  · obtain ⟨k, rfl⟩ := Int.eq_ofNat_of_zero_le hl
    obtain ⟨m, hm⟩ : ∃ m : Nat, ((k : Int) * 30103 / 100000 - 1).toNat = m := ⟨_, rfl⟩
    have hpow : 10 ^ m ≤ 2 ^ k :=
      pow_le_pow_of_ratio (p := 30102) (q := 100000) (by decide) (by decide) (by decide +kernel)
        (by omega)
    calc (10 : ℚ) ^ ((k : Int) * 30103 / 100000 - 1)
        ≤ 10 ^ (m : Int) := zpow_le_zpow_right₀ (by decide) (by omega)
      _ ≤ 2 ^ (k : Int) := by
        rw [zpow_natCast, zpow_natCast]
        exact_mod_cast hpow
  · obtain ⟨k, hk⟩ := Int.eq_ofNat_of_zero_le (show 0 ≤ -l by omega)
    obtain rfl : l = -(k : Int) := by omega
    obtain ⟨m, hm⟩ := Int.eq_ofNat_of_zero_le (show 0 ≤ -(-(k : Int) * 30103 / 100000 - 1) by omega)
    have hpow : 2 ^ k ≤ 10 ^ m :=
      pow_le_pow_of_ratio (p := 100000) (q := 30103) (by decide) (by decide) (by decide +kernel)
        (by omega)
    calc (10 : ℚ) ^ (-(k : Int) * 30103 / 100000 - 1)
        = ((10 : ℚ) ^ m)⁻¹ := by rw [← zpow_natCast, ← zpow_neg, ← hm, Int.neg_neg]
      _ ≤ ((2 : ℚ) ^ k)⁻¹ := inv_anti₀ (by positivity) (by exact_mod_cast hpow)
      _ = 2 ^ (-(k : Int)) := by rw [zpow_neg, zpow_natCast]

/-- The number reaches the power of ten below its size, if it is not too large. -/
lemma scaledDen_le_decimalSize (h : x.units ≠ 0) (hhigh : x.units.log2 + x.exponent ≤ 100000) :
    x.scaledDen (x.decimalSize - 1) ≤ x.scaledNum (x.decimalSize - 1) := by
  have hreached : ∀ e, x.compareScaled 1 e ≠ .lt → x.scaledDen e ≤ x.scaledNum e := by
    intro e he
    rw [compareScaled, Nat.one_mul, Ne, Nat.compare_eq_lt] at he
    exact Nat.le_of_not_lt he
  unfold decimalSize
  dsimp only
  split
  · have hunits : (2 : ℚ) ^ (x.units.log2 : Int) ≤ x.units := by
      rw [zpow_natCast]
      exact_mod_cast Nat.log2_self_le h
    rw [scaledDen_le_iff]
    calc (10 : ℚ) ^ ((x.units.log2 + x.exponent) * 30103 / 100000 - 1)
        ≤ 2 ^ (x.units.log2 + x.exponent) := estimate_le hhigh
      _ = 2 ^ (x.units.log2 : Int) * 2 ^ x.exponent := zpow_add₀ (by decide) _ _
      _ ≤ x.number := mul_le_mul_of_nonneg_right hunits (by positivity)
  · rename_i hfirst
    split
    · rw [Int.add_sub_cancel]
      exact hreached _ hfirst
    · rename_i hsecond
      rw [show ∀ e : Int, e + 2 - 1 = e + 1 by omega]
      exact hreached _ hsecond

/-- A number that is something is not rounded to nothing. -/
lemma significant_isNormal (hhigh : x.units.log2 + x.exponent ≤ 100000) {count : Nat}
    (hcount : 0 < count) : (x.significant count).IsNormal := by
  unfold significant
  split
  · exact Scientific.zero_isNormal
  · rename_i h
    have hreached : x.scaledDen (x.decimalSize - count) ≤ x.scaledNum (x.decimalSize - count) :=
      scaledDen_le_mono (by omega) (scaledDen_le_decimalSize h hhigh)
    have hden : 0 < x.scaledDen (x.decimalSize - count) :=
      Nat.mul_pos (Nat.pow_pos (by decide)) (Nat.pow_pos (by decide))
    have hquotient := Nat.div_pos hreached hden
    refine Scientific.ofNat_isNormal (Nat.pos_iff_ne_zero.mp ?_) _
    exact Nat.lt_of_lt_of_le hquotient (le_roundDiv _ _ _)

end Binary

/-- The numbers of the format are not too large for the estimate of their size. -/
lemma log2_add_exponent_le {x : Float} {b : Binary} (h : magnitude x = .finite b) :
    b.units.log2 + b.exponent ≤ 100000 := by
  have hlog : ∀ n < 2 ^ 53, n.log2 < 53 := by
    intro n hn
    rcases Nat.eq_zero_or_pos n with rfl | hpos
    · decide
    · exact (Nat.log2_lt (Nat.pos_iff_ne_zero.mp hpos)).mpr hn
  have hleast : Layout.double.leastExponent = -1074 := by decide
  have hfraction := Nat.mod_lt x.toBits.toNat (show 0 < 2 ^ 52 by decide)
  have hexponent := Nat.mod_lt (x.toBits.toNat / 2 ^ 52) (show 0 < 2 ^ 11 by decide)
  have hbits : Layout.double.fractionBits = 52 ∧ Layout.double.exponentBits = 11 := ⟨rfl, rfl⟩
  simp only [magnitude, Layout.read, hleast, hbits, Nat.pow_eq] at h
  split_ifs at h
  · cases h
    have hunits := hlog (x.toBits.toNat % 2 ^ 52) (by omega)
    dsimp only
    omega
  · cases h
    have hunits := hlog (2 ^ 52 + x.toBits.toNat % 2 ^ 52) (by omega)
    dsimp only
    omega

/-- The decimal that a text starts from is normal, for every finite number. -/
theorem generalDigits_isNormal {x : Float} {b : Binary} (h : magnitude x = .finite b)
    (precision : Option Nat) : (b.generalDigits precision).IsNormal := by
  cases precision with
  | none => exact b.shortest_isNormal
  | some p => exact Binary.significant_isNormal (log2_add_exponent_le h) (by omega)

end SafeQuery.Decimal
