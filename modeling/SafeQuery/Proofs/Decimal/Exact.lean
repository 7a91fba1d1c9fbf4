import Mathlib.Tactic.Ring
import SafeQuery.Proofs.Decimal.Normal

/-!
# Enough digits

A number of sixty-four bits has finitely many digits. Where more digits are asked for than it has, it
is not rounded: `Binary.significant_eq_exact`.
-/

namespace SafeQuery.Decimal

/-- Zeros behind a number are zeros behind its digits. -/
lemma toDigits_mul_pow {n : Nat} (h : n ≠ 0) (k : Nat) :
    Nat.toDigits 10 (n * 10 ^ k) = Nat.toDigits 10 n ++ List.replicate k '0' := by
  induction k with
  | zero => simp
  | succ k ih =>
    have hpos : 0 < n * 10 ^ k := Nat.mul_pos (Nat.pos_of_ne_zero h) (Nat.pow_pos (by decide))
    calc Nat.toDigits 10 (n * 10 ^ (k + 1))
        = Nat.toDigits 10 (10 * (n * 10 ^ k) + 0) := by
          congr 1
          ring
      _ = Nat.toDigits 10 (n * 10 ^ k) ++ Nat.toDigits 10 0 :=
          (Nat.toDigits_append_toDigits (by decide) hpos (by decide)).symm
      _ = Nat.toDigits 10 n ++ (List.replicate k '0' ++ ['0']) := by
          rw [ih, List.append_assoc]
          rfl
      _ = Nat.toDigits 10 n ++ List.replicate (k + 1) '0' := by rw [← List.replicate_succ']

lemma dropTrailingZeros_append_zeros {ds : List Char} (h : ds ≠ []) (k : Nat) :
    dropTrailingZeros (ds ++ List.replicate k '0') = dropTrailingZeros ds := by
  cases ds with
  | nil => exact absurd rfl h
  | cons d ds =>
    have hzeros : ∀ c ∈ (List.replicate k '0').reverse, decide (c = '0') = true := by
      intro c hc
      rw [List.reverse_replicate] at hc
      exact decide_eq_true (List.eq_of_mem_replicate hc)
    rw [List.cons_append, dropTrailingZeros, dropTrailingZeros, List.reverse_append,
      List.dropWhile_append_of_pos hzeros]

/-- Small units with zeros behind their number are large units. -/
lemma Scientific.ofNat_mul_pow {n : Nat} (h : n ≠ 0) (k : Nat) (e : Int) :
    Scientific.ofNat (n * 10 ^ k) e = Scientific.ofNat n (e + k) := by
  have hlength := List.length_pos_iff.mpr (Nat.toDigits_ne_nil (n := n) (b := 10))
  rw [ofNat, ofNat, toDigits_mul_pow h, dropTrailingZeros_append_zeros Nat.toDigits_ne_nil]
  refine (Scientific.mk.injEq ..).mpr ⟨rfl, ?_⟩
  rw [List.length_append, List.length_replicate]
  omega

lemma roundDiv_mul_right {den : Nat} (h : 0 < den) (n : Nat) (tie : Tie) :
    roundDiv (n * den) den tie = n := by
  have hnone : compare (2 * (n * den % den)) den = .lt := by
    rw [Nat.mul_mod_left, Nat.compare_eq_lt]
    exact h
  unfold roundDiv
  dsimp only
  rw [hnone]
  exact Nat.mul_div_cancel _ h

namespace Binary

variable {x : Binary}

/-- The whole number that the number is in its smallest decimal units. -/
def exactUnits (x : Binary) : Nat := x.units * 2 ^ x.exponent.toNat * 5 ^ (-x.exponent).toNat

lemma exactUnits_ne_zero (h : x.units ≠ 0) : x.exactUnits ≠ 0 :=
  Nat.mul_ne_zero (Nat.mul_ne_zero h (Nat.pow_pos (by decide)).ne') (Nat.pow_pos (by decide)).ne'

lemma exact_eq (x : Binary) : x.exact = .ofNat x.exactUnits (min 0 x.exponent) := by
  unfold exact exactUnits
  split
  · rename_i hwhole
    rw [Int.toNat_of_nonpos (show -x.exponent ≤ 0 by omega), Int.min_eq_left hwhole, Nat.pow_zero,
      Nat.mul_one]
    rfl
  · rename_i hparts
    rw [Int.toNat_of_nonpos (show x.exponent ≤ 0 by omega), Int.min_eq_right (by omega),
      Nat.pow_zero, Nat.mul_one]
    rfl

/-- The number lies on every grid of units that are small enough. -/
lemma roundedTo_eq {k : Nat} (hfine : -(k : Int) ≤ x.exponent) (tie : Tie) :
    x.roundedTo (-k) tie = x.exactUnits * 10 ^ (k - (-x.exponent).toNat) := by
  obtain ⟨i, hi⟩ : ∃ i, k = (-x.exponent).toNat + i := Nat.exists_eq_add_of_le (by omega)
  have hnum : x.scaledNum (-k)
      = x.exactUnits * 10 ^ (k - (-x.exponent).toNat) * x.scaledDen (-k) := by
    rw [scaledNum, scaledDen, exactUnits, Int.neg_neg, Int.toNat_natCast, Int.toNat_neg_natCast,
      Nat.pow_eq, Nat.pow_eq, Nat.pow_eq, Nat.pow_eq, hi, Nat.add_sub_cancel_left, Nat.pow_add,
      show 10 = 5 * 2 by rfl, Nat.mul_pow 5 2 (-x.exponent).toNat]
    ring
  rw [roundedTo, hnum]
  exact roundDiv_mul_right (Nat.mul_pos (Nat.pow_pos (by decide)) (Nat.pow_pos (by decide))) _ _

/-- With enough digits the number is not rounded, and still more of them change nothing. -/
theorem significant_eq_exact (h : x.units ≠ 0) {count : Nat}
    (hfine : x.decimalSize - count ≤ min 0 x.exponent) : x.significant count = x.exact := by
  obtain ⟨k, hk⟩ := Int.eq_ofNat_of_zero_le (show 0 ≤ -(x.decimalSize - count) by omega)
  have hgrid : x.decimalSize - count = -(k : Int) := by omega
  calc x.significant count
      = .ofNat (x.roundedTo (-k) .toEven) (-k) := by
        rw [← hgrid]
        exact if_neg h
    _ = .ofNat x.exactUnits (-k + (k - (-x.exponent).toNat : Nat)) := by
        rw [roundedTo_eq (by omega), Scientific.ofNat_mul_pow (exactUnits_ne_zero h)]
    _ = x.exact := by
        rw [exact_eq]
        congr 1
        omega

end Binary

end SafeQuery.Decimal
