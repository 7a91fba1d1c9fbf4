import Mathlib.Algebra.Group.Nat.Defs
import Mathlib.Data.List.DropRight
import Mathlib.Tactic.Common
import SafeQuery.Proofs.Literal.Form
import SafeQuery.Decimal.Reading

/-!
# Values of digits

The number that digits write, for digits one behind the other, for the digits of a number, and for
digits without the zeros at their end.
-/

namespace SafeQuery.Decimal

/-- The standard reading of digits. -/
lemma value_eq (ds : List Char) : value ds = Nat.ofDigitChars 10 ds 0 := by
  simp only [value, valueFrom, Nat.ofDigitChars_eq_foldl, digitValue, Nat.mul_comm 10]

/-- Digits in front of others count as many places more as there are others. -/
lemma value_append (ds es : List Char) : value (ds ++ es) = value ds * 10 ^ es.length + value es := by
  rw [value_eq, value_eq, value_eq, Nat.ofDigitChars_append, Nat.ofDigitChars_eq_ofDigitChars_zero,
    Nat.mul_comm]

@[simp] lemma value_zeros (n : Nat) : value (List.replicate n '0') = 0 := by
  rw [value_eq, Nat.ofDigitChars_replicate_zero, Nat.mul_zero]

/-- Zeros in front do not count. -/
@[simp] lemma value_zeros_append (n : Nat) (ds : List Char) :
    value (List.replicate n '0' ++ ds) = value ds := by
  rw [value_append, value_zeros, Nat.zero_mul, Nat.zero_add]

/-- The digits of a number write it. -/
@[simp] lemma value_toDigits (n : Nat) : value (Nat.toDigits 10 n) = n := by
  rw [value_eq, Nat.ofDigitChars_ten_toDigits]

lemma value_cons (d : Char) (ds : List Char) :
    value (d :: ds) = digitValue d * 10 ^ ds.length + value ds := by
  have hone : value [d] = digitValue d := Nat.zero_add _
  rw [← List.singleton_append, value_append, hone]

/-- Digits have no sign in front. -/
lemma splitSign_digits {ds : List Char} (h : IsDigits ds) (rest : List Char) :
    splitSign (ds ++ rest) = (false, ds ++ rest) := by
  cases ds with
  | nil => exact absurd rfl h.ne_nil
  | cons d ds =>
    have hdigit := h.all d List.mem_cons_self
    rw [List.cons_append]
    unfold splitSign
    split
    · rename_i heq
      cases heq
      exact absurd hdigit (by decide)
    · rename_i heq
      cases heq
      exact absurd hdigit (by decide)
    · rfl

lemma digitValue_le {d : Char} (h : d.isDigit = true) : digitValue d ≤ 9 := by
  have hhigh := (Char.isDigit_iff_toNat.mp h).2
  exact Nat.sub_le_sub_right hhigh _

lemma digitValue_pos {d : Char} (h : d.isDigit = true) (hzero : d ≠ '0') : 1 ≤ digitValue d := by
  have hlow := (Char.isDigit_iff_toNat.mp h).1
  have hne : '0'.toNat ≠ d.toNat := fun heq => hzero (Char.toNat_inj.mp heq).symm
  exact Nat.sub_pos_of_lt (Nat.lt_of_le_of_ne hlow hne)

/-- Digits write a number below the power of ten that has one digit more. -/
lemma value_lt {ds : List Char} (h : ∀ d ∈ ds, d.isDigit = true) : value ds < 10 ^ ds.length := by
  induction ds with
  | nil => exact Nat.one_pos
  | cons d ds ih =>
    have hrest := ih fun e he => h e (List.mem_cons_of_mem _ he)
    have hdigit := digitValue_le (h d List.mem_cons_self)
    calc value (d :: ds)
        = digitValue d * 10 ^ ds.length + value ds := value_cons d ds
      _ < 9 * 10 ^ ds.length + 10 ^ ds.length :=
          Nat.add_lt_add_of_le_of_lt (Nat.mul_le_mul_right _ hdigit) hrest
      _ = 10 ^ (d :: ds).length := by rw [List.length_cons, Nat.pow_succ]; omega

/-- Digits that do not begin with a zero write a number that needs all of them. -/
lemma le_value {d : Char} {ds : List Char} (h : d.isDigit = true) (hzero : d ≠ '0') :
    10 ^ ds.length ≤ value (d :: ds) := by
  calc 10 ^ ds.length
      = 1 * 10 ^ ds.length := (Nat.one_mul _).symm
    _ ≤ digitValue d * 10 ^ ds.length := Nat.mul_le_mul_right _ (digitValue_pos h hzero)
    _ ≤ value (d :: ds) := by rw [value_cons]; exact Nat.le_add_right _ _

/-- The digits of a number do not begin with a zero, unless it is zero. -/
lemma head?_toDigits {n : Nat} (h : n ≠ 0) : (Nat.toDigits 10 n).head? ≠ some '0' := by
  induction n using Nat.strongRecOn with
  | _ n ih =>
    rcases Nat.lt_or_ge n 10 with hlt | hge
    · have htable : ∀ n < 10, n ≠ 0 → Nat.digitChar n ≠ '0' := by decide
      rw [Nat.toDigits_of_lt_base hlt, List.head?_cons]
      exact fun heq => htable n hlt h (Option.some.inj heq)
    · rw [Nat.toDigits_of_base_le (by decide) hge, List.head?_append_of_ne_nil _ Nat.toDigits_ne_nil]
      exact ih (n / 10) (by omega) (by omega)

end SafeQuery.Decimal
