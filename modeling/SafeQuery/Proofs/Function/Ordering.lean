import Mathlib
import SafeQuery.Function.Comparison

/-!
# The order of values

Values that are ordered are ordered the other way round if they change places: `Value.order_swap`.
Values that are comparable have an order unless one of them is a floating-point number that is no
number, as `orderFloats_eq_none_iff` says; a whole number is never taken for one of these.
-/

namespace SafeQuery

open Float.Model

/-- Numbers are compared by exponent first and by significand then, in both directions alike. -/
lemma compare_finite_swap {e e' : Int} {m m' : Nat} :
    (compare e' e).then (compare m' m) = ((compare e e').then (compare m m')).swap := by
  rw [Ordering.swap_then, ← Std.OrientedOrd.eq_swap, ← Std.OrientedOrd.eq_swap]

/-- Floating-point numbers in their parts are ordered alike from both sides. -/
lemma unpacked_compare_swap (x y : UnpackedFloat) :
    y.compare x = (x.compare y).map Ordering.swap := by
  cases x with
  | notANumber => cases y <;> rfl
  | infinity s =>
    cases y with
    | notANumber => rfl
    | infinity s' => cases s <;> cases s' <;> rfl
    | zero s' => cases s <;> rfl
    | finite s' m' e' hm' => cases s <;> rfl
  | zero s =>
    cases y with
    | notANumber => rfl
    | infinity s' => cases s' <;> rfl
    | zero s' => rfl
    | finite s' m' e' hm' => cases s' <;> rfl
  | finite s m e hm =>
    cases y with
    | notANumber => rfl
    | infinity s' => cases s' <;> rfl
    | zero s' => cases s <;> rfl
    | finite s' m' e' hm' =>
      cases s with
      | positive =>
        cases s' with
        | positive => exact congrArg some compare_finite_swap
        | negative => rfl
      | negative =>
        cases s' with
        | positive => rfl
        | negative => exact congrArg (some ·.swap) compare_finite_swap

lemma unpacked_compare_eq_none_iff (x y : UnpackedFloat) :
    x.compare y = none ↔ x.isNaN = true ∨ y.isNaN = true := by
  fun_cases UnpackedFloat.compare x y
  all_goals simp [UnpackedFloat.isNaN]

section Packing

open UnpackedFloat (packComponents unpackExponent unpackMantissa)

/-- What is no number has all bits of the exponent set, and one of the mantissa. -/
lemma isNaN_unpack_iff (b : BitVec Format.binary64.numBits) :
    (UnpackedFloat.unpack .binary64 b).isNaN = true ↔
      unpackExponent b = -1#_ ∧ unpackMantissa b ≠ 0#_ := by
  rw [UnpackedFloat.unpack]
  dsimp only
  split_ifs with hexponent hmantissa hsubnormal hzero
  all_goals simp_all [UnpackedFloat.isNaN]

/-- What is packed is no number if all bits of the exponent are set and some of the significand. -/
lemma isNaN_packComponents_iff (s : UnpackedFloat.Sign) (e : BitVec Format.binary64.exponentBits)
    (m : BitVec Format.binary64.mantissaBitsWithoutImplicit) :
    (UnpackedFloat.unpack .binary64 (packComponents .binary64 s e m)).isNaN = true ↔
      e = -1#_ ∧ m ≠ 0#_ := by
  rw [isNaN_unpack_iff, UnpackedFloat.unpackExponent_packComponents,
    UnpackedFloat.unpackMantissa_packComponents]

/-- What is packed is a number if it has been one before. -/
lemma isNaN_pack (x : UnpackedFloat) : (pack x).isNaN = x.isNaN := by
  change (UnpackedFloat.unpack .binary64 (UnpackedFloat.pack .binary64 x)).isNaN = x.isNaN
  have hnumber : ∀ (s : UnpackedFloat.Sign) e m, (e ≠ -1#_ ∨ m = 0#_) →
      (UnpackedFloat.unpack .binary64 (packComponents .binary64 s e m)).isNaN = false := by
    intro s e m h
    rw [Bool.eq_false_iff, ne_eq, isNaN_packComponents_iff]
    tauto
  cases x with
  | notANumber => decide
  | infinity s => exact hnumber s _ _ (.inr rfl)
  | zero s => exact hnumber s _ _ (.inl (by decide))
  | finite s m e hm =>
    rw [UnpackedFloat.pack]
    dsimp only
    split_ifs with hlarge hnormal
    · exact hnumber s _ _ (.inr rfl)
    · apply hnumber s
      left
      -- the exponent is smaller than the one of infinity
      intro hones
      have hexponent := congrArg BitVec.toNat hones
      have hlast : (-BitVec.ofNat Format.binary64.exponentBits 1).toNat = 2 ^ 11 - 1 := by decide
      rw [BitVec.toNat_ofNat, hlast] at hexponent
      omega
    · exact hnumber s _ _ (.inl (by decide))

end Packing

/-- The order of numbers is the one of their parts. -/
lemma orderFloats_eq (x y : Float) :
    orderFloats x y = x.toModel.unpack.compare y.toModel.unpack := by
  have hless : ∀ x y : Float, x < y ↔ x.toModel.unpack.compare y.toModel.unpack = some .lt := by
    intro x y
    change decide ((x.toModel.unpack.compare y.toModel.unpack == some .lt) = true) = true ↔ _
    rw [decide_eq_true_iff, beq_iff_eq]
  have hequal : (x == y) = true ↔ x.toModel.unpack.compare y.toModel.unpack = some .eq := by
    change (x.toModel.unpack.compare y.toModel.unpack == some .eq) = true ↔ _
    rw [beq_iff_eq]
  have hgreater : y < x ↔ x.toModel.unpack.compare y.toModel.unpack = some .gt := by
    rw [hless, unpacked_compare_swap x.toModel.unpack]
    rcases x.toModel.unpack.compare y.toModel.unpack with _ | o
    · simp
    · cases o <;> simp
  simp only [orderFloats, hless x y, hequal, hgreater]
  rcases x.toModel.unpack.compare y.toModel.unpack with _ | o
  · rfl
  · cases o <;> rfl

/-- Numbers are ordered alike from both sides. -/
lemma orderFloats_swap (x y : Float) : orderFloats y x = (orderFloats x y).map Ordering.swap := by
  rw [orderFloats_eq, orderFloats_eq]
  exact unpacked_compare_swap _ _

/-- Two numbers have an order, unless one of them is no number. -/
theorem orderFloats_eq_none_iff (x y : Float) :
    orderFloats x y = none ↔ x.isNaN = true ∨ y.isNaN = true := by
  rw [orderFloats_eq]
  exact unpacked_compare_eq_none_iff _ _

lemma isNaN_neg (x : Float) : (-x).isNaN = x.isNaN := by
  have hneg : ∀ u : UnpackedFloat, u.neg.isNaN = u.isNaN := by
    intro u
    cases u <;> rfl
  exact (isNaN_pack _).trans (hneg _)

/-- What is rounded is a number. -/
lemma isNaN_round (s : UnpackedFloat.Sign) (m : Nat) (e : Int) :
    (UnpackedFloat.round .binary64 s m e).isNaN = false := by
  rw [UnpackedFloat.round]
  dsimp only
  rw [UnpackedFloat.roundWithAccuracy]
  dsimp only
  split
  · rfl
  · rfl

lemma isNaN_toFloat (n : UInt64) : n.toFloat.isNaN = false := by
  refine (isNaN_pack _).trans ?_
  rw [UnpackedFloat.ofUInt64, UnpackedFloat.ofNat, UnpackedFloat.ofInt, UnpackedFloat.normalize]
  split
  · exact isNaN_round _ _ _
  · rfl
  · exact isNaN_round _ _ _

/-- A whole number is a number. -/
lemma isNaN_floatOfInt (n : Int64) : (floatOfInt n).isNaN = false := by
  rw [floatOfInt]
  split
  · rw [isNaN_neg, isNaN_toFloat]
  · exact isNaN_toFloat _

namespace Value

/-- If values change places, their order is the other way round. -/
theorem order_swap (v w : Value) : w.order v = (v.order w).map (Option.map Ordering.swap) := by
  cases v with
  | int m =>
    cases w with
    | int n => exact congrArg (Except.ok ∘ some) Std.OrientedOrd.eq_swap
    | float y => exact congrArg Except.ok (orderFloats_swap _ _)
    | _ => rfl
  | float x =>
    cases w with
    | int n => exact congrArg Except.ok (orderFloats_swap _ _)
    | float y => exact congrArg Except.ok (orderFloats_swap _ _)
    | _ => rfl
  | string s =>
    cases w with
    | string t => exact congrArg (Except.ok ∘ some) (Std.OrientedOrd.eq_swap (a := t) (b := s))
    | _ => rfl
  | bool a =>
    cases w with
    | bool b => exact congrArg (Except.ok ∘ some) Std.OrientedOrd.eq_swap
    | _ => rfl
  | time s =>
    cases w with
    | time t => exact congrArg (Except.ok ∘ some) compare_finite_swap
    | _ => rfl
  | _ => cases w <;> rfl

/-- Comparable values have an order, unless one of them is no number. -/
lemma exists_isNaN_of_order {v w : Value} (h : v.order w = .ok none) :
    ∃ x : Float, (v = .float x ∨ w = .float x) ∧ x.isNaN = true := by
  cases v with
  | int m =>
    cases w with
    | float y =>
      rcases (orderFloats_eq_none_iff _ _).mp (Except.ok.inj h) with hm | hy
      · rw [isNaN_floatOfInt] at hm
        cases hm
      · exact ⟨y, .inr rfl, hy⟩
    | _ => cases h
  | float x =>
    cases w with
    | int n =>
      rcases (orderFloats_eq_none_iff _ _).mp (Except.ok.inj h) with hx | hn
      · exact ⟨x, .inl rfl, hx⟩
      · rw [isNaN_floatOfInt] at hn
        cases hn
    | float y =>
      rcases (orderFloats_eq_none_iff _ _).mp (Except.ok.inj h) with hx | hy
      · exact ⟨x, .inl rfl, hx⟩
      · exact ⟨y, .inr rfl, hy⟩
    | _ => cases h
  | _ => cases w <;> cases h

end Value

end SafeQuery
