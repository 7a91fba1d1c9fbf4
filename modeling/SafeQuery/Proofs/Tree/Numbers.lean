import Mathlib.Algebra.Group.Nat.Defs
import SafeQuery.Proofs.Token.Lexical
import SafeQuery.Tree.Pipeline

/-!
# Legal numerals

A numeral that has been scanned has a value in two cases, `Number.ofText_hasValue`: in base ten it
is always read as a floating-point number, and in base sixteen it is read if it fits into a whole
number of sixty-four bits.
-/

namespace SafeQuery

/-- The number that digits write in base sixteen. -/
def hexNumeral (ds : List Char) : Nat :=
  ds.foldl (fun n c => n * 16 + (Text.hexValue? c).getD 0) 0

/-- The digits of a numeral in base sixteen, behind its sign and its mark. -/
def hexDigits? (text : String) : Option (List Char) :=
  match (Decimal.splitSign text.toList).2 with
  | '0' :: 'x' :: ds | '0' :: 'X' :: ds => some ds
  | _                                   => none

/-- The numeral has a value: in base sixteen it may not be too large, whatever its sign is. -/
def IsLegal (text : String) : Prop := ∀ ds ∈ hexDigits? text, hexNumeral ds < 2 ^ 63

/-- A numeral in base sixteen has a value if its absolute value fits behind the sign. -/
lemma readHexadecimal_isSome (negative : Bool) (ds : List Char) :
    (readHexadecimal? negative ds).isSome = true ↔ hexNumeral ds < 2 ^ 63 := by
  have hmax : Int64.maxValue.toInt = 2 ^ 63 - 1 := by decide
  have hiff : (hexNumeral ds : Int) ≤ Int64.maxValue.toInt ↔ hexNumeral ds < 2 ^ 63 := by
    rw [hmax]
    omega
  rw [← hiff]
  by_cases h : (hexNumeral ds : Int) ≤ Int64.maxValue.toInt
  · exact iff_of_true (by rw [readHexadecimal?]; exact (if_pos h).symm ▸ rfl) h
  · exact iff_of_false (by rw [readHexadecimal?]; exact (if_neg h).symm ▸ Bool.false_ne_true) h

/-- The two readers of signs leave the same digits. -/
lemma splitSign_snd (s : List Char) : (Decimal.splitSign s).2 = (takeSign s).2 := by
  rcases takeSign_cases s with ⟨havoids, h⟩ | ⟨c, cs, hc, rfl, h⟩
  · rw [h]
    unfold Decimal.splitSign
    split
    · cases havoids '-' rfl
    · cases havoids '+' rfl
    · rfl
  · rw [h]
    simp only [isSign, Bool.or_eq_true, decide_eq_true_eq] at hc
    rcases hc with rfl | rfl <;> rfl

/-- What is taken as an exponent up to the end of a numeral can be read. -/
lemma readExponent_of_takeExponent {s : List Char} (h : (takeExponent s).2 = []) :
    (Decimal.readExponent? s).isSome = true := by
  cases s with
  | nil => rfl
  | cons e cs =>
    simp only [takeExponent] at h
    split_ifs at h with hexponent
    simp only [Bool.and_eq_true, Bool.not_eq_true', List.isEmpty_eq_false_iff] at hexponent
    obtain ⟨hmark, hdigits⟩ := hexponent
    have hall : (takeDigits (takeSign cs).2).1 = (takeSign cs).2 := by
      have happend := takeDigits_append (takeSign cs).2
      rwa [h, List.append_nil] at happend
    have hdigit : ∀ d ∈ (takeSign cs).2, Decimal.isDigit d = true := by
      intro d hd
      rw [← hall] at hd
      exact List.mem_takeWhile_imp hd
    rw [hall] at hdigits
    have hread : (!(takeSign cs).2.all Decimal.isDigit) = false := by simpa using hdigit
    have hsome : ((takeSign cs).2.isEmpty || !(takeSign cs).2.all Decimal.isDigit) = false := by
      rw [hread, Bool.or_false, List.isEmpty_eq_false_iff]
      exact hdigits
    rw [Decimal.readExponent?, if_pos hmark]
    simp only [splitSign_snd, hsome, Bool.false_eq_true, if_false, Option.isSome_some]

lemma length_cons_lt_two {fraction : List Char} :
    decide (('.' :: fraction).length < 2) = fraction.isEmpty := by
  cases fraction <;> simp

/-- A numeral in base ten is read as a whole. -/
lemma read_of_scanDecimal {cs magnitude : List Char}
    (hsign : (Decimal.splitSign cs).2 = magnitude)
    (h : scanDecimal? magnitude = some (magnitude, [])) :
    (Decimal.Numeral.read? cs).isSome = true := by
  simp only [scanDecimal?] at h
  split_ifs at h with hnone
  have hrest := congrArg Prod.snd (Option.some.inj h)
  have hexponent := readExponent_of_takeExponent hrest
  simp only [Decimal.Numeral.read?, hsign]
  split
  · rename_i cs hdot
    have hfraction : takeFraction (takeDigits magnitude).2 =
        ('.' :: (takeDigits cs).1, (takeDigits cs).2) :=
      congrArg takeFraction hdot
    rw [hfraction] at hnone hexponent
    rw [length_cons_lt_two] at hnone
    dsimp only [takeDigits] at hnone ⊢
    rw [if_neg hnone, Option.isSome_map]
    exact hexponent
  · rename_i hdot
    have hfraction : takeFraction (takeDigits magnitude).2 = ([], (takeDigits magnitude).2) := by
      unfold takeFraction
      split
      · exact absurd ‹_› (hdot _)
      · rfl
    rw [hfraction] at hnone hexponent
    have hdigits : ¬ ((magnitude.takeWhile Decimal.isDigit).isEmpty && ([] : List Char).isEmpty) =
        true := hnone
    rw [if_neg hdigits, Option.isSome_map]
    exact hexponent

/-- Behind its sign a numeral is written in base sixteen or in base ten. -/
lemma scanNumber_cases {s text rest : List Char} (h : scanNumber? s = some (text, rest)) :
    (∃ x ds, isHexMark x = true ∧ (Decimal.splitSign text).2 = '0' :: x :: ds) ∨
      scanDecimal? (Decimal.splitSign text).2 = some ((Decimal.splitSign text).2, []) := by
  have hagain := scanNumber_again h (show runsOn [] = false from rfl)
  rw [List.append_nil] at hagain
  rw [splitSign_snd]
  simp only [scanNumber?] at hagain
  split at hagain
  · cases hagain
  · rename_i magnitude r hmagnitude
    split_ifs at hagain
    obtain ⟨-, rfl⟩ := Prod.mk.inj (Option.some.inj hagain)
    unfold scanMagnitude? at hmagnitude
    split at hmagnitude
    · rename_i hhex
      unfold scanHex? at hhex
      split at hhex
      · rename_i x cs heq
        split_ifs at hhex with hx
        rw [Bool.and_eq_true] at hx
        exact .inl ⟨x, cs, hx.1, heq⟩
      · cases hhex
    · have hwhole := scanDecimal_append hmagnitude
      rw [List.append_nil] at hwhole
      rw [hwhole] at hmagnitude
      exact .inr hmagnitude

lemma hexDigits_of_scanDecimal {text : String} {r : List Char}
    (h : scanDecimal? (Decimal.splitSign text.toList).2 =
      some ((Decimal.splitSign text.toList).2, r)) : hexDigits? text = none := by
  have hmark : ∀ c ∈ (Decimal.splitSign text.toList).2, isHexMark c = false :=
    fun c hc => not_isHexMark_of_mem_decimal h hc
  unfold hexDigits?
  split
  · rename_i heq
    cases hmark 'x' (by simp [heq])
  · rename_i heq
    cases hmark 'X' (by simp [heq])
  · rfl

/-- A numeral in base sixteen. -/
lemma hasValue_of_hexDigits {text : String} {negative : Bool} {ds : List Char}
    (h : hexDigits? text = some ds) :
    ((readHexadecimal? negative ds).isNone &&
        ((readHexadecimal? negative ds).map (·.toFloat)).isNone) = false ↔ IsLegal text := by
  have hlegal : IsLegal text ↔ hexNumeral ds < 2 ^ 63 := by simp [IsLegal, h]
  rw [hlegal, ← readHexadecimal_isSome negative ds]
  cases readHexadecimal? negative ds <;> simp

/-- A numeral that has been scanned has a value if it is legal. -/
theorem Number.ofText_hasValue (pos : Position) {text : String}
    (h : (TokenKind.number text).IsLexical) :
    ((ofText pos text).int.isNone && (ofText pos text).float.isNone) = false ↔ IsLegal text := by
  obtain ⟨s, rest, hscan⟩ := h
  have hcases := scanNumber_cases hscan
  unfold ofText
  dsimp only
  split
  · rename_i ds hds
    exact hasValue_of_hexDigits (by simp only [hexDigits?, hds])
  · rename_i ds hds
    exact hasValue_of_hexDigits (by simp only [hexDigits?, hds])
  · rename_i hx hX
    -- with another mark the numeral would be one in base ten
    rcases hcases with ⟨x, ds, hmark, hds⟩ | hdecimal
    · simp only [isHexMark, Bool.or_eq_true, decide_eq_true_eq] at hmark
      rcases hmark with rfl | rfl
      · exact absurd hds (hx ds)
      · exact absurd hds (hX ds)
    · have hlegal : IsLegal text := by simp [IsLegal, hexDigits_of_scanDecimal hdecimal]
      have hfloat : (Decimal.readFloat? text.toList).isNone = false := by
        rw [Decimal.readFloat?, Option.isNone_map, Option.isNone_eq_false_iff]
        exact read_of_scanDecimal rfl hdecimal
      refine iff_of_true ?_ hlegal
      split <;> simp only [hfloat, Bool.and_false]

end SafeQuery
