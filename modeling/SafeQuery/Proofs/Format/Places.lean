import SafeQuery.Function.Builtin
import SafeQuery.Proofs.Decimal.Digits
import SafeQuery.Proofs.Format.Arguments

/-!
# Places of numbers

A number is written with `maxPlaces` places at most, and a format that asks for more stops the
program. Formats for other values never do so, `tooPrecise_eq_false`. `printf_general` says what
becomes of numbers in the general layout: up to one digit more than there can be places, every
precision has its text, and no other precision has one.
-/

namespace SafeQuery

/-- Only numbers are written with places. -/
lemma places?_eq_none {v : Value} (h : ∀ x, v ≠ .float x) (precision : Option Nat) (verb : Char) :
    places? precision verb v = none := by
  unfold places?
  split
  · exact absurd rfl (h _)
  · exact absurd rfl (h _)
  · rfl

/-- A format without numbers never asks for too many places, whatever its directives are. -/
theorem tooPrecise_eq_false {vs : List Value} (h : ∀ v ∈ vs, ∀ x, v ≠ .float x)
    (ds : List Directive) : tooPrecise ds vs = false := by
  induction ds generalizing vs with
  | nil => rfl
  | cons d ds ih =>
    cases d with
    | text c => exact ih h
    | cut => exact ih h
    | fill precision verb =>
      cases vs with
      | nil => exact ih h
      | cons v vs =>
        have hnone := places?_eq_none (h v List.mem_cons_self) precision verb
        rw [tooPrecise, hnone, ih fun w hw => h w (List.mem_cons_of_mem _ hw)]
        rfl

/-- A precision is read back in front of its verb. -/
lemma directives_precision {p : Nat} (hp : p < UInt64.size) {verb : Char}
    (hverb : Decimal.isDigit verb = false) (hpercent : verb ≠ '%') :
    directives ('%' :: '.' :: (Nat.toDigits 10 p ++ [verb])) = [.fill (some p) verb] := by
  have hdigits : ∀ c ∈ Nat.toDigits 10 p, Decimal.isDigit c = true :=
    (Decimal.isDigits_toDigits p).all
  have hrest : Avoids Decimal.isDigit [verb] := .cons hverb
  have hread : readPrecision ('.' :: (Nat.toDigits 10 p ++ [verb])) = (some p, [verb]) := by
    rw [readPrecision, takeWhile_append hdigits hrest, dropWhile_append hdigits hrest,
      Decimal.value_toDigits, if_pos hp]
  rw [directives_verb hread, if_neg hpercent, directives_nil]

/-- A finite number is printed in the general layout with every precision that leaves no more than
`maxPlaces` digits behind the first one. With a larger one the program stops. -/
theorem printf_general {x : Float} (hx : Decimal.isFinite x = true) {p : Nat}
    (hp : p < UInt64.size) :
    Function.printf [.string ("%." ++ toString p ++ "g"), .float x] =
      if p ≤ maxPlaces + 1 then .ok (.string (Decimal.general (some p) x))
      else .error .tooPrecise := by
  have hformat : directives ("%." ++ toString p ++ "g").toList = [.fill (some p) 'g'] := by
    have hchars : ("%." ++ toString p ++ "g").toList
        = '%' :: '.' :: (Nat.toDigits 10 p ++ ['g']) := by simp [Nat.toString_eq_repr]
    rw [hchars, directives_precision hp (by decide) (by decide)]
  have hplaces : places? (some p) 'g' (.float x) = some (max p 1 - 1) := by
    rw [places?, if_pos hx]
    rfl
  have hshown : sprintf ("%." ++ toString p ++ "g") [.float x] = Decimal.general (some p) x := by
    rw [sprintf, hformat, follow_fill, follow_nil]
    simp [extraNote, showWith, showAs?]
  rw [Function.printf, hformat, hshown]
  by_cases hfits : p ≤ maxPlaces + 1
  · have hfew : ¬ maxPlaces < max p 1 - 1 := by omega
    rw [if_pos hfits, if_neg]
    simpa [tooPrecise, hplaces] using hfew
  · have hmany : maxPlaces < max p 1 - 1 := by omega
    rw [if_neg hfits, if_pos]
    simpa [tooPrecise, hplaces] using hmany

end SafeQuery
