import Mathlib.Tactic.Common
import SafeQuery.Literal

/-!
# The forms of literals

A literal is a word, a number with an optional sign, or a text between quotes in which every quote
is written twice. `ofResolved_isLiteral` says that the encoder of templates writes nothing else,
unless it is given a part of a query.
-/

namespace SafeQuery

namespace Decimal

structure IsDigits (ds : List Char) : Prop where
  ne_nil : ds ≠ []
  all : ∀ d ∈ ds, d.isDigit = true

/-- Digits, with a point between them or none. -/
inductive IsPlain : List Char → Prop where
  | whole {ds : List Char} : IsDigits ds → IsPlain ds
  | point {ds fs : List Char} : IsDigits ds → IsDigits fs → IsPlain (ds ++ '.' :: fs)

/-- A decimal without sign, with a signed exponent or none. -/
inductive IsNumeral : List Char → Prop where
  | plain {ds : List Char} : IsPlain ds → IsNumeral ds
  | exponent {ds es : List Char} {sign : Char} :
      IsPlain ds → sign = '+' ∨ sign = '-' → IsDigits es → IsNumeral (ds ++ 'e' :: sign :: es)

lemma IsDigits.append {ds es : List Char} (hd : IsDigits ds) (he : ∀ e ∈ es, e.isDigit = true) :
    IsDigits (ds ++ es) := by
  refine ⟨by simp [hd.ne_nil], ?_⟩
  intro d h
  rcases List.mem_append.mp h with h | h
  · exact hd.all d h
  · exact he d h

lemma isDigits_toDigits (n : Nat) : IsDigits (Nat.toDigits 10 n) :=
  ⟨Nat.toDigits_ne_nil, fun _ hd => Nat.isDigit_of_mem_toDigits (by decide) (by decide) hd⟩

lemma isDigits_zero : IsDigits ['0'] := by
  refine ⟨by simp, fun d hd => ?_⟩
  rw [List.mem_singleton.mp hd]
  rfl

lemma isDigit_of_mem_zeros {n : Nat} {c : Char} (h : c ∈ List.replicate n '0') :
    c.isDigit = true := by
  obtain rfl := List.eq_of_mem_replicate h
  decide

lemma IsDigits.take {ds : List Char} (h : IsDigits ds) (n : Nat) : IsDigits (ds.take (n + 1)) :=
  ⟨by simp [h.ne_nil], fun d hd => h.all d (List.mem_of_mem_take hd)⟩

/-- Digits behind zeros. -/
lemma IsDigits.zeros_append {ds : List Char} (h : IsDigits ds) (n : Nat) :
    IsDigits (List.replicate n '0' ++ ds) := by
  refine ⟨by simp [h.ne_nil], fun d hd => ?_⟩
  rcases List.mem_append.mp hd with hd | hd
  · exact isDigit_of_mem_zeros hd
  · exact h.all d hd

lemma IsDigits.dropTrailingZeros {ds : List Char} (h : IsDigits ds) :
    IsDigits (dropTrailingZeros ds) := by
  cases ds with
  | nil => exact absurd rfl h.ne_nil
  | cons d ds =>
    refine ⟨by simp [Decimal.dropTrailingZeros], ?_⟩
    intro c hc
    rcases List.mem_cons.mp hc with rfl | hc
    · exact h.all c List.mem_cons_self
    · have hmem := (List.dropWhile_suffix _).subset (List.mem_reverse.mp hc)
      exact h.all c (List.mem_cons_of_mem _ (List.mem_reverse.mp hmem))

lemma Scientific.ofNat_isDigits (n : Nat) (e : Int) : IsDigits (Scientific.ofNat n e).digits :=
  (isDigits_toDigits n).dropTrailingZeros

lemma Binary.firstGrid_isDigits {x : Binary} {size : Int} {n left : Nat} {s : Scientific}
    (h : x.firstGrid size n left = some s) : IsDigits s.digits := by
  induction left generalizing n with
  | zero => cases h
  | succ left ih =>
    rw [firstGrid] at h
    split at h
    · cases h
      exact Scientific.ofNat_isDigits _ _
    · exact ih h

lemma Binary.exact_isDigits (x : Binary) : IsDigits x.exact.digits := by
  unfold exact
  split
  · exact Scientific.ofNat_isDigits _ _
  · exact Scientific.ofNat_isDigits _ _

lemma Binary.shortest_isDigits (x : Binary) : IsDigits x.shortest.digits := by
  unfold shortest
  split
  · exact isDigits_zero
  · cases h : x.firstGrid x.decimalSize 1 17 with
    | none => exact x.exact_isDigits
    | some s => exact firstGrid_isDigits h

lemma exponentDigits_isDigits (n : Nat) : IsDigits (exponentDigits n) := by
  unfold exponentDigits
  dsimp only
  split
  · exact isDigits_zero.append (isDigits_toDigits n).all
  · exact isDigits_toDigits n

/-- Digits with the fraction that stands behind a point, if there is one. -/
lemma isPlain_fraction {ds fs : List Char} (hd : IsDigits ds) (hf : ∀ f ∈ fs, f.isDigit = true) :
    IsPlain (ds ++ if fs.isEmpty then [] else '.' :: fs) := by
  cases fs with
  | nil => simpa using IsPlain.whole hd
  | cons f fs => exact .point hd ⟨by simp, hf⟩

/-- A decimal with an exponent is a numeral. -/
lemma withExponent_isNumeral {s : Scientific} (h : IsDigits s.digits) :
    IsNumeral (withExponent s) := by
  have hplain := isPlain_fraction (h.take 0) fun f hf => h.all f (List.mem_of_mem_tail hf)
  have hsign : (if s.exponent < 0 then '-' else '+') = '+' ∨
      (if s.exponent < 0 then '-' else '+') = '-' := by
    split
    · exact Or.inr rfl
    · exact Or.inl rfl
  have := IsNumeral.exponent hplain hsign (exponentDigits_isDigits s.exponent.natAbs)
  simpa [withExponent] using this

/-- A decimal without exponent has digits and one point at most. -/
lemma positional_isPlain {s : Scientific} (h : IsDigits s.digits) : IsPlain (positional s) := by
  unfold positional
  split
  · exact .point isDigits_zero (h.zeros_append _)
  · exact isPlain_fraction ((h.take _).append fun _ he => isDigit_of_mem_zeros he)
      fun f hf => h.all f (List.mem_of_mem_drop hf)

/-- Finite numbers are written as numerals behind their sign. -/
theorem layOut_isNumeral (x : Binary) : IsNumeral (layOut none (x.generalDigits none)) := by
  have hdigits := x.shortest_isDigits
  unfold layOut
  split
  · exact withExponent_isNumeral hdigits
  · exact .plain (positional_isPlain hdigits)

end Decimal

/-! ### Literals -/

namespace Literal

/-- Every quote among the characters is written twice. -/
inductive IsDoubled (quote : Char) : List Char → Prop where
  | nil : IsDoubled quote []
  | other {c : Char} {cs : List Char} :
      c ≠ quote → IsDoubled quote cs → IsDoubled quote (c :: cs)
  | twice {cs : List Char} : IsDoubled quote cs → IsDoubled quote (quote :: quote :: cs)

/-- What a literal looks like. -/
inductive Form : List Char → Prop where
  | word {w : String} : w ∈ ["NULL", "TRUE", "FALSE"] → Form w.toList
  | number {sign ds : List Char} :
      sign = [] ∨ sign = ['-'] → Decimal.IsNumeral ds → Form (sign ++ ds)
  | text {cs : List Char} : IsDoubled '\'' cs → Form ('\'' :: cs ++ ['\''])
  | identifier {cs : List Char} : IsDoubled '"' cs → Form ('"' :: cs ++ ['"'])

/-- The text is a complete literal. -/
def IsLiteral (sql : String) : Prop := Form sql.toList

/-- In a quoted text every quote is written twice. -/
lemma isDoubled_flatMap (quote : Char) (cs : List Char) :
    IsDoubled quote (cs.flatMap fun c => if c = quote then [c, c] else [c]) := by
  induction cs with
  | nil => exact .nil
  | cons c cs ih =>
    rw [List.flatMap_cons]
    by_cases h : c = quote
    · subst h
      simpa using ih.twice
    · simpa [h] using ih.other h

lemma isDoubled_of_notMem {quote : Char} {cs : List Char} (h : quote ∉ cs) :
    IsDoubled quote cs := by
  induction cs with
  | nil => exact .nil
  | cons c cs ih =>
    obtain ⟨hne, hrest⟩ := not_or.mp (mt List.mem_cons.mpr h)
    exact .other (Ne.symm hne) (ih hrest)

lemma toList_quotedBy (quote : Char) (s : String) :
    (quotedBy quote s).toList =
      quote :: s.toList.flatMap (fun c => if c = quote then [c, c] else [c]) ++ [quote] := by
  simp [quotedBy]

/-- The text of a whole number: its digits behind its sign. -/
lemma toList_toString_int (n : Int) :
    (toString n).toList = (if 0 ≤ n then [] else ['-']) ++ Nat.toDigits 10 n.natAbs := by
  rw [Int.toString_eq_repr, Int.repr_eq_if]
  split
  · rename_i h
    have : n.toNat = n.natAbs := by omega
    simp [this]
  · rename_i h
    have : (-n).toNat = n.natAbs := by omega
    simp [this]

/-- The literal of a whole number is complete. -/
lemma toString_int_isLiteral (n : Int) : IsLiteral (toString n) := by
  have hnumeral := Decimal.IsNumeral.plain (.whole (Decimal.isDigits_toDigits n.natAbs))
  rw [IsLiteral, toList_toString_int]
  split
  · exact .number (Or.inl rfl) hnumeral
  · exact .number (Or.inr rfl) hnumeral

lemma toList_text {x : Float} {b : Decimal.Binary} (h : Decimal.magnitude x = .finite b) :
    (Decimal.text x).toList =
      Decimal.signOf x ++ Decimal.layOut none (b.generalDigits none) := by
  simp [Decimal.text, Decimal.general, h]

/-- The literal of a floating-point number is complete, also if it is no number. -/
lemma float_isLiteral (x : Float) : IsLiteral (float x) := by
  have hword : ∀ cs, '\'' ∉ cs → IsLiteral (String.ofList ('\'' :: cs ++ ['\''])) := by
    intro cs hcs
    rw [IsLiteral, String.toList_ofList]
    exact .text (isDoubled_of_notMem hcs)
  unfold float
  split
  · exact hword ['N', 'a', 'N'] (by decide)
  · split
    · exact hword ['-', 'I', 'n', 'f', 'i', 'n', 'i', 't', 'y'] (by decide)
    · exact hword ['I', 'n', 'f', 'i', 'n', 'i', 't', 'y'] (by decide)
  · rename_i b hb
    rw [IsLiteral, toList_text hb]
    refine .number ?_ (Decimal.layOut_isNumeral b)
    unfold Decimal.signOf
    split
    · exact Or.inr rfl
    · exact Or.inl rfl

/-! ### Bytes and instants -/

lemma quote_notMem_hexBytes (bs : List UInt8) : '\'' ∉ Text.hexBytes .upper bs := by
  have hdigit : ∀ n < 16, Text.hexDigit .upper n ≠ '\'' := by decide
  intro h
  obtain ⟨b, -, hb⟩ := List.mem_flatMap.mp h
  have hlt : b.toNat < 256 := b.toNat_lt
  rcases List.mem_cons.mp hb with heq | hb
  · exact hdigit _ (by omega) heq.symm
  · exact hdigit _ (by omega) (List.mem_singleton.mp hb).symm

/-- The literal of bytes is complete. -/
lemma bytes_isLiteral (bs : List UInt8) : IsLiteral (bytes bs) := by
  have hbody : '\'' ∉ '\\' :: 'x' :: Text.hexBytes .upper bs := by
    simp [quote_notMem_hexBytes]
  rw [IsLiteral, bytes, String.toList_ofList]
  exact .text (isDoubled_of_notMem hbody)

lemma padded_isDigits (width n : Nat) : Decimal.IsDigits (Calendar.padded width n) :=
  (Decimal.isDigits_toDigits n).zeros_append _

lemma quote_notMem_padded (width n : Nat) : '\'' ∉ Calendar.padded width n :=
  fun h => absurd ((padded_isDigits width n).all _ h) (by decide)

lemma quote_notMem_shortFraction (n : Nat) : '\'' ∉ Calendar.shortFraction n := by
  unfold Calendar.shortFraction
  split
  · simp
  · intro h
    rcases List.mem_cons.mp h with heq | h
    · exact absurd heq (by decide)
    · have hmem := (List.dropWhile_suffix _).subset (List.mem_reverse.mp h)
      exact quote_notMem_padded 9 n (List.mem_reverse.mp hmem)

/-- There is no quote in the text of an instant. -/
lemma quote_notMem_stamp (t : Calendar.Instant) : '\'' ∉ Calendar.stamp t := by
  have hyear : '\'' ∉ Calendar.yearText t.date.year := by
    unfold Calendar.yearText
    split <;> simp [quote_notMem_padded]
  have hoffset : '\'' ∉ Calendar.offsetText t.offset := by
    unfold Calendar.offsetText
    dsimp only
    split <;> simp [quote_notMem_padded]
  unfold Calendar.stamp
  split
  · simp [hyear, Calendar.monthAndDay, Calendar.clock, quote_notMem_padded,
      quote_notMem_shortFraction]
  · simp [hyear, hoffset, Calendar.monthAndDay, Calendar.clock, quote_notMem_padded,
      quote_notMem_shortFraction]

/-- The literal of an instant is complete. -/
lemma time_isLiteral (t : Calendar.Instant) :
    IsLiteral (String.ofList ('\'' :: Calendar.stamp t ++ ['\''])) := by
  rw [IsLiteral, String.toList_ofList]
  exact .text (isDoubled_of_notMem (quote_notMem_stamp t))

/-! ### The encoder of templates -/

/-- A value that is no part of a query has a complete literal or none. -/
theorem ofResolved_isLiteral {v : Value} {sql : String} (hv : ∀ r, v ≠ .raw r)
    (h : ofResolved v = .ok sql) : IsLiteral sql := by
  cases v with
  | null =>
    cases h
    exact .word (by simp)
  | raw r => exact absurd rfl (hv r)
  | identifier name =>
    cases h
    rw [IsLiteral, toList_quotedBy]
    exact .identifier (isDoubled_flatMap _ _)
  | bool b =>
    cases b with
    | true =>
      cases h
      exact .word (by simp)
    | false =>
      cases h
      exact .word (by simp)
  | int n =>
    cases h
    exact toString_int_isLiteral n.toInt
  | float x =>
    cases h
    exact float_isLiteral x
  | bytes bs =>
    cases h
    exact bytes_isLiteral bs
  | string s =>
    cases h
    rw [IsLiteral, toList_quotedBy]
    exact .text (isDoubled_flatMap _ _)
  | time t =>
    cases h
    exact time_isLiteral t
  | list vs => cases h
  | map d => cases h
  | valuer v => cases h

/-- The value that is written: the one of the data, or the one that a valuer supplies. -/
def resolve : Value → Except EncodeError Value
  | .valuer v =>
    match v.outcome with
    | .ok value      => .ok value
    | .error message => .error (.valuer message)
  | v         => .ok v

/-- The literal is that of the value that is written. -/
lemma postgres_eq_ok_iff {v : Value} {sql : String} :
    postgres v = .ok sql ↔ ∃ w, resolve v = .ok w ∧ ofResolved w = .ok sql := by
  cases v with
  | valuer v =>
    simp only [postgres, resolve]
    cases v.outcome <;> simp
  | _ => simp [postgres, resolve]

end Literal

end SafeQuery
