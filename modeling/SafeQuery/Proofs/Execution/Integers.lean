import Mathlib.Data.Nat.Digits.Defs
import SafeQuery.Execution.Evaluation
import SafeQuery.Proofs.Tree.Lone
import SafeQuery.Proofs.Tree.Numbers

/-!
# Literals of whole numbers

A literal of a whole number is a sign or none, the mark of base sixteen or none, and digits of the
base. Every literal of a number of sixty-four bits is scanned as one token, is read as an operand
that is printed as it was written, and has exactly the value that it writes, with one exception: in
base sixteen the least number cannot be written, because the digits are read before the sign
(`IntegerLiteral.exact`).
-/

namespace SafeQuery

/-- What stands in front of a number. -/
inductive Sign where
  | none
  | plus
  | minus
deriving DecidableEq

namespace Sign

def chars : Sign → List Char
  | none  => []
  | plus  => ['+']
  | minus => ['-']

def isNegative : Sign → Bool
  | minus => true
  | _     => false

end Sign

/-- The base of a literal. Base sixteen has a mark with a letter of either case. -/
inductive Radix where
  | ten
  | sixteen (mark : Text.Case)

namespace Radix

def base : Radix → Nat
  | ten       => 10
  | sixteen _ => 16

def mark : Radix → List Char
  | ten            => []
  | sixteen .lower => ['0', 'x']
  | sixteen .upper => ['0', 'X']

def isDigit : Radix → Char → Bool
  | ten       => Decimal.isDigit
  | sixteen _ => Text.isHexDigit

end Radix

/-- A whole number as it is written. -/
structure IntegerLiteral where
  sign : Sign
  radix : Radix
  digits : List Char
  nonempty : digits ≠ []
  all : ∀ c ∈ digits, radix.isDigit c = true

namespace IntegerLiteral

variable (l : IntegerLiteral)

def text : String := String.ofList (l.sign.chars ++ (l.radix.mark ++ l.digits))

/-- The absolute value, where the last digit is that of the ones. -/
def magnitude : Nat :=
  Nat.ofDigits l.radix.base (l.digits.reverse.map fun c => (Text.hexValue? c).getD 0)

def value : Int := if l.sign.isNegative then -l.magnitude else l.magnitude

/-- The literal writes a number of sixty-four bits. -/
def Fits : Prop := -2 ^ 63 ≤ l.value ∧ l.value < 2 ^ 63

/-- The literal writes the least number of sixty-four bits in base sixteen. -/
def IsLeastInSixteen : Prop := l.radix.base = 16 ∧ l.value = -2 ^ 63

instance : Decidable l.Fits := inferInstanceAs (Decidable (_ ∧ _))

instance : Decidable l.IsLeastInSixteen := inferInstanceAs (Decidable (_ ∧ _))

end IntegerLiteral

/-- The number that digits write, from the first digit on. -/
lemma foldl_eq_ofDigits (b : Nat) (v : Char → Nat) (ds : List Char) :
    ds.foldl (fun n c => n * b + v c) 0 = Nat.ofDigits b (ds.reverse.map v) := by
  rw [Nat.ofDigits_eq_foldr, List.map_reverse, List.foldr_reverse, List.foldl_map]
  simp only [Nat.cast_id, Nat.add_comm, Nat.mul_comm]

lemma hexValue_of_isDigit {c : Char} (h : Decimal.isDigit c = true) :
    (Text.hexValue? c).getD 0 = Decimal.digitValue c := by
  unfold Decimal.isDigit at h
  rw [Text.hexValue?, if_pos h, Option.getD_some, Decimal.digitValue]

namespace IntegerLiteral

variable {l : IntegerLiteral}

lemma magnitude_of_ten (h : l.radix = .ten) : l.magnitude = Decimal.value l.digits := by
  have hall : ∀ c ∈ l.digits, Decimal.isDigit c = true := by simpa [h, Radix.isDigit] using l.all
  have hmap : (l.digits.reverse.map fun c => (Text.hexValue? c).getD 0) =
      l.digits.reverse.map Decimal.digitValue :=
    List.map_congr_left fun c hc => hexValue_of_isDigit (hall c (List.mem_reverse.mp hc))
  rw [magnitude, hmap, h, Radix.base, ← foldl_eq_ofDigits]
  rfl

lemma magnitude_of_sixteen {mark : Text.Case} (h : l.radix = .sixteen mark) :
    l.magnitude = hexNumeral l.digits := by
  rw [magnitude, h, Radix.base, ← foldl_eq_ofDigits]
  rfl

/-! ### Scanning -/

/-- Behind the sign there is a digit. -/
lemma exists_digit (l : IntegerLiteral) :
    ∃ d ds, l.radix.mark ++ l.digits = d :: ds ∧ Decimal.isDigit d = true := by
  cases hr : l.radix with
  | ten =>
    obtain ⟨d, ds, hds⟩ := List.exists_cons_of_ne_nil l.nonempty
    have hd := l.all d (by simp [hds])
    rw [hr] at hd
    exact ⟨d, ds, hds, hd⟩
  | sixteen mark => cases mark <;> exact ⟨'0', _, rfl, by decide⟩

/-- The reader of tokens takes off the sign that has been written. -/
lemma takeSign_text (l : IntegerLiteral) :
    takeSign l.text.toList = (l.sign.chars, l.radix.mark ++ l.digits) := by
  obtain ⟨d, ds, hds, hd⟩ := l.exists_digit
  rw [text, String.toList_ofList]
  cases l.sign with
  | none =>
    rw [hds]
    exact takeSign_of_avoids (.cons (not_isSign_of_isDigit hd))
  | plus => exact takeSign_cons (by decide) _
  | minus => exact takeSign_cons (by decide) _

/-- The reader of numbers takes off the sign that has been written. -/
lemma splitSign_text (l : IntegerLiteral) :
    Decimal.splitSign l.text.toList = (l.sign.isNegative, l.radix.mark ++ l.digits) := by
  have hsnd : (Decimal.splitSign l.text.toList).2 = l.radix.mark ++ l.digits := by
    rw [splitSign_snd, takeSign_text]
  obtain ⟨d, ds, hds, hd⟩ := l.exists_digit
  refine Prod.ext ?_ hsnd
  rw [text, String.toList_ofList]
  cases l.sign with
  | none =>
    have hminus : d ≠ '-' := ne_of_class hd (by decide)
    have hplus : d ≠ '+' := ne_of_class hd (by decide)
    rw [hds]
    simp [Sign.chars, Sign.isNegative, Decimal.splitSign, hminus, hplus]
  | plus => rfl
  | minus => rfl

/-- Digits alone are a decimal. -/
lemma scanDecimal_digits {ds : List Char} (hne : ds ≠ [])
    (hall : ∀ d ∈ ds, Decimal.isDigit d = true) : scanDecimal? ds = some (ds, []) := by
  have htake : takeDigits ds = (ds, []) := by
    have h := takeDigits_again (s := ds) .nil
    have hds : (takeDigits ds).1 = ds := List.takeWhile_eq_self_iff.mpr hall
    rwa [hds, List.append_nil] at h
  have hempty : ds.isEmpty = false := List.isEmpty_eq_false_iff.mpr hne
  simp [scanDecimal?, htake, takeFraction, takeExponent, hempty]

/-- Digits of base sixteen behind their mark. -/
lemma scanHex_digits {x : Char} {ds : List Char} (hx : isHexMark x = true) (hne : ds ≠ [])
    (hall : ∀ d ∈ ds, Text.isHexDigit d = true) :
    scanHex? ('0' :: x :: ds) = some ('0' :: x :: ds, []) := by
  have htake : ds.takeWhile Text.isHexDigit = ds := List.takeWhile_eq_self_iff.mpr hall
  have hdrop : ds.dropWhile Text.isHexDigit = [] := List.dropWhile_eq_nil_iff.mpr hall
  have hempty : ds.isEmpty = false := List.isEmpty_eq_false_iff.mpr hne
  have hmark : (decide (x = 'x') || decide (x = 'X')) = true := hx
  simp only [scanHex?, htake, hdrop, hempty, hmark, Bool.not_false, Bool.and_self, if_true]

/-- Behind its sign the literal is read to its end. -/
lemma scanMagnitude_text (l : IntegerLiteral) :
    scanMagnitude? (l.radix.mark ++ l.digits) = some (l.radix.mark ++ l.digits, []) := by
  have hall := l.all
  rw [scanMagnitude?]
  cases hr : l.radix with
  | ten =>
    rw [hr] at hall
    have hdecimal := scanDecimal_digits l.nonempty hall
    have hhex := scanHex_decimal hdecimal (show runsOn [] = false from rfl)
    rw [List.append_nil] at hhex
    simp only [Radix.mark, List.nil_append, hhex, hdecimal]
  | sixteen mark =>
    rw [hr] at hall
    cases mark <;>
    · simp only [Radix.mark, List.cons_append, List.nil_append]
      rw [scanHex_digits (by decide) l.nonempty hall]

/-- The whole literal is one numeral. -/
lemma scanNumber_text (l : IntegerLiteral) :
    scanNumber? l.text.toList = some (l.text.toList, []) := by
  have htext : l.sign.chars ++ (l.radix.mark ++ l.digits) = l.text.toList := by
    rw [text, String.toList_ofList]
  simp only [scanNumber?, takeSign_text, scanMagnitude_text, htext, runsOn, Bool.false_eq_true,
    if_false]

/-! ### Reading -/

/-- In base ten a literal that fits is read as the number that it writes. -/
lemma readInteger_text (hten : l.radix = .ten) (hfits : l.Fits) :
    readInteger? l.text.toList = some (Int64.ofInt l.value) := by
  have hall : l.digits.all Decimal.isDigit = true := by
    simpa [hten, Radix.isDigit] using l.all
  have hempty : l.digits.isEmpty = false := List.isEmpty_eq_false_iff.mpr l.nonempty
  have hvalue : (if l.sign.isNegative then -(Decimal.value l.digits : Int)
      else Decimal.value l.digits) = l.value := by
    rw [value, magnitude_of_ten hten]
  have hmin : Int64.minValue.toInt = -2 ^ 63 := by decide
  have hmax : Int64.maxValue.toInt = 2 ^ 63 - 1 := by decide
  have hrange : Int64.minValue.toInt ≤ l.value ∧ l.value ≤ Int64.maxValue.toInt := by
    rw [hmin, hmax]
    exact ⟨hfits.1, Int.le_sub_one_of_lt hfits.2⟩
  simp only [readInteger?, splitSign_text, hten, Radix.mark, List.nil_append, hvalue, hempty, hall,
    Bool.not_true, Bool.or_self, Bool.false_eq_true, if_false]
  rw [if_pos hrange]

/-- The digits of base sixteen have to be those of a positive number of sixty-four bits. -/
lemma readHexadecimal_digits {mark : Text.Case} (hsixteen : l.radix = .sixteen mark) :
    readHexadecimal? l.sign.isNegative l.digits =
      if l.magnitude < 2 ^ 63 then some (Int64.ofInt l.value) else none := by
  have hmax : Int64.maxValue.toInt = 2 ^ 63 - 1 := by decide
  have hiff : (l.magnitude : Int) ≤ Int64.maxValue.toInt ↔ l.magnitude < 2 ^ 63 := by
    rw [hmax]
    omega
  rw [value, magnitude_of_sixteen hsixteen] at *
  simp only [← hiff]
  rfl

/-- In base sixteen all numbers of sixty-four bits have such digits, except for the least one. -/
lemma magnitude_lt_iff {mark : Text.Case} (hsixteen : l.radix = .sixteen mark) (hfits : l.Fits) :
    l.magnitude < 2 ^ 63 ↔ ¬ l.IsLeastInSixteen := by
  obtain ⟨hlow, hhigh⟩ := hfits
  have hbase : l.radix.base = 16 := by rw [hsixteen, Radix.base]
  rw [IsLeastInSixteen, hbase]
  unfold value at hlow hhigh ⊢
  split_ifs at hlow hhigh ⊢ <;> omega

lemma not_exponentMark_or_dot {c : Char} (h : Decimal.isDigit c = true ∨ isSign c = true) :
    (decide (c = '.') || decide (c = 'e') || decide (c = 'E')) = false := by
  have hno : ∀ p : Char → Bool, p c = true → p '.' = false → p 'e' = false → p 'E' = false →
      (decide (c = '.') || decide (c = 'e') || decide (c = 'E')) = false := by
    intro p hc hdot he hE
    simp [ne_of_class hc hdot, ne_of_class hc he, ne_of_class hc hE]
  rcases h with h | h
  · exact hno _ h (by decide) (by decide) (by decide)
  · exact hno _ h (by decide) (by decide) (by decide)

lemma Sign.isSign_of_mem {sign : Sign} {c : Char} (hc : c ∈ sign.chars) : isSign c = true := by
  cases sign with
  | none => cases hc
  | plus | minus =>
    obtain rfl := List.mem_singleton.mp hc
    decide

/-- A literal in base ten has neither a mark nor a point, so it is read as a whole number. -/
lemma ofText_of_ten (hten : l.radix = .ten) (pos : Position) :
    (Number.ofText pos l.text).int = readInteger? l.text.toList := by
  have hall : ∀ d ∈ l.digits, Decimal.isDigit d = true := by
    simpa [hten, Radix.isDigit] using l.all
  have hsplit : (Decimal.splitSign l.text.toList).2 = l.digits := by
    rw [splitSign_text, hten, Radix.mark, List.nil_append]
  have hmark : ∀ c : Char, isHexMark c = true → c ∉ l.digits := by
    intro c hc hmem
    rw [not_isHexMark_of_mem_decimal (scanDecimal_digits l.nonempty hall) hmem] at hc
    contradiction
  have hplain : (l.text.toList.any fun c => c = '.' || c = 'e' || c = 'E') = false := by
    rw [List.any_eq_false, text, String.toList_ofList, hten, Radix.mark, List.nil_append]
    intro c hc
    rw [Bool.not_eq_true]
    rcases List.mem_append.mp hc with hc | hc
    · exact not_exponentMark_or_dot (.inr (Sign.isSign_of_mem hc))
    · exact not_exponentMark_or_dot (.inl (hall c hc))
  -- The digits hold neither the mark of base sixteen nor one of a fraction or an exponent.
  unfold Number.ofText
  dsimp only
  split
  · rename_i hds
    rw [hsplit] at hds
    exact absurd (by simp [hds]) (hmark 'x' rfl)
  · rename_i hds
    rw [hsplit] at hds
    exact absurd (by simp [hds]) (hmark 'X' rfl)
  · rw [hplain]
    rfl

lemma ofText_of_sixteen {mark : Text.Case} (hsixteen : l.radix = .sixteen mark) (pos : Position) :
    Number.ofText pos l.text = ⟨pos, l.text, readHexadecimal? l.sign.isNegative l.digits,
      (readHexadecimal? l.sign.isNegative l.digits).map (·.toFloat)⟩ := by
  have hsplit := l.splitSign_text
  rw [hsixteen] at hsplit
  unfold Number.ofText
  dsimp only
  cases mark <;> rw [hsplit] <;> rfl

/-- The literal has its value, unless it is the least number in base sixteen. -/
lemma ofText_int (hfits : l.Fits) (hleast : ¬ l.IsLeastInSixteen) (pos : Position) :
    (Number.ofText pos l.text).int = some (Int64.ofInt l.value) := by
  cases hr : l.radix with
  | ten => rw [ofText_of_ten hr, readInteger_text hr hfits]
  | sixteen mark =>
    rw [ofText_of_sixteen hr, readHexadecimal_digits hr,
      if_pos ((magnitude_lt_iff hr hfits).mpr hleast)]

/-- The least number has no value in base sixteen: its absolute value is too large. -/
lemma ofText_least (hfits : l.Fits) (hleast : l.IsLeastInSixteen) (pos : Position) :
    Number.ofText pos l.text = ⟨pos, l.text, none, none⟩ := by
  cases hr : l.radix with
  | ten =>
    have hbase := hleast.1
    rw [hr, Radix.base] at hbase
    omega
  | sixteen mark =>
    have hlarge : ¬ l.magnitude < 2 ^ 63 := fun h => (magnitude_lt_iff hr hfits).mp h hleast
    rw [ofText_of_sixteen hr, readHexadecimal_digits hr, if_neg hlarge, Option.map_none]

end IntegerLiteral

/-- The operand is printed as the text, and its value is always the whole number. -/
structure Operand.Denotes (o : Operand) (text : String) (value : Int) : Prop where
  printed : o.print = text
  evaluated : ∀ (f : Frame) (vars : Scope),
    ∃ i : Int64, (f.evalOperand o).run vars = .ok (.int i, vars) ∧ i.toInt = value

namespace IntegerLiteral

variable {l : IntegerLiteral}

lemma toInt_ofInt_value (hfits : l.Fits) : (Int64.ofInt l.value).toInt = l.value :=
  Int64.toInt_ofInt_of_le hfits.1 hfits.2

/-- Every other literal that fits becomes an operand with the number that it writes. -/
lemma denotes_ofText (hfits : l.Fits) (hleast : ¬ l.IsLeastInSixteen) (pos : Position) :
    (Operand.number (Number.ofText pos l.text)).Denotes l.text l.value := by
  refine ⟨?_, fun f vars => ⟨_, ?_, toInt_ofInt_value hfits⟩⟩
  · rw [Operand.print, Number.ofText_text]
  · rw [Frame.evalOperand, Frame.numberValue, ofText_int hfits hleast]
    rfl

lemma ofToken_denotes (hfits : l.Fits) (hleast : ¬ l.IsLeastInSixteen) (c : PipelineContext)
    (scope : List String) (offset : Nat) (spaced : Bool) :
    ∃ o, Operand.ofToken c scope ⟨.number l.text, offset, spaced⟩ = .ok o ∧
      o.Denotes l.text l.value := by
  refine ⟨_, ?_, denotes_ofText hfits hleast (c.positionOf offset)⟩
  simp only [Operand.ofToken, ofText_int hfits hleast, Option.isNone_some, Bool.false_and,
    Bool.false_eq_true, if_false]

lemma ofToken_least (hfits : l.Fits) (hleast : l.IsLeastInSixteen) (c : PipelineContext)
    (scope : List String) (offset : Nat) (spaced : Bool) :
    Operand.ofToken c scope ⟨.number l.text, offset, spaced⟩ =
      .error ⟨offset, .illegalNumber l.text⟩ := by
  simp only [Operand.ofToken, ofText_least hfits hleast, Option.isNone_none, Bool.and_self, if_true]

/-! ### Sources -/

lemma isLexical_number (l : IntegerLiteral) : (TokenKind.number l.text).IsLexical :=
  ⟨_, _, l.scanNumber_text⟩

/-- Between delimiters the literal is one token. -/
lemma ofSource_number (l : IntegerLiteral) :
    Item.ofSource .braces (inBraces l.text) = .ok [.action 0 [⟨.number l.text, 2, true⟩]] := by
  have hword := ofSource_word (braces_enclose l.isLexical_number) l.isLexical_number
  have hwidth : Text.width Delimiters.braces.left.toList = 2 := by decide
  rwa [hwidth] at hword

lemma isLone_number (text : String) (offset : Nat) (spaced : Bool) :
    (⟨.number text, offset, spaced⟩ : Token).kind.IsLone := trivial

/-- A source of the literal alone is printed as it was, and shows the number. -/
lemma ofSource_denotes (hfits : l.Fits) (hleast : ¬ l.IsLeastInSixteen)
    (isFunction : String → Bool) (name : String) :
    ∃ trees tree, Tree.ofSource .braces isFunction name (inBraces l.text) = .ok trees ∧
      trees.get? name = some tree ∧ tree.print = inBraces l.text := by
  obtain ⟨o, ho, hdenotes⟩ := ofToken_denotes hfits hleast
    ((PipelineContext.ofSource isFunction (inBraces l.text)).inAction 0) ["$"] 2 true
  refine ⟨_, _, Tree.ofSource_lone name (isLone_number _ _ _) l.ofSource_number ho,
    (Dict.get?_insert _ _ _ _).trans (if_pos rfl), ?_⟩
  rw [Tree.print]
  simp only [printNodes, Node.print, PipelineOf.print_ofOperand, hdenotes.printed,
    String.append_empty]

/-- Every literal of a whole number of sixty-four bits is scanned as one token, and where it stands
as an operand it is printed as it was written and has the value that it writes. Only in base sixteen
the least of these numbers is refused. -/
theorem exact (l : IntegerLiteral) (hfits : l.Fits) :
    (∀ rest, runsOn rest = false →
        scanToken (l.text.toList ++ rest) = .ok ⟨.number l.text, l.text.toList, rest⟩) ∧
      (∀ (c : PipelineContext) (scope : List String) (offset : Nat) (spaced : Bool),
        let read := Operand.ofToken c scope ⟨.number l.text, offset, spaced⟩
        (l.IsLeastInSixteen → read = .error ⟨offset, .illegalNumber l.text⟩) ∧
          (¬ l.IsLeastInSixteen → ∃ o, read = .ok o ∧ o.Denotes l.text l.value)) ∧
      ∀ (isFunction : String → Bool) (name : String),
        let read := Tree.ofSource .braces isFunction name (inBraces l.text)
        (l.IsLeastInSixteen → read = .error ⟨2, .illegalNumber l.text⟩) ∧
          (¬ l.IsLeastInSixteen → ∃ trees tree, read = .ok trees ∧
            trees.get? name = some tree ∧ tree.print = inBraces l.text) := by
  refine ⟨fun rest hrest => scanToken_number l.scanNumber_text hrest,
    fun c scope offset spaced => ⟨fun hleast => ?_, fun hleast => ?_⟩,
    fun isFunction name => ⟨fun hleast => ?_, fun hleast => ?_⟩⟩
  · exact ofToken_least hfits hleast c scope offset spaced
  · exact ofToken_denotes hfits hleast c scope offset spaced
  · exact Tree.ofSource_lone_error name (isLone_number _ _ _) l.ofSource_number
      (ofToken_least hfits hleast _ _ _ _)
  · exact ofSource_denotes hfits hleast isFunction name

/-- The two ends in base sixteen, with zeros in front and digits of both cases, and the lower end in
base ten. -/
theorem exact_of_ends :
    let least : IntegerLiteral :=
      ⟨.minus, .sixteen .lower, "8000000000000000".toList, by decide, List.all_eq_true.mp rfl⟩
    let greatest : IntegerLiteral :=
      ⟨.plus, .sixteen .upper, "0007fffffffFFFFFFFF".toList, by decide, List.all_eq_true.mp rfl⟩
    let leastInTen : IntegerLiteral :=
      ⟨.minus, .ten, "9223372036854775808".toList, by decide, List.all_eq_true.mp rfl⟩
    (least.text = "-0x8000000000000000" ∧ least.Fits ∧
        ∀ isFunction name, Tree.ofSource .braces isFunction name (inBraces least.text) =
          .error ⟨2, .illegalNumber least.text⟩) ∧
      (greatest.text = "+0X0007fffffffFFFFFFFF" ∧ greatest.value = 2 ^ 63 - 1 ∧ greatest.Fits ∧
        ∀ c scope offset spaced, ∃ o,
          Operand.ofToken c scope ⟨.number greatest.text, offset, spaced⟩ = .ok o ∧
            o.Denotes greatest.text greatest.value) ∧
      leastInTen.value = least.value ∧ leastInTen.Fits ∧
        ∀ c scope offset spaced, ∃ o,
          Operand.ofToken c scope ⟨.number leastInTen.text, offset, spaced⟩ = .ok o ∧
            o.Denotes leastInTen.text leastInTen.value := by
  intro least greatest leastInTen
  have hleast : least.Fits := by decide
  have hgreatest : greatest.Fits := by decide
  have hleastInTen : leastInTen.Fits := by decide
  refine ⟨⟨rfl, hleast, fun isFunction name => ?_⟩,
    ⟨rfl, by decide, hgreatest, fun c scope offset spaced => ?_⟩,
    by decide, hleastInTen, fun c scope offset spaced => ?_⟩
  · exact ((least.exact hleast).2.2 isFunction name).1 (by decide)
  · exact ((greatest.exact hgreatest).2.1 c scope offset spaced).2 (by decide)
  · exact ((leastInTen.exact hleastInTen).2.1 c scope offset spaced).2 (by decide)

end IntegerLiteral

end SafeQuery
