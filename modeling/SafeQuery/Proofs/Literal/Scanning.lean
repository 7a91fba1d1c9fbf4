import Mathlib.Logic.Function.Basic
import SafeQuery.Proofs.Literal.Form

/-!
# Quoted literals are found again

A reader of queries takes a quoted text up to a quote that is not doubled. It finds the literal of a
string, of an identifier and of bytes again wherever the literal stands, unless another quote is
written directly behind it, and it finds nothing else: `postgres_selfDelimiting`. So no text inside
quotes can end its literal, and different values have different literals.
-/

namespace SafeQuery

namespace Text

/-- The bytes that pairs of hexadecimal digits write. -/
def bytesOfHex? : List Char → Option (List UInt8)
  | []           => some []
  | [_]          => none
  | c :: d :: cs =>
    match hexValue? c, hexValue? d with
    | some high, some low => (bytesOfHex? cs).map (UInt8.ofNat (16 * high + low) :: ·)
    | _, _                => none

/-- The digit of a number is read as the number. -/
lemma hexValue_hexDigit (case : Case) {n : Nat} (h : n < 16) :
    hexValue? (hexDigit case n) = some n := by
  revert n
  cases case <;> decide

@[simp] lemma hexBytes_cons (case : Case) (b : UInt8) (bs : List UInt8) :
    hexBytes case (b :: bs) =
      hexDigit case (b.toNat / 16) :: hexDigit case (b.toNat % 16) :: hexBytes case bs := rfl

lemma length_hexBytes (case : Case) (bs : List UInt8) :
    (hexBytes case bs).length = 2 * bs.length := by
  induction bs with
  | nil => rfl
  | cons b bs ih =>
    simp only [hexBytes_cons, List.length_cons, ih]
    omega

/-- The digits of bytes write these bytes. -/
lemma bytesOfHex_hexBytes (case : Case) (bs : List UInt8) :
    bytesOfHex? (hexBytes case bs) = some bs := by
  induction bs with
  | nil => rfl
  | cons b bs ih =>
    have hbound : b.toNat < 256 := b.toNat_lt
    have hhigh := hexValue_hexDigit case (n := b.toNat / 16) (by omega)
    have hlow := hexValue_hexDigit case (n := b.toNat % 16) (by omega)
    have hbyte : UInt8.ofNat (16 * (b.toNat / 16) + b.toNat % 16) = b := by
      rw [Nat.div_add_mod, UInt8.ofNat_toNat]
    simp only [hexBytes_cons, bytesOfHex?, hhigh, hlow, ih, Option.map_some, hbyte]

end Text

namespace Literal

/-- Where the reader of a quoted text stands. -/
inductive QuoteState where
  | inside
  /-- Behind a quote, which ends the text if no other follows. -/
  | behindQuote

/-- What is read before the rest of a text. -/
def prepend (c : Char) (r : List Char × List Char) : List Char × List Char := (c :: r.1, r.2)

/-- Read up to the quote that ends a text, where a doubled quote stands for one. -/
def scanQuoted (quote : Char) : QuoteState → List Char → Option (List Char × List Char)
  | .inside, []           => none
  | .inside, c :: cs      =>
    if c = quote then scanQuoted quote .behindQuote cs
    else (scanQuoted quote .inside cs).map (prepend c)
  | .behindQuote, []      => some ([], [])
  | .behindQuote, c :: cs =>
    if c = quote then (scanQuoted quote .inside cs).map (prepend quote)
    else some ([], c :: cs)

/-- The text between quotes at the beginning of a query, and the rest of the query. -/
def readQuoted? (quote : Char) (query : String) : Option (String × String) :=
  match query.toList with
  | []      => none
  | c :: cs =>
    if c = quote then
      (scanQuoted quote .inside cs).map fun r => (String.ofList r.1, String.ofList r.2)
    else none

/-- The literal is read as the text, and it ends where it has been written to. -/
def Delimits (quote : Char) (sql s : String) : Prop :=
  ∀ rest : String, rest.toList.head? ≠ some quote →
    readQuoted? quote (sql ++ rest) = some (s, rest)

/-- A quote ends the text if no other follows. -/
lemma scanQuoted_end {quote : Char} {rest : List Char} (h : rest.head? ≠ some quote) :
    scanQuoted quote .inside (quote :: rest) = some ([], rest) := by
  rw [scanQuoted, if_pos rfl]
  cases rest with
  | nil => rfl
  | cons c cs => rw [scanQuoted, if_neg (by simpa using h)]

/-- The reader takes doubled quotes for single ones, whatever stands on either side of them. -/
lemma scanQuoted_doubled {quote : Char} (cs : List Char) {rest : List Char}
    (h : rest.head? ≠ some quote) :
    scanQuoted quote .inside
        (cs.flatMap (fun c => if c = quote then [c, c] else [c]) ++ quote :: rest) =
      some (cs, rest) := by
  induction cs with
  | nil => exact scanQuoted_end h
  | cons c cs ih =>
    rw [List.flatMap_cons, List.append_assoc]
    by_cases hc : c = quote
    · subst hc
      simp only [if_true, List.cons_append, List.nil_append, scanQuoted, ih, Option.map_some,
        prepend]
    · simp only [hc, if_false, List.cons_append, List.nil_append, scanQuoted, ih, Option.map_some,
        prepend]

/-- A text between quotes is found again. -/
theorem quotedBy_delimits (quote : Char) (s : String) : Delimits quote (quotedBy quote s) s := by
  intro rest hrest
  have hquery : (quotedBy quote s ++ rest).toList =
      quote :: (s.toList.flatMap (fun c => if c = quote then [c, c] else [c]) ++
        quote :: rest.toList) := by
    rw [String.toList_append, toList_quotedBy]
    simp
  rw [readQuoted?, hquery]
  simp only [if_true, scanQuoted_doubled s.toList hrest, Option.map_some, String.ofList_toList]

/-- A text without quotes is written between quotes as it is. -/
lemma quotedBy_of_notMem {quote : Char} {cs : List Char} (h : quote ∉ cs) :
    quotedBy quote (String.ofList cs) = String.ofList (quote :: cs ++ [quote]) := by
  have hsame : cs.flatMap (fun c => if c = quote then [c, c] else [c]) = cs := by
    induction cs with
    | nil => rfl
    | cons c cs ih =>
      obtain ⟨hne, hcs⟩ := not_or.mp (mt List.mem_cons.mpr h)
      rw [List.flatMap_cons, ih hcs, if_neg (Ne.symm hne), List.singleton_append]
  rw [quotedBy, String.toList_ofList, hsame]

/-- Different texts are quoted differently. -/
lemma quotedBy_injective {quote : Char} : Function.Injective (quotedBy quote) := by
  intro s t h
  have hs := quotedBy_delimits quote s "" (by simp)
  rw [h, quotedBy_delimits quote t "" (by simp)] at hs
  exact (congrArg Prod.fst (Option.some.inj hs)).symm

/-- The literal of bytes is the quoted text of their digits behind a mark. -/
lemma bytes_eq (bs : List UInt8) :
    bytes bs = quotedBy '\'' (String.ofList ('\\' :: 'x' :: Text.hexBytes .upper bs)) := by
  rw [quotedBy_of_notMem (by simp [quote_notMem_hexBytes])]
  rfl

/-- The literals of strings, of identifiers and of bytes end where they have been written to,
whatever follows that does not begin with their quote, and they are read as the string, as the name,
and as two hexadecimal digits for each of the bytes behind a mark. So no two strings have the same
literal, no two identifiers, and no two sequences of bytes. -/
theorem postgres_selfDelimiting :
    (∀ s, ∃ sql, postgres (.string s) = .ok sql ∧ Delimits '\'' sql s) ∧
    (∀ name, ∃ sql, postgres (.identifier name) = .ok sql ∧ Delimits '"' sql name) ∧
    (∀ bs, ∃ digits : String, postgres (.bytes bs) = .ok ("'\\x" ++ digits ++ "'") ∧
      digits.toList.length = 2 * bs.length ∧ Text.bytesOfHex? digits.toList = some bs ∧
      Delimits '\'' ("'\\x" ++ digits ++ "'") ("\\x" ++ digits)) ∧
    Function.Injective (fun s => postgres (.string s)) ∧
    Function.Injective (fun name => postgres (.identifier name)) ∧
    Function.Injective (fun bs => postgres (.bytes bs)) := by
  have hmarked : ∀ ds : List Char,
      String.ofList ('\\' :: 'x' :: ds) = "\\x" ++ String.ofList ds := by
    intro ds
    simp [← String.toList_inj]
  refine ⟨fun s => ⟨_, rfl, quotedBy_delimits _ _⟩, fun name => ⟨_, rfl, quotedBy_delimits _ _⟩,
    fun bs => ⟨String.ofList (Text.hexBytes .upper bs), ?_⟩, fun s t h => ?_, fun s t h => ?_,
    fun bs bs' h => ?_⟩
  · have hbytes : bytes bs = "'\\x" ++ String.ofList (Text.hexBytes .upper bs) ++ "'" := by
      simp [← String.toList_inj, bytes]
    rw [← hbytes, String.toList_ofList, ← hmarked, bytes_eq]
    exact ⟨congrArg _ (bytes_eq bs), Text.length_hexBytes _ bs, Text.bytesOfHex_hexBytes _ bs,
      quotedBy_delimits _ _⟩
  · exact quotedBy_injective (Except.ok.inj h)
  · exact quotedBy_injective (Except.ok.inj h)
  · have hsql : bytes bs = bytes bs' := Except.ok.inj h
    rw [bytes_eq, bytes_eq] at hsql
    have hdigits := String.ofList_injective (quotedBy_injective hsql)
    simp only [List.cons.injEq, true_and] at hdigits
    have hsome := congrArg Text.bytesOfHex? hdigits
    rw [Text.bytesOfHex_hexBytes, Text.bytesOfHex_hexBytes] at hsome
    exact Option.some.inj hsome

/-- A string with quotes at both ends, one of them doubled, before a parenthesis. -/
theorem postgres_selfDelimiting_of_quotes :
    ")".toList.head? ≠ some '\'' ∧ ∃ sql, postgres (.string "'') --'") = .ok sql ∧
      readQuoted? '\'' (sql ++ ")") = some ("'') --'", ")") := by
  obtain ⟨sql, hsql, hread⟩ := postgres_selfDelimiting.1 "'') --'"
  exact ⟨by decide, sql, hsql, hread ")" (by decide)⟩

end Literal

end SafeQuery
