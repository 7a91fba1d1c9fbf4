import SafeQuery.Format
import SafeQuery.Proofs.Token.Quoting

/-!
# Formatted quotations as strings

The verb for quotations writes controls with a letter or with two hexadecimal digits, and everything
else as it is. All of this is read again where strings are read, so that what is written is a string
of a template that stands for the same text: `sprintf_quotation`.
-/

namespace SafeQuery

open quoteForTemplate (quoted)

lemma digitIn_hexDigit {n : Nat} (h : n < 16) : digitIn? 16 (Text.hexDigit .lower n) = some n := by
  revert n
  decide

/-- Two hexadecimal digits behind their mark are read as the character that has been written. -/
lemma scanString_hexDigits {c : Char} (hc : c.toNat < 256) (s : List Char) :
    scanString .plain ('\\' :: 'x' :: Text.hexDigit .lower (c.toNat / 16) ::
        Text.hexDigit .lower (c.toNat % 16) :: s) =
      (scanString .plain s).behind c ['\\', 'x', Text.hexDigit .lower (c.toNat / 16),
        Text.hexDigit .lower (c.toNat % 16)] := by
  have hhigh := digitIn_hexDigit (n := c.toNat / 16) (by omega)
  have hlow := digitIn_hexDigit (n := c.toNat % 16) (by omega)
  have hpoint : (0 * 16 + c.toNat / 16) * 16 + c.toNat % 16 = c.toNat := by omega
  have hchar : charOf? c.toNat = some c := by
    rw [charOf?, if_pos (show c.toNat.isValidChar from c.valid), Char.ofNat_toNat]
  have hmark : scanString .plain ('\\' :: 'x' :: Text.hexDigit .lower (c.toNat / 16) ::
        Text.hexDigit .lower (c.toNat % 16) :: s) =
      ((scanString (.digits 16 2 0) (Text.hexDigit .lower (c.toNat / 16) ::
        Text.hexDigit .lower (c.toNat % 16) :: s)).written 'x').written '\\' := rfl
  rw [hmark, scanString, hhigh]
  dsimp only
  rw [if_neg (by decide), scanString, hlow]
  dsimp only
  rw [if_pos (by decide), hpoint, hchar]
  cases scanString .plain s <;> rfl

/-- A character of a quotation is read again, whatever follows. -/
lemma scanString_quotedChar (c : Char) (s : List Char) :
    scanString .plain (quoted c ++ s) = (scanString .plain s).behind c (quoted c) := by
  have hletter : ∀ l, letterEscape? l = some c →
      scanString .plain (['\\', l] ++ s) = (scanString .plain s).behind c ['\\', l] := by
    intro l hl
    simp only [List.cons_append, List.nil_append, scanString, hl]
    cases scanString .plain s <;> rfl
  unfold quoted
  split_ifs with hquote hback hbreak htab hreturn hcontrol
  · exact hletter '"' (by rw [hquote]; rfl)
  · exact hletter '\\' (by rw [hback]; rfl)
  · exact hletter 'n' (hbreak ▸ rfl)
  · exact hletter 't' (htab ▸ rfl)
  · exact hletter 'r' (hreturn ▸ rfl)
  · have hc : c.toNat < 256 := by
      simp only [Bool.or_eq_true, decide_eq_true_eq] at hcontrol
      rcases hcontrol with hc | rfl
      · omega
      · decide
    exact scanString_hexDigits hc s
  · simp only [List.cons_append, List.nil_append, scanString, hquote, hbreak, hback, if_false]
    cases scanString .plain s <;> rfl

/-- The characters of a quotation are read one after the other, up to the closing quote. -/
lemma scanString_quotation (cs rest : List Char) :
    scanString .plain (cs.flatMap quoted ++ '"' :: rest) =
      .closed cs (cs.flatMap quoted ++ ['"']) rest := by
  induction cs with
  | nil => rfl
  | cons c cs ih =>
    rw [List.flatMap_cons, List.append_assoc, scanString_quotedChar, ih, List.append_assoc]
    rfl

/-- A quotation is a way to write its text as a string. -/
lemma isQuoted_quoteForTemplate (s : String) : TokenKind.IsQuoted (quoteForTemplate s) s := by
  refine .inr ⟨s.toList.flatMap quoted ++ ['"'], [], ?_, ?_⟩
  · simp [quoteForTemplate]
  · rw [List.append_nil]
    exact scanString_quotation s.toList []

lemma follow_nil (vs : List Value) : follow [] vs = (extraNote vs).toList := rfl

/-- A directive that shows a value takes the next one. -/
lemma follow_fill (precision : Option Nat) (verb : Char) (ds : List Directive) (v : Value)
    (vs : List Value) : follow (.fill precision verb :: ds) (v :: vs) =
      (showWith precision verb v).toList ++ follow ds vs := rfl

/-- What the verb for quotations shows of a string, with any precision, alone or as a whole format,
is read as one token before every text: the string that is written in this way and stands for the
string that has been shown. -/
theorem sprintf_quotation (s : String) :
    ∃ shown, sprintf "%q" [.string s] = shown ∧
      (∀ precision, showWith precision 'q' (.string s) = shown) ∧
      ∀ rest, scanToken (shown.toList ++ rest) = .ok ⟨.string shown s, shown.toList, rest⟩ := by
  have hshown : ∀ precision, showWith precision 'q' (.string s) = quoteForTemplate s := by
    simp [showWith, showAs?]
  refine ⟨quoteForTemplate s, ?_, hshown, fun rest => ?_⟩
  · have hformat : directives "%q".toList = [.fill none 'q'] := by cbv
    rw [sprintf, hformat, follow_fill, follow_nil, hshown]
    simp [extraNote]
  · exact scanToken_string (isQuoted_quoteForTemplate s)

end SafeQuery
