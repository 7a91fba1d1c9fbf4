import Mathlib.Tactic.Common
import SafeQuery.Proofs.Token.Lexical

/-!
# Quoted names as strings

Names are quoted in one way and strings are read in another. What is quoted with a letter, or as it
is, is read again; a character that is quoted with its code point is not, since strings have other
escapes for code points. `scanString_quoted_iff` says which names are read again.
-/

namespace SafeQuery

namespace Text

/-- The character is quoted with its code point. -/
def isCoded (c : Char) : Bool := c ∉ ['\t', '\r', '\n'] && (isExtending c || isUnprintable c)

/-- A character that is quoted with its code point, in braces. -/
lemma escapeIn_of_isCoded {c : Char} (h : isCoded c = true) (hnul : c ≠ '\x00') :
    escapeIn '"' c = '\\' :: 'u' :: '\x7b' :: (hexDigits c.toNat ++ ['\x7d']) := by
  have hback : isCoded '\\' = false := by decide +kernel
  have hquote : isCoded '"' = false := by decide +kernel
  have hne : ∀ d, isCoded d = false → c ≠ d := by
    rintro d hd rfl
    rw [h] at hd
    cases hd
  have hletters := h
  simp only [isCoded, Bool.and_eq_true, decide_eq_true_eq, List.mem_cons, List.not_mem_nil,
    or_false, not_or] at hletters
  obtain ⟨⟨htab, hreturn, hbreak⟩, hclass⟩ := hletters
  simp only [escapeIn, hnul, htab, hreturn, hbreak, hne _ hback, hne _ hquote, hclass, if_false,
    if_true]
  rfl

/-- A character that is not quoted with its code point is quoted with a letter or as it is. -/
lemma escapeIn_of_not_isCoded {c : Char} (h : isCoded c = false) :
    (∃ l, escapeIn '"' c = ['\\', l] ∧ letterEscape? l = some c) ∨
      escapeIn '"' c = [c] ∧ c ≠ '"' ∧ c ≠ '\n' ∧ c ≠ '\\' := by
  have hnul : isCoded '\x00' = true := by decide +kernel
  unfold escapeIn
  split_ifs with h₁ h₂ h₃ h₄ h₅ h₆ h₇
  · rw [h₁, hnul] at h
    cases h
  · exact .inl ⟨'t', rfl, h₂ ▸ rfl⟩
  · exact .inl ⟨'r', rfl, h₃ ▸ rfl⟩
  · exact .inl ⟨'n', rfl, h₄ ▸ rfl⟩
  · exact .inl ⟨'\\', rfl, by rw [h₅]; rfl⟩
  · exact .inl ⟨c, rfl, by rw [h₆]; rfl⟩
  · simp [isCoded, h₂, h₃, h₄, h₇] at h
  · exact .inr ⟨rfl, h₆, h₄, h₅⟩

end Text

open Text

/-- The characters `w` were read before as the character `c`. -/
def StringTail.behind (c : Char) (w : List Char) : StringTail → StringTail
  | closed text w' rest => closed (c :: text) (w ++ w') rest
  | t                   => t

/-- A character that is not quoted with its code point is read again as itself. -/
lemma scanString_escapeIn {c : Char} (h : isCoded c = false) (s : List Char) :
    scanString .plain (escapeIn '"' c ++ s) =
      (scanString .plain s).behind c (escapeIn '"' c) := by
  obtain ⟨l, hesc, hletter⟩ | ⟨hesc, hquote, hbreak, hback⟩ := escapeIn_of_not_isCoded h
  · rw [hesc]
    simp only [List.cons_append, List.nil_append, scanString, hletter]
    cases scanString .plain s <;> rfl
  · rw [hesc]
    simp only [List.cons_append, List.nil_append, scanString, hquote, hbreak, hback, if_false]
    cases scanString .plain s <;> rfl

/-- A name without characters that are quoted with their code point is read again. -/
theorem scanString_quoted {name : List Char} (h : ∀ c ∈ name, isCoded c = false)
    (rest : List Char) :
    scanString .plain (name.flatMap (escapeIn '"') ++ '"' :: rest) =
      .closed name (name.flatMap (escapeIn '"') ++ ['"']) rest := by
  induction name with
  | nil => rfl
  | cons c name ih =>
    obtain ⟨hc, hname⟩ := List.forall_mem_cons.mp h
    rw [List.flatMap_cons, List.append_assoc, scanString_escapeIn hc, ih hname, List.append_assoc]
    rfl

/-- A code point in braces is no escape of a string. -/
lemma scanString_coded {c : Char} (h : isCoded c = true) (hnul : c ≠ '\x00') (s : List Char) :
    scanString .plain (escapeIn '"' c ++ s) = .badEscape := by
  rw [escapeIn_of_isCoded h hnul]
  rfl

/-- Digits that are read after a backslash: another digit comes, or the character is complete. -/
lemma scanString_digits {base left value : Nat} {s text written rest : List Char}
    (h : scanString (.digits base left value) s = .closed text written rest) :
    ∃ c cs v written', s = c :: cs ∧ digitIn? base c = some v ∧
      if left ≤ 1 then
        ∃ d text', text = d :: text' ∧ scanString .plain cs = .closed text' written' rest
      else scanString (.digits base (left - 1) (value * base + v)) cs =
        .closed text written' rest := by
  cases s with
  | nil => cases h
  | cons c cs =>
    simp only [scanString] at h
    cases hdigit : digitIn? base c with
    | none =>
      rw [hdigit] at h
      cases h
    | some v =>
      simp only [hdigit] at h
      by_cases hleft : left ≤ 1
      · simp only [hleft, if_true] at h
        cases hchar : charOf? (value * base + v) with
        | none =>
          rw [hchar] at h
          cases h
        | some d =>
          simp only [hchar] at h
          obtain ⟨text', written', rfl, -, h⟩ := StringTail.yields_eq_closed.mp h
          exact ⟨c, cs, v, written', rfl, hdigit, by rw [if_pos hleft]; exact ⟨d, text', rfl, h⟩⟩
      · simp only [hleft, if_false] at h
        obtain ⟨written', -, h⟩ := StringTail.written_eq_closed.mp h
        exact ⟨c, cs, v, written', rfl, hdigit, by rw [if_neg hleft]; exact h⟩

/-- How NUL is quoted: the two characters behind it are read as digits with it. -/
lemma scanString_nul {s text written rest : List Char}
    (h : scanString .plain (escapeIn '"' '\x00' ++ s) = .closed text written rest) :
    ∃ a b s' d text' written', s = a :: b :: s' ∧ (digitIn? 8 a).isSome ∧ (digitIn? 8 b).isSome ∧
      text = d :: text' ∧ scanString .plain s' = .closed text' written' rest := by
  have hdigits : scanString .plain (escapeIn '"' '\x00' ++ s) =
      ((scanString (.digits 8 2 0) s).written '0').written '\\' := rfl
  rw [hdigits] at h
  obtain ⟨_, -, h⟩ := StringTail.written_eq_closed.mp h
  obtain ⟨_, -, h⟩ := StringTail.written_eq_closed.mp h
  obtain ⟨a, cs, v, _, rfl, ha, h⟩ := scanString_digits h
  rw [if_neg (by decide)] at h
  obtain ⟨b, s', w, written', rfl, hb, h⟩ := scanString_digits h
  rw [if_pos (by decide)] at h
  obtain ⟨d, text', rfl, hrest⟩ := h
  exact ⟨a, b, s', d, text', written', rfl, by rw [ha]; rfl, by rw [hb]; rfl, rfl, hrest⟩

/-- A digit in front of a quoted name is its first character. -/
lemma eq_cons_of_quoted {name rest s : List Char} {a : Char}
    (h : name.flatMap (escapeIn '"') ++ '"' :: rest = a :: s) (ha : (digitIn? 8 a).isSome) :
    ∃ name', name = a :: name' ∧ s = name'.flatMap (escapeIn '"') ++ '"' :: rest := by
  have hne : ∀ {d : Char}, (digitIn? 8 d).isSome = false → a ≠ d := by
    rintro d hd rfl
    rw [hd] at ha
    cases ha
  cases name with
  | nil =>
    cases h
    exact absurd rfl (hne (by decide))
  | cons c name =>
    rw [List.flatMap_cons, List.append_assoc] at h
    by_cases hcoded : isCoded c = true
    · have hback : ∃ ds, escapeIn '"' c = '\\' :: ds := by
        by_cases hnul : c = '\x00'
        · exact ⟨['0'], by rw [hnul]; rfl⟩
        · exact ⟨_, escapeIn_of_isCoded hcoded hnul⟩
      obtain ⟨ds, hds⟩ := hback
      rw [hds] at h
      cases h
      exact absurd rfl (hne (by decide))
    · obtain ⟨l, hesc, -⟩ | ⟨hesc, -⟩ := escapeIn_of_not_isCoded (by simpa using hcoded)
      · rw [hesc] at h
        cases h
        exact absurd rfl (hne (by decide))
      · rw [hesc] at h
        cases h
        exact ⟨name, rfl, rfl⟩

/-- What is read of a quoted name is not longer, and it is shorter if a character of the name is
quoted with its code point: NUL takes two characters with it, and every other one is not read. -/
theorem scanString_quoted_length {name text written rest rest' : List Char}
    (h : scanString .plain (name.flatMap (escapeIn '"') ++ '"' :: rest) =
      .closed text written rest') :
    text.length ≤ name.length ∧
      ((∃ c ∈ name, isCoded c = true) → text.length < name.length) := by
  match name with
  | [] =>
    cases h
    simp
  | c :: name =>
    rw [List.flatMap_cons, List.append_assoc] at h
    by_cases hcoded : isCoded c = true
    · by_cases hnul : c = '\x00'
      · subst hnul
        obtain ⟨a, b, s', d, text', written', hs, ha, hb, rfl, hread⟩ := scanString_nul h
        obtain ⟨name₁, rfl, hs₁⟩ := eq_cons_of_quoted hs ha
        obtain ⟨name₂, rfl, rfl⟩ := eq_cons_of_quoted hs₁.symm hb
        have hle := (scanString_quoted_length hread).1
        simp only [List.length_cons]
        exact ⟨by omega, fun _ => by omega⟩
      · rw [scanString_coded hcoded hnul] at h
        cases h
    · rw [scanString_escapeIn (by simpa using hcoded)] at h
      cases hread : scanString .plain (name.flatMap (escapeIn '"') ++ '"' :: rest) with
      | unterminated =>
        rw [hread] at h
        cases h
      | badEscape =>
        rw [hread] at h
        cases h
      | closed text' written' rest' =>
        rw [hread] at h
        cases h
        obtain ⟨hle, hlt⟩ := scanString_quoted_length hread
        refine ⟨Nat.succ_le_succ hle, fun ⟨c', hc', hcoded'⟩ => Nat.succ_lt_succ (hlt ?_)⟩
        obtain rfl | hc' := List.mem_cons.mp hc'
        · exact absurd hcoded' hcoded
        · exact ⟨c', hc', hcoded'⟩

/-- A name is read again from behind its opening quote exactly if none of its characters is quoted
with its code point. -/
theorem scanString_quoted_iff {name rest : List Char} :
    (∃ written rest', scanString .plain (name.flatMap (escapeIn '"') ++ '"' :: rest) =
      .closed name written rest') ↔ ∀ c ∈ name, isCoded c = false := by
  constructor
  · rintro ⟨written, rest', h⟩ c hc
    by_contra hcoded
    exact lt_irrefl _ ((scanString_quoted_length h).2 ⟨c, hc, by simpa using hcoded⟩)
  · exact fun h => ⟨_, _, scanString_quoted h rest⟩

end SafeQuery
