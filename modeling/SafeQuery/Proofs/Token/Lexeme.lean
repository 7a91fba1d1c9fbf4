import Mathlib.Data.List.TakeWhile
import Mathlib.Tactic.Common
import SafeQuery.Token.Scan

/-!
# Lexemes

A token that has been read is printed as it was written (`scanToken_print`). It ends in a character
that is neither blank nor a dash (`scanToken_endsSolid`), so that a dash before a right delimiter
is never part of a token.
-/

namespace SafeQuery

/-- Field names are printed as they are written. -/
lemma scanFields_print (s : List Char) :
    (String.join ((scanFields s).value.map ("." ++ ·))).toList = (scanFields s).lexeme := by
  fun_induction scanFields s with
  | case1 c cs h name r ih =>
    rw [List.map_cons, String.join_cons, String.toList_append, ih]
    simp [name, r]
  | case2 | case3 => rfl

/-- A keyword, a constant or a name is printed as the word that it was. -/
@[simp] lemma ofWord_print (w : String) : (TokenKind.ofWord w).print = w := by
  unfold TokenKind.ofWord
  cases hk : Keyword.ofWord? w with
  | some k =>
    have hword : k.word = w := by simpa using List.find?_some hk
    exact hword
  | none =>
    dsimp only
    split_ifs with htrue hfalse hnil
    · exact htrue.symm
    · exact hfalse.symm
    · exact hnil.symm
    · rfl

lemma markToken_print {c : Char} {kind : TokenKind} (h : markToken? c = some kind) :
    kind.print.toList = [c] := by
  unfold markToken? at h
  split_ifs at h <;> cases h <;> subst c <;> rfl

/-- A word is printed as it is written. -/
lemma scanWord_print {c : Char} {cs : List Char} {r : Scanned TokenKind}
    (h : scanWord c cs = .ok r) : r.value.print.toList = r.lexeme := by
  simp only [scanWord] at h
  split_ifs at h with hdot hnone hvar hraw hquote hname hnumber
  · cases h
    rw [hdot]
    exact String.toList_ofList
  · cases h
    exact scanFields_print _
  · cases h
    simp only [TokenKind.print, String.toList_append, String.toList_ofList, scanFields_print]
  · split at h <;> cases h
    exact String.toList_ofList
  · split at h <;> cases h
    exact String.toList_ofList
  · cases h
    rw [ofWord_print, String.toList_ofList]

/-- A token is printed as it is written. -/
theorem scanToken_print {s : List Char} {r : Scanned TokenKind} (h : scanToken s = .ok r) :
    r.value.print.toList = r.lexeme := by
  unfold scanToken at h
  split at h
  · cases h
  · split at h
    · cases h
      exact String.toList_ofList
    · split at h
      · rename_i hmark
        cases h
        exact markToken_print hmark
      · split at h
        · cases h
          exact String.toList_ofList
        · exact scanWord_print h

/-! ### The end of a token -/

/-- The character is neither blank nor a dash. -/
def isSolid (c : Char) : Bool := c ≠ '-' && !Text.isSpace c

def EndsSolid (s : List Char) : Prop := ∀ c ∈ s.getLast?, isSolid c = true

/-- The characters that are not solid. -/
def loose : List Char := ['-', ' ', '\t', '\r', '\n']

/-- Characters of a class without blanks and dashes are solid. -/
lemma isSolid_of {p : Char → Bool} (hp : loose.any p = false) {c : Char} (hc : p c = true) :
    isSolid c = true := by
  by_contra hsolid
  have hmem : c ∈ loose := by
    simp only [isSolid, Text.isSpace, Bool.and_eq_true, Bool.not_eq_true', decide_eq_true_eq,
      Bool.or_eq_false_iff, decide_eq_false_iff_not] at hsolid
    simp only [loose, List.mem_cons, List.not_mem_nil]
    tauto
  exact List.any_eq_false.mp hp c hmem hc

namespace EndsSolid

variable {s t : List Char}

lemma append (ht : EndsSolid t) (hne : t ≠ []) : EndsSolid (s ++ t) := by
  intro c hc
  rw [List.getLast?_append, Option.or_of_isSome (by simpa using hne)] at hc
  exact ht c hc

lemma append_of (hs : EndsSolid s) (ht : EndsSolid t) : EndsSolid (s ++ t) := by
  cases t with
  | nil => rwa [List.append_nil]
  | cons c cs => exact ht.append (by simp)

lemma of_all {p : Char → Bool} (hp : loose.any p = false) (h : ∀ c ∈ s, p c = true) : EndsSolid s :=
  fun c hc => isSolid_of hp (h c (List.mem_of_getLast? hc))

lemma takeWhile {p : Char → Bool} (hp : loose.any p = false) : EndsSolid (s.takeWhile p) :=
  of_all hp fun _ hc => List.mem_takeWhile_imp hc

lemma nil : EndsSolid [] := by simp [EndsSolid]

lemma singleton {c : Char} (h : isSolid c = true) : EndsSolid [c] := by
  simpa [EndsSolid] using h

lemma cons {c : Char} (h : isSolid c = true) (hs : EndsSolid s) : EndsSolid (c :: s) :=
  (singleton h).append_of hs

end EndsSolid

lemma takeDigits_endsSolid (s : List Char) : EndsSolid (takeDigits s).1 :=
  .takeWhile (by decide)

/-- A fraction that is not empty ends in a digit or in its point. -/
lemma takeFraction_endsSolid (s : List Char) : EndsSolid (takeFraction s).1 := by
  unfold takeFraction
  split
  · exact (takeDigits_endsSolid _).cons (by decide)
  · exact .nil

/-- An exponent ends in its digits, of which there is one at least. -/
lemma takeExponent_endsSolid (s : List Char) : EndsSolid (takeExponent s).1 := by
  unfold takeExponent
  split
  · exact .nil
  · dsimp only
    split_ifs with h
    · simp only [Bool.and_eq_true, Bool.not_eq_true', List.isEmpty_eq_false_iff] at h
      exact (takeDigits_endsSolid _).append h.2
    · exact .nil

/-- A numeral without sign is not empty, and it ends neither in a blank nor in a dash. -/
lemma scanMagnitude_endsSolid {s text rest : List Char} (h : scanMagnitude? s = some (text, rest)) :
    EndsSolid text ∧ text ≠ [] := by
  unfold scanMagnitude? at h
  split at h
  · rename_i hhex
    cases h
    unfold scanHex? at hhex
    split at hhex
    · rename_i x cs
      split_ifs at hhex with hx
      cases hhex
      simp only [Bool.and_eq_true, Bool.not_eq_true', List.isEmpty_eq_false_iff] at hx
      have hdigits : EndsSolid (cs.takeWhile Text.isHexDigit) := .takeWhile (by decide)
      exact ⟨hdigits.append (s := ['0', x]) hx.2, by simp⟩
    · cases hhex
  · refine ⟨?_, scanDecimal_ne_nil h⟩
    unfold scanDecimal? at h
    dsimp only at h
    split_ifs at h
    cases h
    exact ((takeDigits_endsSolid _).append_of (takeFraction_endsSolid _)).append_of
      (takeExponent_endsSolid _)

lemma scanNumber_endsSolid {s text rest : List Char} (h : scanNumber? s = some (text, rest)) :
    EndsSolid text := by
  unfold scanNumber? at h
  dsimp only at h
  split at h
  · cases h
  · rename_i hmagnitude
    obtain ⟨hsolid, hne⟩ := scanMagnitude_endsSolid hmagnitude
    split_ifs at h
    cases h
    exact hsolid.append hne

/-- Field names, if there are any, end in a character of a name. -/
lemma scanFields_endsSolid (s : List Char) : EndsSolid (scanFields s).lexeme := by
  fun_induction scanFields s with
  | case1 c cs h name r ih =>
    have hc : isSolid c = true := isSolid_of (p := isNameStart) (by decide +kernel) h
    have hname : EndsSolid name := .cons hc (.takeWhile (by decide +kernel))
    exact (hname.cons (by decide)).append_of ih
  | case2 | case3 => exact .nil

namespace StringTail

/-- What is written of a string that is closed ends in its closing quote. -/
def EndsQuoted (t : StringTail) : Prop :=
  ∀ text written rest, t = closed text written rest → written.getLast? = some '"'

variable {t : StringTail} {c d : Char}

lemma endsQuoted_unterminated : EndsQuoted unterminated := by simp [EndsQuoted]

lemma endsQuoted_badEscape : EndsQuoted badEscape := by simp [EndsQuoted]

lemma EndsQuoted.written (h : t.EndsQuoted) : (t.written c).EndsQuoted := by
  intro text w rest ht
  obtain ⟨w', rfl, ht'⟩ := written_eq_closed.mp ht
  rw [List.getLast?_cons, h _ _ _ ht', Option.getD_some]

lemma EndsQuoted.yields (h : t.EndsQuoted) : (t.yields d c).EndsQuoted := by
  intro text w rest ht
  obtain ⟨text', w', rfl, rfl, ht'⟩ := yields_eq_closed.mp ht
  rw [List.getLast?_cons, h _ _ _ ht', Option.getD_some]

end StringTail

/-- Whatever is read before it, a string ends in its closing quote. -/
lemma scanString_endsQuoted (state : StringState) (s : List Char) :
    (scanString state s).EndsQuoted := by
  fun_induction scanString state s with
  | case1 | case3 | case6 => exact StringTail.endsQuoted_unterminated
  | case2 cs =>
    intro text written rest h
    cases h
    rfl
  | case4 _ _ _ ih | case8 _ _ _ _ _ ih | case14 _ _ _ _ _ _ _ _ _ ih => exact ih.written
  | case5 _ _ _ _ _ ih | case7 _ _ _ _ ih | case12 _ _ _ _ _ _ _ _ _ _ _ ih => exact ih.yields
  | case9 | case10 | case11 | case13 => exact StringTail.endsQuoted_badEscape

/-- A word ends neither in a blank nor in a dash. -/
lemma scanWord_endsSolid {c : Char} {cs : List Char} {r : Scanned TokenKind}
    (h : scanWord c cs = .ok r) : EndsSolid r.lexeme := by
  simp only [scanWord] at h
  split_ifs at h with hdot hnone hvar hraw hquote hname hnumber
  · cases h
    exact .singleton (hdot ▸ by decide)
  · cases h
    exact scanFields_endsSolid _
  · cases h
    have hname : EndsSolid (cs.takeWhile isNameChar) := .takeWhile (by decide +kernel)
    exact (hname.cons (hvar ▸ by decide)).append_of (scanFields_endsSolid _)
  · split at h
    · rename_i q rest hrest
      cases h
      have hq : q = rawQuote := by
        have hhead := List.head?_dropWhile_not (· ≠ rawQuote) cs
        rw [hrest] at hhead
        simpa using hhead
      have hend : EndsSolid [q] := .singleton (hq ▸ by decide)
      exact hend.append (by simp)
    · cases h
  · split at h
    · rename_i hstring
      cases h
      have hlast := scanString_endsQuoted _ _ _ _ _ hstring
      intro x hx
      rw [List.getLast?_cons, hlast, Option.getD_some] at hx
      cases hx
      decide
    all_goals cases h
  · cases h
    exact (EndsSolid.takeWhile (by decide +kernel)).cons
      (isSolid_of (p := isNameStart) (by decide +kernel) hname)

/-- A token ends neither in a blank nor in a dash. -/
theorem scanToken_endsSolid {s : List Char} {r : Scanned TokenKind} (h : scanToken s = .ok r) :
    EndsSolid r.lexeme := by
  unfold scanToken at h
  split at h
  · cases h
  · split at h
    · cases h
      exact (EndsSolid.singleton (by decide)).append (s := [':']) (by simp)
    · split at h
      · rename_i kind hmark
        cases h
        refine .singleton (isSolid_of (p := fun c => (markToken? c).isSome) (by decide) ?_)
        simp [hmark]
      · split at h
        · rename_i hnumber
          cases h
          exact scanNumber_endsSolid hnumber
        · exact scanWord_endsSolid h

end SafeQuery
