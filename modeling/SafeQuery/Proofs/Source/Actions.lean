import Mathlib.Data.List.Chain
import SafeQuery.Proofs.Source.Lexed

/-!
# Tokens of an action

The tokens of an action have been scanned one behind the other, so that each belongs to the grammar
of tokens, and fields behind fields have a space before them: without one they would be one token.
Both hold of every end of an action, `EndsAction.scannable`.
-/

namespace SafeQuery

def TokenKind.isField : TokenKind → Bool
  | field _ => true
  | _       => false

/-- Fields behind fields have a space before them. -/
def Token.IsApart (t t' : Token) : Prop :=
  t.kind.isField = true → t'.kind.isField = true → t'.spaced = true

/-- The tokens can be scanned one behind the other. -/
structure Scannable (ts : List Token) : Prop where
  lexical : AllLexical ts
  apart : ts.IsChain Token.IsApart

/-- The tokens are the end of an action of a source. -/
def EndsAction (ts : List Token) : Prop :=
  ∃ (d : Delimiters) (source : String) (items : List Item) (o : Nat) (tokens : List Token),
    Item.ofSource d source = .ok items ∧ .action o tokens ∈ items ∧ ts <:+ tokens

lemma Scannable.of_suffix {ts ts' : List Token} (h : Scannable ts) (hsuffix : ts' <:+ ts) :
    Scannable ts' :=
  ⟨fun t ht => h.lexical t (hsuffix.subset ht), h.apart.suffix hsuffix⟩

/-- All fields that follow are taken. -/
lemma scanFields_rest (s : List Char) : (scanFields (scanFields s).rest).value = [] := by
  fun_induction scanFields s with
  | case1 c cs h name r ih => exact ih
  | case2 c cs h => rw [scanFields, if_neg h]
  | case3 s hs =>
    have hnone : scanFields s = ⟨[], [], s⟩ := by
      rw [scanFields]
      exact hs
    rw [hnone]

lemma ofWord_isField (w : String) : (TokenKind.ofWord w).isField = false := by
  unfold TokenKind.ofWord
  split
  · rfl
  · split_ifs <;> rfl

lemma markToken_isField {c : Char} {kind : TokenKind} (h : markToken? c = some kind) :
    kind.isField = false := by
  unfold markToken? at h
  split_ifs at h <;> cases h <;> rfl

/-- A word of field names has been read up to the end of the names. -/
lemma scanWord_isField {c : Char} {cs : List Char} {r : Scanned TokenKind}
    (h : scanWord c cs = .ok r) (hr : r.value.isField = true) :
    (scanFields (c :: cs)).value ≠ [] ∧ r.rest = (scanFields (c :: cs)).rest := by
  simp only [scanWord] at h
  split_ifs at h with hdot hnone hvar hraw hquote hname hnumber
  · cases h
    cases hr
  · cases h
    exact ⟨by simpa using hnone, rfl⟩
  · cases h
    cases hr
  · split at h
    · cases h
      cases hr
    · cases h
  · split at h <;> cases h
    cases hr
  · cases h
    rw [ofWord_isField] at hr
    cases hr

/-- Field names that are scanned as a token are all that follow. -/
lemma scanToken_isField {s : List Char} {r : Scanned TokenKind} (h : scanToken s = .ok r)
    (hr : r.value.isField = true) :
    (scanFields s).value ≠ [] ∧ r.rest = (scanFields s).rest := by
  unfold scanToken at h
  split at h
  · cases h
  · split at h
    · cases h
      cases hr
    · split at h
      · rename_i hmark
        cases h
        rw [markToken_isField hmark] at hr
        cases hr
      · split at h
        · cases h
          cases hr
        · exact scanWord_isField h hr

section Actions

variable {right s : List Char} {opened offset : Nat} {first : Bool} {r : Closed (List Token)}

/-- Fields with no space before them are the fields that the text begins with. -/
lemma lexAction_head_isField (h : lexAction right opened offset false s = .ok r) :
    ∀ t ∈ r.value.head?, t.kind.isField = true → t.spaced = false → (scanFields s).value ≠ [] := by
  intro t ht hfield hspaced
  rw [lexAction] at h
  split at h
  · cases h
    cases ht
  · split at h
    · cases h
    · rename_i hbody
      split at h
      · cases h
      · rename_i hscan
        split at h
        · cases h
        · cases h
          cases ht
          have hblank : s.takeWhile Text.isSpace = [] := by simpa using hspaced
          have hs : s = s.dropWhile Text.isSpace := by
            conv_lhs => rw [← s.takeWhile_append_dropWhile (p := Text.isSpace), hblank]
            rfl
          rw [← hbody, ← hs] at hscan
          exact (scanToken_isField hscan hfield).1

/-- Fields behind fields have a space before them, or they would be one token. -/
lemma lexAction_isApart (h : lexAction right opened offset first s = .ok r) :
    r.value.IsChain Token.IsApart := by
  fun_induction lexAction right opened offset first s generalizing r with
  | case1 =>
    cases h
    exact .nil
  | case2 | case3 | case4 => cases h
  | case5 =>
    rename_i hscan closed hclosed ih
    cases h
    refine List.isChain_cons.mpr ⟨fun t ht hkind hfield => ?_, ih hclosed⟩
    by_contra hspaced
    have hfields := lexAction_head_isField hclosed t ht hfield (by simpa using hspaced)
    rw [(scanToken_isField hscan hkind).2] at hfields
    exact hfields (scanFields_rest _)

end Actions

/-- The tokens between two delimiters are those of an action. -/
lemma lexEnclosed_action {d : Delimiters} {opened o : Nat} {after : List Char} {r : Closed Item}
    {tokens : List Token} (h : lexEnclosed d opened after = .ok r)
    (hr : r.value = .action o tokens) : Scannable tokens := by
  simp only [lexEnclosed] at h
  split at h
  · split at h <;> cases h
    cases hr
  · split at h
    · cases h
    · rename_i haction
      cases h
      cases hr
      exact ⟨lexAction_isLexical haction, lexAction_isApart haction⟩

lemma not_mem_textItem {offset o : Nat} {s : List Char} {trimStart trimEnd : Bool}
    {tokens : List Token} : .action o tokens ∉ textItem offset s trimStart trimEnd := by
  simp only [textItem]
  split_ifs <;> simp

/-- The tokens of an action can be scanned one behind the other. -/
lemma lexFrom_action {d : Delimiters} {offset o : Nat} {trim : Bool} {s : List Char}
    {items : List Item} {tokens : List Token} (h : lexFrom d offset trim s = .ok items)
    (hitems : .action o tokens ∈ items) : Scannable tokens := by
  fun_induction lexFrom d offset trim s generalizing items
  case case2 =>
    cases h
    exact absurd hitems not_mem_textItem
  case case1 | case3 | case4 => cases h
  case case5 closed hclosed _ hrest ih =>
    cases h
    rcases List.mem_append.mp hitems with htext | hitems
    · exact absurd htext not_mem_textItem
    · rcases List.mem_cons.mp hitems with haction | hitems
      · exact lexEnclosed_action hclosed haction.symm
      · exact ih hrest hitems

/-- The tokens at the end of an action can be scanned one behind the other. -/
theorem EndsAction.scannable {ts : List Token} (h : EndsAction ts) : Scannable ts := by
  obtain ⟨d, source, items, o, tokens, hsource, haction, hsuffix⟩ := h
  exact (lexFrom_action hsource haction).of_suffix hsuffix

end SafeQuery
