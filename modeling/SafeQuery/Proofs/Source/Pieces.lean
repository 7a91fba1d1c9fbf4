import SafeQuery.Proofs.Token.Lexeme
import SafeQuery.Source

/-!
# The pieces of a source

Taking a source apart loses nothing: the source is made of texts and of actions between delimiters,
in turn, every item stands for one of them, and all of it but blanks and marks is kept.
`Factored` says what the items of a source have to do with its pieces, and `Item.ofSource_factored`
that they always are like this.
-/

namespace SafeQuery

/-- The text before the first mark does not have the mark in it. -/
lemma not_infix_of_splitAt {mark s before after : List Char} (hmark : mark ≠ [])
    (h : splitAt? mark s = some (before, after)) : ¬ mark <:+: before := by
  induction s generalizing before with
  | nil =>
    simp only [splitAt?, List.isEmpty_iff, hmark, if_false] at h
    cases h
  | cons c cs ih =>
    rw [splitAt?] at h
    split_ifs at h with hp
    · cases h
      simpa using hmark
    · obtain ⟨⟨b, a⟩, hs, hba⟩ := Option.map_eq_some_iff.mp h
      cases hba
      rw [List.infix_cons_iff, not_or]
      refine ⟨fun hprefix => hp ?_, ih hs⟩
      -- a mark at the beginning would have been found there
      rw [List.isPrefixOf_iff_prefix, ← splitAt_append hs, List.append_assoc, ← List.cons_append]
      exact hprefix.trans (List.prefix_append _ _)

lemma not_infix_of_splitAt_none {mark s : List Char} (h : splitAt? mark s = none) :
    ¬ mark <:+: s := by
  induction s with
  | nil =>
    intro hinfix
    rw [List.infix_nil] at hinfix
    simp [splitAt?, hinfix] at h
  | cons c cs ih =>
    rw [splitAt?] at h
    split_ifs at h with hp
    rw [List.infix_cons_iff, not_or]
    rw [Option.map_eq_none_iff] at h
    exact ⟨fun hprefix => hp (List.isPrefixOf_iff_prefix.mpr hprefix), ih h⟩

/-- A trim marker, or nothing. -/
def dash (trims : Bool) : List Char := if trims then ['-'] else []

/-- A right delimiter closes an action, also behind a trim marker with a blank before it. -/
lemma closingMark_eq_some {right s mark : List Char} {spaced trims : Bool}
    (h : closingMark? right spaced s = some (mark, trims)) :
    mark = dash trims ++ right ∧ mark <+: s ∧ (trims = true → spaced = true) := by
  unfold closingMark? at h
  split_ifs at h with htrim hplain
  · cases h
    rw [Bool.and_eq_true, List.isPrefixOf_iff_prefix] at htrim
    exact ⟨rfl, htrim.2, fun _ => htrim.1⟩
  · cases h
    exact ⟨rfl, List.isPrefixOf_iff_prefix.mp hplain, by simp⟩

/-! ### The inside of an action -/

/-- The text ends in a trim marker: a dash with a blank before it. -/
def closesTrimmed (inner : List Char) : Bool := opensTrimmed inner.reverse

/-- The characters may stand between tokens. -/
def IsBlanks (b : List Char) : Prop := ∀ c ∈ b, Text.isSpace c = true

/-- The text is not empty, does not begin with a blank, and ends neither in a blank nor in a
dash. -/
structure IsLexeme (s : List Char) : Prop where
  ne_nil : s ≠ []
  start : ∀ c ∈ s.head?, Text.isSpace c = false
  finish : EndsSolid s

/-- The text from an offset on consists of the tokens, as they are printed, with blanks around them.
The tokens know their offsets and whether they are the first ones or have blanks before them. -/
inductive Covered : Nat → Bool → List Char → List Token → Prop
  | blanks {offset : Nat} {first : Bool} {b : List Char} : IsBlanks b → Covered offset first b []
  | token {offset : Nat} {first : Bool} {b s : List Char} {kind : TokenKind} {tokens : List Token} :
      IsBlanks b → IsLexeme kind.print.toList →
      Covered (offset + Text.width b + Text.width kind.print.toList) false s tokens →
      Covered offset first (b ++ kind.print.toList ++ s)
        (⟨kind, offset + Text.width b, first || !b.isEmpty⟩ :: tokens)

/-- Tokens and blanks do not end in a dash. -/
lemma Covered.getLast?_ne {offset : Nat} {first : Bool} {s : List Char} {tokens : List Token}
    (h : Covered offset first s tokens) : ∀ c ∈ s.getLast?, c ≠ '-' := by
  induction h with
  | blanks hb =>
    intro c hc hdash
    have hspace := hb c (List.mem_of_getLast? hc)
    rw [hdash] at hspace
    contradiction
  | @token offset first b s kind tokens hb hkind _ ih =>
    intro c hc
    rw [List.getLast?_append] at hc
    cases hs : s.getLast? with
    | some d =>
      rw [hs, Option.some_or] at hc
      exact ih c (hs ▸ hc)
    | none =>
      rw [hs, Option.none_or, List.getLast?_append,
        Option.or_of_isSome (by simpa using hkind.ne_nil)] at hc
      have hsolid := hkind.finish c hc
      simp only [isSolid, Bool.and_eq_true, decide_eq_true_eq] at hsolid
      exact hsolid.1

lemma isLexeme_of_scanToken {c : Char} {cs : List Char} {r : Scanned TokenKind}
    (h : scanToken (c :: cs) = .ok r) (hc : Text.isSpace c = false) :
    IsLexeme r.value.print.toList := by
  rw [scanToken_print h]
  refine ⟨scanToken_ne_nil h, ?_, scanToken_endsSolid h⟩
  intro d hd
  have happend := scanToken_append h
  cases hlexeme : r.lexeme with
  | nil => exact absurd hlexeme (scanToken_ne_nil h)
  | cons e es =>
    rw [hlexeme] at happend hd
    cases happend
    cases hd
    exact hc

/-- What has been read of a text from an offset on, up to the right delimiter and with it: the body
and the trim marker before the delimiter, if there is one. -/
structure ReadUpTo (right s body : List Char) (offset : Nat) {α : Type} (r : Closed α) : Prop where
  text : s = body ++ dash r.trims ++ right ++ r.rest
  width : r.offset = offset + Text.width (body ++ dash r.trims ++ right)
  spaced : r.trims = true → ∃ c ∈ body.getLast?, Text.isSpace c = true

lemma isBlanks_takeWhile (s : List Char) : IsBlanks (s.takeWhile Text.isSpace) :=
  fun _ hc => List.mem_takeWhile_imp hc

/-- The tokens of an action cover it up to its right delimiter. -/
lemma lexAction_covered {right s : List Char} {opened offset : Nat} {first : Bool}
    {r : Closed (List Token)} (h : lexAction right opened offset first s = .ok r) :
    ∃ body, ReadUpTo right s body offset r ∧ Covered offset first body r.value ∧
      s.takeWhile Text.isSpace <+: body := by
  fun_induction lexAction right opened offset first s generalizing r with
  | case1 offset first s blank body here mark trims =>
    rename_i hmark
    cases h
    obtain ⟨rfl, ⟨rest, hrest⟩, hspaced⟩ := closingMark_eq_some hmark
    refine ⟨blank, ⟨?_, ?_, ?_⟩, .blanks (isBlanks_takeWhile s), List.prefix_rfl⟩
    · rw [← hrest, List.drop_left, List.append_assoc, List.append_assoc, ← List.append_assoc _ right,
        hrest]
      exact List.takeWhile_append_dropWhile.symm
    · simp only [here, Text.width_append, Nat.add_assoc]
    · intro htrims
      have hne : blank ≠ [] := by simpa using hspaced htrims
      exact ⟨_, List.getLast?_eq_some_getLast hne, isBlanks_takeWhile s _ (List.getLast_mem hne)⟩
  | case2 | case3 | case4 => cases h
  | case5 offset first s blank body here hmark c cs hbody r' hr' closed hclosed =>
    rename_i ih
    cases h
    obtain ⟨tail, htail, hcovered, -⟩ := ih hclosed
    have hs : s = blank ++ (c :: cs) := by
      rw [← hbody]
      exact List.takeWhile_append_dropWhile.symm
    have hc : Text.isSpace c = false := by
      have hhead := List.head?_dropWhile_not Text.isSpace s
      rw [show s.dropWhile Text.isSpace = c :: cs from hbody] at hhead
      exact hhead
    have hprint := scanToken_print hr'
    refine ⟨blank ++ r'.value.print.toList ++ tail, ⟨?_, ?_, ?_⟩, ?_, ?_⟩
    · rw [hs, ← scanToken_append hr', hprint]
      nth_rewrite 1 [htail.text]
      simp only [List.append_assoc]
    · rw [hprint]
      refine htail.width.trans ?_
      simp only [here, Text.width_append]
      omega
    · intro htrims
      obtain ⟨x, hx, hspace⟩ := htail.spaced htrims
      refine ⟨x, ?_, hspace⟩
      rw [List.getLast?_append, hx]
      rfl
    · refine .token (isBlanks_takeWhile s) (isLexeme_of_scanToken hr' hc) ?_
      rw [hprint]
      exact hcovered
    · rw [List.append_assoc]
      exact List.prefix_append _ _

lemma opensTrimmed_of_append {s t : List Char} (h : opensTrimmed s = true) :
    opensTrimmed (s ++ t) = true := by
  unfold opensTrimmed at h
  split at h
  · exact h
  · cases h

lemma closesTrimmed_dash {s : List Char} (h : ∃ c ∈ s.getLast?, Text.isSpace c = true) :
    closesTrimmed (s ++ ['-']) = true := by
  obtain ⟨c, hc, hspace⟩ := h
  obtain ⟨t, rfl⟩ := List.getLast?_eq_some_iff.mp hc
  simpa [closesTrimmed, opensTrimmed] using hspace

lemma closesTrimmed_of_ne {s : List Char} (h : ∀ c ∈ s.getLast?, c ≠ '-') :
    closesTrimmed s = false := by
  rw [← List.head?_reverse] at h
  unfold closesTrimmed opensTrimmed
  split
  · rename_i c cs hreverse
    rw [hreverse] at h
    exact absurd rfl (h '-' rfl)
  · rfl

/-- Behind a body that does not end in a dash, the trim marker is the one that has been found. -/
lemma ReadUpTo.closesTrimmed {α : Type} {right s body before : List Char} {offset : Nat}
    {r : Closed α} (h : ReadUpTo right s body offset r)
    (hlast : ∀ c ∈ (before ++ body).getLast?, c ≠ '-') :
    closesTrimmed (before ++ body ++ dash r.trims) = r.trims := by
  cases htrims : r.trims with
  | false =>
    rw [dash, if_neg Bool.false_ne_true, List.append_nil]
    exact closesTrimmed_of_ne hlast
  | true =>
    obtain ⟨c, hc, hspace⟩ := h.spaced htrims
    refine closesTrimmed_dash ⟨c, ?_, hspace⟩
    rw [List.getLast?_append, hc]
    rfl

lemma commentMark_eq_some {right s mark : List Char} {trims : Bool}
    (h : commentMark? right s = some (mark, trims)) :
    ∃ gap, mark = gap ++ dash trims ++ right ∧ mark <+: s ∧
      (gap = [] ∧ trims = false ∨ ∃ b, Text.isSpace b = true ∧ gap = [b] ∧ trims = true) := by
  unfold commentMark? at h
  split at h
  · rename_i c cs
    split_ifs at h with htrim hplain
    · cases h
      rw [Bool.and_eq_true, List.isPrefixOf_iff_prefix] at htrim
      exact ⟨[c], rfl, List.cons_prefix_cons.mpr ⟨rfl, htrim.2⟩, .inr ⟨c, htrim.1, rfl, rfl⟩⟩
    · cases h
      exact ⟨[], rfl, List.isPrefixOf_iff_prefix.mp hplain, .inl ⟨rfl, rfl⟩⟩
  · split_ifs at h with hnil
    cases h
    rw [List.isEmpty_iff] at hnil
    subst hnil
    exact ⟨[], rfl, List.nil_prefix, .inl ⟨rfl, rfl⟩⟩

/-- A comment goes up to the first end of a comment, with a right delimiter behind it. -/
lemma lexComment_read {right s : List Char} {opened offset : Nat} {r : Closed String}
    (h : lexComment right opened offset s = .ok r) :
    ∃ text gap, ReadUpTo right s (text ++ ['*', '/'] ++ gap) offset r ∧
      r.value = String.ofList text ∧ ¬ ['*', '/'] <:+: text ∧
      (gap = [] ∧ r.trims = false ∨ ∃ b, Text.isSpace b = true ∧ gap = [b] ∧ r.trims = true) := by
  unfold lexComment at h
  split at h
  · cases h
  · rename_i text rest hsplit
    split at h
    · cases h
    · rename_i mark trims hmark
      obtain ⟨gap, rfl, ⟨after, hafter⟩, hgap⟩ := commentMark_eq_some hmark
      cases h
      refine ⟨text, gap, ⟨?_, ?_, ?_⟩, rfl, not_infix_of_splitAt (by simp) hsplit, hgap⟩
      · rw [← splitAt_append hsplit, ← hafter, List.drop_left]
        simp only [List.append_assoc]
      · simp only [Text.width_append, Text.width_cons, Text.width_nil,
          show '*'.utf8Size = 1 from rfl, show '/'.utf8Size = 1 from rfl]
        omega
      · intro htrims
        rcases hgap with ⟨-, hfalse⟩ | ⟨b, hb, rfl, -⟩
        · rw [hfalse] at htrims
          contradiction
        · exact ⟨b, by simp, hb⟩

/-! ### Between delimiters -/

/-- The item of what stands between two delimiters, of which the left one is at `opened`. -/
inductive Enclosed (d : Delimiters) (opened : Nat) (inner : List Char) : Item → Prop
  /-- The comment ends with the first mark for it. Blanks stand only beside trim markers. -/
  | comment {before text after : List Char} :
      inner = before ++ ['/', '*'] ++ text ++ ['*', '/'] ++ after →
      (before = [] ∨ ∃ b, Text.isSpace b = true ∧ before = ['-', b]) →
      (after = [] ∨ ∃ b, Text.isSpace b = true ∧ after = [b, '-']) →
      ¬ ['*', '/'] <:+: text →
      Enclosed d opened inner (.comment opened (String.ofList text))
  /-- Everything but the trim markers is tokens and blanks. -/
  | action {body : List Char} {tokens : List Token} :
      inner = dash (opensTrimmed inner) ++ body ++ dash (closesTrimmed inner) →
      Covered (opened + Text.width (d.left.toList ++ dash (opensTrimmed inner))) true body tokens →
      Enclosed d opened inner (.action opened tokens)

lemma width_dash (trims : Bool) : Text.width (dash trims) = if trims then 1 else 0 := by
  cases trims <;> rfl

lemma utf8Size_of_isSpace {b : Char} (h : Text.isSpace b = true) : b.utf8Size = 1 := by
  simp only [Text.isSpace, Bool.or_eq_true, decide_eq_true_eq] at h
  rcases h with ((rfl | rfl) | rfl) | rfl <;> rfl

/-- A text that begins with a trim marker begins with a dash and a blank. -/
lemma eq_of_opensTrimmed {s : List Char} (h : opensTrimmed s = true) :
    ∃ b t, s = '-' :: b :: t ∧ Text.isSpace b = true := by
  unfold opensTrimmed at h
  split at h
  · exact ⟨_, _, rfl, h⟩
  · cases h

/-- The beginning of a text decides on the trim marker as the text does, if it holds the marker. -/
lemma opensTrimmed_append {s t : List Char}
    (h : opensTrimmed (s ++ t) = true → opensTrimmed s = true) :
    opensTrimmed (s ++ t) = opensTrimmed s := by
  cases hst : opensTrimmed (s ++ t) with
  | true => exact (h hst).symm
  | false =>
    cases hs : opensTrimmed s with
    | true => rw [opensTrimmed_of_append hs] at hst; contradiction
    | false => rfl

/-- What stands before the comment mark: nothing, or a trim marker and a blank. -/
lemma exists_before_comment (s : List Char) :
    ∃ before, s = before ++ s.drop (if opensTrimmed s then 2 else 0) ∧
      Text.width before = (if opensTrimmed s then 2 else 0) ∧
      (before = [] ∧ opensTrimmed s = false ∨
        ∃ b, Text.isSpace b = true ∧ before = ['-', b]) := by
  cases htrim : opensTrimmed s with
  | false => exact ⟨[], rfl, rfl, .inl ⟨rfl, rfl⟩⟩
  | true =>
    obtain ⟨b, t, rfl, hb⟩ := eq_of_opensTrimmed htrim
    refine ⟨['-', b], rfl, ?_, .inr ⟨b, hb, rfl⟩⟩
    simp [utf8Size_of_isSpace hb, show '-'.utf8Size = 1 from rfl]

lemma eq_dash_append (s : List Char) :
    s = dash (opensTrimmed s) ++ s.drop (if opensTrimmed s then 1 else 0) := by
  cases htrim : opensTrimmed s with
  | false => rfl
  | true =>
    obtain ⟨b, t, rfl, -⟩ := eq_of_opensTrimmed htrim
    rfl

/-- What has been read of a text behind a left delimiter, up to the right delimiter and with it. -/
structure ReadEnclosed (d : Delimiters) (opened : Nat) (s inner : List Char) (r : Closed Item) :
    Prop where
  text : s = inner ++ (d.right.toList ++ r.rest)
  width : r.offset = opened + Text.width (d.left.toList ++ inner ++ d.right.toList)
  opens : opensTrimmed s = opensTrimmed inner
  closes : r.trims = closesTrimmed inner
  enclosed : Enclosed d opened inner r.value

variable {d : Delimiters} {opened : Nat} {s : List Char}

lemma readEnclosed_comment {body : List Char} {c : Closed String}
    (hbody : s.drop (if opensTrimmed s then 2 else 0) = '/' :: '*' :: body)
    (h : lexComment d.right.toList opened
      (opened + Text.width d.left.toList + (if opensTrimmed s then 4 else 2)) body = .ok c) :
    ∃ inner, ReadEnclosed d opened s inner
      ⟨.comment opened c.value, c.offset, c.rest, c.trims⟩ := by
  obtain ⟨text, gap, hread, hvalue, hfirst, hgap⟩ := lexComment_read h
  obtain ⟨before, hs, hwidth, hbefore⟩ := exists_before_comment s
  have htext : s = before ++ ['/', '*'] ++ (text ++ ['*', '/'] ++ gap) ++ dash c.trims ++
      (d.right.toList ++ c.rest) := by
    rw [hbody, hread.text] at hs
    rw [hs]
    simp only [List.append_assoc, List.cons_append, List.nil_append]
  refine ⟨_, htext, ?_, ?_, ?_, ?_⟩
  · rw [hread.width]
    simp only [Text.width_append, Text.width_cons, Text.width_nil, hwidth,
      show '*'.utf8Size = 1 from rfl, show '/'.utf8Size = 1 from rfl]
    split <;> omega
  · rw [htext]
    refine opensTrimmed_append fun htrim => ?_
    rw [← htext] at htrim
    rcases hbefore with ⟨-, hfalse⟩ | ⟨b, hb, rfl⟩
    · rw [hfalse] at htrim
      contradiction
    · exact hb
  · refine (hread.closesTrimmed ?_).symm
    intro x hx
    have hend : before ++ ['/', '*'] ++ (text ++ ['*', '/'] ++ gap) =
        before ++ ['/', '*'] ++ text ++ ['*'] ++ ('/' :: gap) := by simp
    rw [hend, List.getLast?_append, Option.or_of_isSome (by simp)] at hx
    rcases hgap with ⟨rfl, -⟩ | ⟨b, hb, rfl, -⟩
    · cases hx
      decide
    · cases hx
      rintro rfl
      contradiction
  · dsimp only
    rw [hvalue]
    refine @Enclosed.comment _ _ _ before text (gap ++ dash c.trims) ?_ ?_ ?_ hfirst
    · simp only [List.append_assoc]
    · exact hbefore.imp (·.1) id
    · rcases hgap with ⟨rfl, htrims⟩ | ⟨b, hb, rfl, htrims⟩
      · exact .inl (by rw [htrims]; rfl)
      · exact .inr ⟨b, hb, by rw [htrims]; rfl⟩

lemma readEnclosed_action {c : Closed (List Token)}
    (h : lexAction d.right.toList opened
      (opened + Text.width d.left.toList + (if opensTrimmed s then 1 else 0)) true
      (s.drop (if opensTrimmed s then 1 else 0)) = .ok c) :
    ∃ inner, ReadEnclosed d opened s inner
      ⟨.action opened c.value, c.offset, c.rest, c.trims⟩ := by
  obtain ⟨body, hread, hcovered, hblank⟩ := lexAction_covered h
  have htext : s = dash (opensTrimmed s) ++ body ++ dash c.trims ++ (d.right.toList ++ c.rest) := by
    have hs := eq_dash_append s
    rw [hread.text] at hs
    simpa only [List.append_assoc] using hs
  -- behind the trim marker stands a blank, which belongs to the body
  have hstart : opensTrimmed s = true → ∃ b t, body = b :: t ∧ Text.isSpace b = true := by
    intro htrim
    obtain ⟨b, t, hs, hb⟩ := eq_of_opensTrimmed htrim
    rw [htrim, if_pos rfl, hs, List.drop_one, List.tail_cons, List.takeWhile_cons_of_pos hb] at hblank
    obtain ⟨u, hu⟩ := hblank
    exact ⟨b, _, hu.symm, hb⟩
  have hopens : opensTrimmed s = opensTrimmed (dash (opensTrimmed s) ++ body ++ dash c.trims) := by
    nth_rewrite 1 [htext]
    refine opensTrimmed_append fun htrim => ?_
    rw [← htext] at htrim
    obtain ⟨b, t, rfl, hb⟩ := hstart htrim
    rw [htrim]
    exact hb
  have hcloses : closesTrimmed (dash (opensTrimmed s) ++ body ++ dash c.trims) = c.trims := by
    refine hread.closesTrimmed fun x hx => ?_
    rw [List.getLast?_append] at hx
    cases hlast : body.getLast? with
    | some y =>
      rw [hlast, Option.some_or] at hx
      exact hcovered.getLast?_ne x (hlast ▸ hx)
    | none =>
      rw [List.getLast?_eq_none_iff] at hlast
      cases htrim : opensTrimmed s with
      | false =>
        rw [hlast, htrim] at hx
        contradiction
      | true =>
        obtain ⟨b, t, hbody, -⟩ := hstart htrim
        rw [hlast] at hbody
        contradiction
  refine ⟨_, htext, ?_, hopens, hcloses.symm, ?_⟩
  · rw [hread.width]
    simp only [Text.width_append, width_dash]
    omega
  · refine @Enclosed.action _ _ _ body _ ?_ ?_
    · rw [← hopens, hcloses]
    · rw [← hopens, Text.width_append, width_dash, ← Nat.add_assoc]
      exact hcovered

/-- The comment or the action behind a left delimiter. -/
lemma exists_readEnclosed {r : Closed Item} (h : lexEnclosed d opened s = .ok r) :
    ∃ inner, ReadEnclosed d opened s inner r := by
  simp only [lexEnclosed] at h
  split at h
  · rename_i hbody
    split at h
    · cases h
    · rename_i hc
      cases h
      exact readEnclosed_comment hbody hc
  · split at h
    · cases h
    · rename_i hc
      cases h
      exact readEnclosed_action hc

/-! ### Texts between actions -/

/-- The text without the blanks at its beginning, if they are trimmed, and these blanks. -/
structure TrimmedStart (trim : Bool) (c lead kept : List Char) : Prop where
  text : c = lead ++ kept
  blanks : IsBlanks lead
  nothing : trim = false → lead = []
  start : trim = true → ∀ x ∈ kept.head?, Text.isSpace x = false

/-- The text without the blanks at its end, if they are trimmed, and these blanks. -/
def TrimmedEnd (trim : Bool) (c kept trail : List Char) : Prop :=
  TrimmedStart trim c.reverse trail.reverse kept.reverse

/-- The items of a text from an offset on: one for what is left of it without the blanks that are
trimmed, unless that is nothing. -/
inductive TextItems (trimStart trimEnd : Bool) (offset : Nat) (c : List Char) : List Item → Prop
  | absent {lead inner trail : List Char} :
      TrimmedStart trimStart c lead inner → TrimmedEnd trimEnd inner [] trail →
      TextItems trimStart trimEnd offset c []
  | kept {lead inner kept trail : List Char} :
      TrimmedStart trimStart c lead inner → TrimmedEnd trimEnd inner kept trail → kept ≠ [] →
      TextItems trimStart trimEnd offset c
        [.text (offset + Text.width lead) (String.ofList kept)]

lemma trimmedStart (trim : Bool) (c : List Char) :
    TrimmedStart trim c (if trim then c.takeWhile Text.isSpace else [])
      (if trim then c.dropWhile Text.isSpace else c) := by
  cases trim with
  | false => exact ⟨rfl, fun _ hx => absurd hx List.not_mem_nil, fun _ => rfl, by simp⟩
  | true =>
    refine ⟨List.takeWhile_append_dropWhile.symm, isBlanks_takeWhile c, by simp, fun _ x hx => ?_⟩
    have hhead := List.head?_dropWhile_not Text.isSpace c
    rw [if_pos rfl, Option.mem_def] at hx
    rw [hx] at hhead
    exact hhead

lemma exists_trimmedEnd (trim : Bool) (c : List Char) :
    ∃ trail, TrimmedEnd trim c
      (if trim then (c.reverse.dropWhile Text.isSpace).reverse else c) trail := by
  have h := trimmedStart trim c.reverse
  refine ⟨(if trim then c.reverse.takeWhile Text.isSpace else []).reverse, ?_⟩
  cases trim with
  | false => exact h
  | true => simpa only [TrimmedEnd, if_true, List.reverse_reverse] using h

/-- A text between actions is one item, or none if nothing is left of it. -/
lemma textItem_items (offset : Nat) (c : List Char) (trimStart trimEnd : Bool) :
    TextItems trimStart trimEnd offset c (textItem offset c trimStart trimEnd) := by
  have hstart := trimmedStart trimStart c
  obtain ⟨trail, hend⟩ := exists_trimmedEnd trimEnd
    (if trimStart then c.dropWhile Text.isSpace else c)
  simp only [textItem]
  generalize (if trimEnd then
    ((if trimStart then c.dropWhile Text.isSpace else c).reverse.dropWhile Text.isSpace).reverse
    else if trimStart then c.dropWhile Text.isSpace else c) = kept at hend ⊢
  by_cases hkept : kept = []
  · rw [hkept] at hend ⊢
    exact .absent hstart hend
  · rw [if_neg (by simpa using hkept)]
    exact .kept hstart hend hkept

/-! ### Sources -/

/-- The source from an offset on consists of the pieces of which these are the items: texts without
a left delimiter, and between them what delimiters enclose. A text is trimmed beside a trim marker,
and `trim` says whether one stands before the offset. -/
inductive Factored (d : Delimiters) : Nat → Bool → List Char → List Item → Prop
  | last {offset : Nat} {trim : Bool} {c : List Char} {texts : List Item} :
      ¬ d.left.toList <:+: c → TextItems trim false offset c texts → Factored d offset trim c texts
  | action {offset : Nat} {trim : Bool} {c inner s : List Char} {texts items : List Item}
      {item : Item} :
      ¬ d.left.toList <:+: c → TextItems trim (opensTrimmed inner) offset c texts →
      Enclosed d (offset + Text.width c) inner item →
      Factored d (offset + Text.width (c ++ d.left.toList ++ inner ++ d.right.toList))
        (closesTrimmed inner) s items →
      Factored d offset trim (c ++ d.left.toList ++ inner ++ d.right.toList ++ s)
        (texts ++ item :: items)

/-- With an empty left delimiter no source can be taken apart. -/
lemma left_ne_nil_of_lexFrom {offset : Nat} {trim : Bool} {s : List Char} {items : List Item}
    (h : lexFrom d offset trim s = .ok items) : d.left.toList ≠ [] := by
  intro hnil
  have hopens : ∀ s : List Char, splitAt? [] s = some ([], s) := fun s => by cases s <;> rfl
  fun_induction lexFrom d offset trim s generalizing items
  case case1 => cases h
  case case2 hsplit =>
    rw [hnil, hopens] at hsplit
    cases hsplit
  case case3 | case4 => cases h
  case case5 hitems ih => exact ih hitems

/-- Behind an offset the items are those of the pieces of the text. -/
lemma lexFrom_factored (hleft : d.left.toList ≠ []) {offset : Nat} {trim : Bool} {s : List Char}
    {items : List Item} (h : lexFrom d offset trim s = .ok items) :
    Factored d offset trim s items := by
  fun_induction lexFrom d offset trim s generalizing items
  case case1 => cases h
  case case2 hsplit =>
    cases h
    exact .last (not_infix_of_splitAt_none hsplit) (textItem_items _ _ _ _)
  case case3 | case4 => cases h
  case case5 s hne before after hsplit closed hclosed items' hitems ih =>
    cases h
    obtain ⟨inner, hread⟩ := exists_readEnclosed hclosed
    have hs : s = before ++ d.left.toList ++ inner ++ d.right.toList ++ closed.rest := by
      rw [← splitAt_append hsplit, hread.text]
      simp only [List.append_assoc]
    rw [hs, hread.opens]
    refine .action (not_infix_of_splitAt hleft hsplit) (textItem_items _ _ _ _) hread.enclosed ?_
    rw [← hread.closes]
    have hoffset := hread.width
    simp only [Text.width_append, ← Nat.add_assoc] at hoffset ⊢
    rw [← hoffset]
    exact ih hitems

/-- Taking a source apart loses nothing: its items are those of its pieces, from its beginning to
its end. -/
theorem Item.ofSource_factored {source : String} {items : List Item} (hleft : d.left ≠ "")
    (h : Item.ofSource d source = .ok items) : Factored d 0 false source.toList items := by
  refine lexFrom_factored ?_ h
  rwa [Ne, String.toList_eq_nil_iff]

/-- Texts that are trimmed at both sides of an action and behind a comment. -/
theorem Item.ofSource_factored_of_trims :
    let d : Delimiters := ⟨"<", ">"⟩
    let source := "é <- .x \"- >\"|f -> b\n</* - */ ->"
    let items : List Item :=
      [.text 0 "é",
       .action 3 [⟨.field ["x"], 6, true⟩, ⟨.string "\"- >\"" "- >", 9, true⟩, ⟨.bar, 14, false⟩,
         ⟨.identifier "f", 15, false⟩],
       .text 20 "b\n", .comment 22 " - "]
    (d.left ≠ "" ∧ Item.ofSource d source = .ok items) ∧
      Factored d 0 false source.toList items := by
  intro d source items
  have hleft : d.left ≠ "" := by decide
  have hsome : (Item.ofSource d source).toOption = some items := by decide +kernel
  have hitems : Item.ofSource d source = .ok items := by
    cases hread : Item.ofSource d source with
    | error fault =>
      rw [hread] at hsome
      cases hsome
    | ok items' =>
      rw [hread] at hsome
      exact congrArg _ (Option.some.inj hsome)
  exact ⟨⟨hleft, hitems⟩, Item.ofSource_factored hleft hitems⟩

end SafeQuery
