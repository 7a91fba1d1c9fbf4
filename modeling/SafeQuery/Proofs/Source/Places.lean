import Mathlib.Tactic.Common
import SafeQuery.Proofs.Source.Actions
import SafeQuery.Tree.Nesting

/-!
# Places in a source

Where things stand in a source. `TextAt` says that a text stands at an offset, and `Position.IsIn`
that an offset lies between two characters and has the line that it should have: one more than the
line breaks before it. Every item stands at its offset, with its left delimiter if it has one,
`ofSource_isAt`, and so does every token of an action, `Item.IsAt.textAt`. Where a source cannot be
taken apart, the fault lies at a left delimiter or at a character inside an action,
`Item.ofSource_faultAt`.
-/

namespace SafeQuery

/-- The text stands in the source at the offset. -/
def TextAt (source : List Char) (offset : Nat) (text : List Char) : Prop :=
  ∃ before after, source = before ++ (text ++ after) ∧ offset = Text.width before

namespace TextAt

variable {source text text' : List Char} {offset : Nat}

/-- A source stands at its own beginning. -/
lemma start (source : List Char) : TextAt source 0 source := ⟨[], [], by simp, rfl⟩

lemma left (h : TextAt source offset (text ++ text')) : TextAt source offset text := by
  obtain ⟨before, after, rfl, hoffset⟩ := h
  exact ⟨before, text' ++ after, by simp, hoffset⟩

lemma right (h : TextAt source offset (text ++ text')) :
    TextAt source (offset + Text.width text) text' := by
  obtain ⟨before, after, rfl, rfl⟩ := h
  exact ⟨before ++ text, after, by simp, by simp⟩

/-- The text in the middle of another one. -/
lemma middle {lead trail : List Char} (h : TextAt source offset (lead ++ (text ++ trail))) :
    TextAt source (offset + Text.width lead) text := h.right.left

lemma head {c : Char} {cs : List Char} (h : TextAt source offset (c :: cs)) :
    TextAt source offset [c] := by
  rw [← List.singleton_append] at h
  exact h.left

end TextAt

/-! ### Lines -/

/-- The position is one of the source: it does not lie behind the end, whole characters stand before
it, and its line is one more than the line breaks among them. -/
structure Position.IsIn (source : String) (pos : Position) : Prop where
  bounded : pos.offset ≤ source.utf8ByteSize
  between : ∃ before after : String, source = before ++ after ∧
    pos.offset = before.utf8ByteSize ∧ pos.line = before.toList.count '\n' + 1

lemma Text.width_toList (s : String) : Text.width s.toList = s.utf8ByteSize := by
  have hwidth : ∀ cs : List Char, Text.width cs = (String.ofList cs).utf8ByteSize := by
    intro cs
    induction cs with
    | nil => rfl
    | cons c cs ih =>
      rw [Text.width_cons, ih, String.ofList_cons, String.utf8ByteSize_append,
        String.utf8ByteSize_singleton]
  rw [hwidth, String.ofList_toList]

/-- Line breaks of a rest lie in the rest. -/
lemma le_of_mem_lineBreaks {offset b : Nat} {cs : List Char} (h : b ∈ lineBreaks offset cs) :
    offset ≤ b := by
  induction cs generalizing offset with
  | nil => cases h
  | cons c cs ih =>
    simp only [lineBreaks] at h
    split at h
    · rcases List.mem_cons.mp h with rfl | h
      · exact Nat.le_refl _
      · exact Nat.le_of_add_right_le (ih h)
    · exact Nat.le_of_add_right_le (ih h)

/-- The line breaks of a text that lie before an offset are those of the characters before it. -/
lemma countP_lineBreaks (before after : List Char) (offset : Nat) :
    (lineBreaks offset (before ++ after)).countP (· < offset + Text.width before) =
      before.count '\n' := by
  induction before generalizing offset with
  | nil =>
    rw [List.nil_append, Text.width_nil, Nat.add_zero, List.count_nil, List.countP_eq_zero]
    intro b hb
    simpa using le_of_mem_lineBreaks hb
  | cons c before ih =>
    have hrest := ih (offset + c.utf8Size)
    rw [Nat.add_assoc, ← Text.width_cons] at hrest
    simp only [List.cons_append, lineBreaks]
    split
    · rename_i hbreak
      have hfirst : offset < offset + Text.width (c :: before) := by
        have := c.utf8Size_pos
        rw [Text.width_cons]
        omega
      rw [List.countP_cons_of_pos (by simpa using hfirst), hrest, hbreak, List.count_cons_self]
    · rename_i hbreak
      rw [hrest, List.count_cons_of_ne hbreak]

/-- Where a text stands, the position with the line that is found is one of the source. -/
theorem TextAt.isIn {source : String} {offset : Nat} {text : List Char}
    (h : TextAt source.toList offset text) :
    (⟨offset, lineIn source offset⟩ : Position).IsIn source := by
  obtain ⟨before, after, hsource, rfl⟩ := h
  have hsplit : source = String.ofList before ++ String.ofList (text ++ after) := by
    rw [← String.ofList_append, ← hsource, String.ofList_toList]
  have hwidth : Text.width before = (String.ofList before).utf8ByteSize := by
    rw [← Text.width_toList, String.toList_ofList]
  have hline : lineIn source (Text.width before) = before.count '\n' + 1 := by
    have hcount := countP_lineBreaks before (text ++ after) 0
    rw [Nat.zero_add, ← hsource] at hcount
    rw [lineIn, lineAt, hcount]
  refine ⟨?_, String.ofList before, String.ofList (text ++ after), hsplit, hwidth, ?_⟩
  · rw [hsplit, String.utf8ByteSize_append, ← hwidth]
    exact Nat.le_add_right _ _
  · rw [String.toList_ofList]
    exact hline

/-! ### Items -/

def Item.tokens : Item → List Token
  | action _ ts => ts
  | _           => []

/-- The tokens of an item can be scanned one behind the other. -/
lemma ofSource_scannable {d : Delimiters} {source : String} {items : List Item}
    (h : Item.ofSource d source = .ok items) : ∀ item ∈ items, Scannable item.tokens := by
  intro item hitem
  cases item with
  | text | comment => exact ⟨fun _ ht => absurd ht List.not_mem_nil, .nil⟩
  | action => exact lexFrom_action h hitem

/-- The item stands in the source at its offset: a text by itself, and a comment or an action with
its delimiters. -/
inductive Item.IsAt (d : Delimiters) (source : List Char) : Item → Prop
  | text {offset : Nat} {t : String} :
      TextAt source offset t.toList → IsAt d source (.text offset t)
  | enclosed {offset : Nat} {inner : List Char} {item : Item} :
      TextAt source offset (d.left.toList ++ (inner ++ d.right.toList)) →
      Enclosed d offset inner item → IsAt d source item

section Items

variable {d : Delimiters} {source s : List Char} {offset : Nat}

/-- What is left of a text between actions stands where its item says. -/
lemma TextItems.isAt {trimStart trimEnd : Bool} {c : List Char} {items : List Item}
    (h : TextItems trimStart trimEnd offset c items) (hc : TextAt source offset c) :
    ∀ item ∈ items, item.IsAt d source := by
  cases h with
  | absent => exact fun _ hitem => absurd hitem List.not_mem_nil
  | @kept lead inner kept trail hstart hend hne =>
    intro item hitem
    obtain rfl := List.mem_singleton.mp hitem
    have hinner : inner = kept ++ trail := by simpa using congrArg List.reverse hend.text
    rw [hstart.text, hinner] at hc
    refine .text ?_
    rw [String.toList_ofList]
    exact hc.middle

/-- The items of pieces stand where the pieces do. -/
lemma Factored.isAt {trim : Bool} {items : List Item} (h : Factored d offset trim s items)
    (hs : TextAt source offset s) : ∀ item ∈ items, item.IsAt d source := by
  induction h with
  | last _ htexts => exact htexts.isAt hs
  | action _ htexts henclosed _ ih =>
    rw [List.forall_mem_append, List.forall_mem_cons]
    have hpiece := hs.left
    rw [List.append_assoc, List.append_assoc] at hpiece
    exact ⟨htexts.isAt hpiece.left, .enclosed hpiece.right henclosed, ih hs.right⟩

/-- The items of a source stand in it at their offsets. -/
theorem ofSource_isAt {source : String} {items : List Item}
    (h : Item.ofSource d source = .ok items) : ∀ item ∈ items, item.IsAt d source.toList :=
  (lexFrom_factored (left_ne_nil_of_lexFrom h) h).isAt (.start _)

/-- The tokens of an action stand where they say. -/
lemma Covered.textAt {first : Bool} {tokens : List Token} (h : Covered offset first s tokens)
    (hs : TextAt source offset s) :
    ∀ t ∈ tokens, IsLexeme t.kind.print.toList ∧ TextAt source t.offset t.kind.print.toList := by
  induction h with
  | blanks => exact fun _ ht => absurd ht List.not_mem_nil
  | token _ hkind _ ih =>
    rw [List.append_assoc] at hs
    rw [List.forall_mem_cons]
    refine ⟨⟨hkind, hs.middle⟩, ih ?_⟩
    exact hs.right.right

/-- The tokens of an item stand at their offsets. -/
lemma Item.IsAt.textAt {item : Item} (h : item.IsAt d source) :
    ∀ t ∈ item.tokens,
      IsLexeme t.kind.print.toList ∧ TextAt source t.offset t.kind.print.toList := by
  cases h with
  | text => exact fun _ ht => absurd ht List.not_mem_nil
  | enclosed htext henclosed =>
    cases henclosed with
    | comment => exact fun _ ht => absurd ht List.not_mem_nil
    | action hinner hcovered =>
      refine hcovered.textAt ?_
      rw [hinner, List.append_assoc, List.append_assoc, ← List.append_assoc d.left.toList] at htext
      exact htext.middle

end Items

/-! ### Faults -/

/-- A fault can lie at the offset: at the beginning of the source, at a left delimiter, or at a
character that is not blank. -/
inductive FaultAt (d : Delimiters) (source : List Char) : Nat → Prop
  | start : FaultAt d source 0
  | delimiter {offset : Nat} : TextAt source offset d.left.toList → FaultAt d source offset
  | character {offset : Nat} {c : Char} :
      TextAt source offset [c] → Text.isSpace c = false → FaultAt d source offset

/-- A fault lies between two characters of the source, where it has the line that is found. -/
lemma FaultAt.isIn {d : Delimiters} {source : String} {offset : Nat}
    (h : FaultAt d source.toList offset) :
    (⟨offset, lineIn source offset⟩ : Position).IsIn source := by
  cases h with
  | start => exact (TextAt.start _).isIn
  | delimiter htext | character htext => exact htext.isIn

section Faults

variable {d : Delimiters} {source s : List Char} {offset opened : Nat} {fault : SyntaxFault}

/-- What stands behind blanks begins with a character that is not blank. -/
lemma eq_blanks_append {c : Char} {cs : List Char} (h : s.dropWhile Text.isSpace = c :: cs) :
    s = s.takeWhile Text.isSpace ++ c :: cs ∧ Text.isSpace c = false := by
  constructor
  · rw [← h, List.takeWhile_append_dropWhile]
  · have hhead := List.head?_dropWhile_not Text.isSpace s
    rwa [h] at hhead

/-- The tokens of an action cannot be read on where it has been opened, or at a character. -/
lemma lexAction_faultAt {right : List Char} {first : Bool}
    (h : lexAction right opened offset first s = .error fault) (hs : TextAt source offset s)
    (hopened : TextAt source opened d.left.toList) : FaultAt d source fault.offset := by
  fun_induction lexAction right opened offset first s with
  | case1 | case5 => cases h
  | case2 =>
    cases h
    exact .delimiter hopened
  | case3 offset first s blank body here hmark c cs hbody =>
    cases h
    obtain ⟨hsplit, hblank⟩ := eq_blanks_append hbody
    rw [hsplit] at hs
    exact .character hs.right.head hblank
  | case4 offset first s blank body here hmark c cs hbody r hscan fault' hrest ih =>
    cases h
    rw [(eq_blanks_append hbody).1, ← scanToken_append hscan] at hs
    exact ih hrest hs.right.right

lemma lexComment_offset {right : List Char} (h : lexComment right opened offset s = .error fault) :
    fault.offset = opened := by
  unfold lexComment at h
  split at h
  · cases h
    rfl
  · split at h <;> cases h
    rfl

lemma lexEnclosed_faultAt (h : lexEnclosed d opened s = .error fault)
    (hs : TextAt source opened (d.left.toList ++ s)) : FaultAt d source fault.offset := by
  simp only [lexEnclosed] at h
  split at h
  · split at h
    · rename_i hcomment
      cases h
      rw [lexComment_offset hcomment]
      exact .delimiter hs.left
    · cases h
  · split at h
    · rename_i haction
      cases h
      refine lexAction_faultAt haction ?_ hs.left
      -- the tokens begin behind the trim marker
      have hinside := hs.right
      rw [eq_dash_append s] at hinside
      have hbody := hinside.right
      rwa [width_dash] at hbody
    · cases h

/-- A fault behind an offset is told at a place of the source. -/
lemma lexFrom_faultAt {trim : Bool} (h : lexFrom d offset trim s = .error fault)
    (hs : TextAt source offset s) : FaultAt d source fault.offset := by
  fun_induction lexFrom d offset trim s
  case case1 hnil =>
    cases h
    refine .delimiter ?_
    rw [hnil.1]
    exact hs.left
  case case2 | case5 => cases h
  case case3 hsplit _ hfault =>
    cases h
    rw [← splitAt_append hsplit, List.append_assoc] at hs
    exact lexEnclosed_faultAt hfault hs.right
  case case4 hsplit closed hclosed _ hfault ih =>
    cases h
    obtain ⟨inner, hread⟩ := exists_readEnclosed hclosed
    rw [← splitAt_append hsplit, List.append_assoc, hread.text] at hs
    have hrest := hs.right
    rw [← List.append_assoc inner, ← List.append_assoc, ← List.append_assoc] at hrest
    refine ih hfault ?_
    rw [hread.width]
    exact hrest.right

/-- A source that cannot be taken apart has its fault at a place where one can lie. -/
theorem Item.ofSource_faultAt {source : String} (h : Item.ofSource d source = .error fault) :
    FaultAt d source.toList fault.offset := lexFrom_faultAt h (.start _)

end Faults

end SafeQuery
