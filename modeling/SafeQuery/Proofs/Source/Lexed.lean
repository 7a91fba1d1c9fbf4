import SafeQuery.Proofs.Source.Pieces
import SafeQuery.Proofs.Token.Lexical

/-!
# Items of a source

What is known of an item by itself, `Item.IsLexed`: a text is not empty and holds no left delimiter,
a comment does not hold the mark that ends it, and the tokens of an action belong to the grammar of
tokens. Every item begins behind the one before it, `ofSource_offsets`, so that an item is known by
its offset.
-/

namespace SafeQuery

def Item.offset : Item → Nat
  | text offset _    => offset
  | comment offset _ => offset
  | action offset _  => offset

/-- The tokens belong to the grammar of tokens. -/
def AllLexical (ts : List Token) : Prop := ∀ t ∈ ts, t.kind.IsLexical

lemma AllLexical.of_subset {ts ts' : List Token} (h : AllLexical ts) (hsubset : ts' ⊆ ts) :
    AllLexical ts' :=
  fun t ht => h t (hsubset ht)

/-- The item is one that a source between these delimiters can have. -/
def Item.IsLexed (d : Delimiters) : Item → Prop
  | text _ t    => t.toList ≠ [] ∧ (d.left.toList ≠ [] → ¬ d.left.toList <:+: t.toList)
  | comment _ t => ¬ ['*', '/'] <:+: t.toList
  | action _ ts => AllLexical ts

section Lexed

variable {d : Delimiters} {offset : Nat}

/-- The tokens of an action belong to the grammar of tokens. -/
lemma lexAction_isLexical {right s : List Char} {opened : Nat} {first : Bool}
    {r : Closed (List Token)} (h : lexAction right opened offset first s = .ok r) :
    AllLexical r.value := by
  fun_induction lexAction right opened offset first s generalizing r with
  | case1 =>
    cases h
    exact fun _ ht => absurd ht List.not_mem_nil
  | case2 | case3 | case4 => cases h
  | case5 =>
    rename_i hscan _ hclosed ih
    cases h
    exact List.forall_mem_cons.mpr ⟨scanToken_isLexical hscan, ih hclosed⟩

lemma lexEnclosed_isLexed {opened : Nat} {after : List Char} {r : Closed Item}
    (h : lexEnclosed d opened after = .ok r) : r.value.IsLexed d := by
  simp only [lexEnclosed] at h
  split at h
  · split at h
    · cases h
    · rename_i hcomment
      cases h
      obtain ⟨text, gap, -, hvalue, hfirst, -⟩ := lexComment_read hcomment
      simp only [Item.IsLexed, hvalue, String.toList_ofList]
      exact hfirst
  · split at h
    · cases h
    · rename_i haction
      cases h
      exact lexAction_isLexical haction

/-- What is kept of a text is a part of it. -/
lemma TrimmedEnd.isPart {trimStart trimEnd : Bool} {c lead inner kept trail : List Char}
    (hstart : TrimmedStart trimStart c lead inner) (hend : TrimmedEnd trimEnd inner kept trail) :
    kept <:+: c := by
  have hinner : inner = kept ++ trail := by simpa using congrArg List.reverse hend.text
  exact ⟨lead, trail, by rw [hstart.text, hinner, List.append_assoc]⟩

lemma TextItems.isLexed {trimStart trimEnd : Bool} {c : List Char} {items : List Item}
    (h : TextItems trimStart trimEnd offset c items)
    (hc : d.left.toList ≠ [] → ¬ d.left.toList <:+: c) : ∀ item ∈ items, item.IsLexed d := by
  cases h with
  | absent => exact fun _ hitem => absurd hitem List.not_mem_nil
  | kept hstart hend hne =>
    intro item hitem
    obtain rfl := List.mem_singleton.mp hitem
    simp only [Item.IsLexed, String.toList_ofList]
    exact ⟨hne, fun hleft hpart => hc hleft (hpart.trans (hend.isPart hstart))⟩

/-- The items behind an offset can be those of a source. -/
lemma lexFrom_isLexed {trim : Bool} {s : List Char} {items : List Item}
    (h : lexFrom d offset trim s = .ok items) : ∀ item ∈ items, item.IsLexed d := by
  fun_induction lexFrom d offset trim s generalizing items
  case case1 => cases h
  case case2 hsplit =>
    cases h
    exact (textItem_items _ _ _ _).isLexed fun _ => not_infix_of_splitAt_none hsplit
  case case3 | case4 => cases h
  case case5 hsplit closed hclosed _ hitems ih =>
    cases h
    rw [List.forall_mem_append, List.forall_mem_cons]
    exact ⟨(textItem_items _ _ _ _).isLexed fun hleft => not_infix_of_splitAt hleft hsplit,
      lexEnclosed_isLexed hclosed, ih hitems⟩

/-- The items of a source are as an item is. -/
theorem ofSource_isLexed {source : String} {items : List Item}
    (h : Item.ofSource d source = .ok items) : ∀ item ∈ items, item.IsLexed d :=
  lexFrom_isLexed h

end Lexed

section Offsets

variable {d : Delimiters} {offset : Nat}

lemma width_pos {s : List Char} (h : s ≠ []) : 0 < Text.width s := by
  obtain ⟨c, cs, rfl⟩ := List.exists_cons_of_ne_nil h
  rw [Text.width_cons]
  have := c.utf8Size_pos
  omega

/-- The items of a text begin in it, one behind the other. -/
lemma TextItems.offsets {trimStart trimEnd : Bool} {c : List Char} {items : List Item}
    (h : TextItems trimStart trimEnd offset c items) :
    items.Pairwise (·.offset < ·.offset) ∧
      ∀ item ∈ items, offset ≤ item.offset ∧ item.offset < offset + Text.width c := by
  cases h with
  | absent => exact ⟨.nil, fun _ hitem => absurd hitem List.not_mem_nil⟩
  | @kept lead inner kept trail hstart hend hne =>
    refine ⟨List.pairwise_singleton _ _, fun item hitem => ?_⟩
    obtain rfl := List.mem_singleton.mp hitem
    have hinner : inner = kept ++ trail := by simpa using congrArg List.reverse hend.text
    have hpos := width_pos hne
    rw [hstart.text, hinner]
    simp only [Item.offset, Text.width_append]
    omega

lemma Enclosed.offset_eq {opened : Nat} {inner : List Char} {item : Item}
    (h : Enclosed d opened inner item) : item.offset = opened := by
  cases h <;> rfl

/-- Every item begins behind the one before it. -/
lemma Factored.offsets {trim : Bool} {s : List Char} {items : List Item}
    (hleft : d.left.toList ≠ []) (h : Factored d offset trim s items) :
    items.Pairwise (·.offset < ·.offset) ∧ ∀ item ∈ items, offset ≤ item.offset := by
  induction h with
  | last _ htexts =>
    obtain ⟨hpairs, hbounds⟩ := htexts.offsets
    exact ⟨hpairs, fun item hitem => (hbounds item hitem).1⟩
  | @action offset _ c inner _ texts items item _ htexts henclosed _ ih =>
    obtain ⟨hpairs, hbounds⟩ := htexts.offsets
    have hopened := henclosed.offset_eq
    have hwidth := width_pos hleft
    -- the texts begin before the left delimiter, what follows begins behind the right one
    have hafter : ∀ next ∈ items, offset + Text.width c < next.offset := by
      intro next hnext
      have := ih.2 next hnext
      simp only [Text.width_append] at this
      omega
    rw [List.pairwise_append, List.pairwise_cons, List.forall_mem_append, List.forall_mem_cons]
    refine ⟨⟨hpairs, ⟨fun next hnext => ?_, ih.1⟩, fun text htext => ?_⟩,
      fun text htext => (hbounds text htext).1, by omega, fun next hnext => ?_⟩
    · rw [hopened]
      exact hafter next hnext
    · have htext := (hbounds text htext).2
      rw [List.forall_mem_cons, hopened]
      exact ⟨htext, fun next hnext => htext.trans (hafter next hnext)⟩
    · have := hafter next hnext
      omega

/-- Every item of a source begins behind the one before it. -/
theorem ofSource_offsets {source : String} {items : List Item}
    (h : Item.ofSource d source = .ok items) : items.Pairwise (·.offset < ·.offset) :=
  have hleft := left_ne_nil_of_lexFrom h
  ((lexFrom_factored hleft h).offsets hleft).1

end Offsets

end SafeQuery
