import SafeQuery.Proofs.Tree.Conservation
import SafeQuery.Proofs.Tree.Definitions
import SafeQuery.Proofs.Tree.Faults
import SafeQuery.Template

/-!
# Trees in their source

The positions of the trees of a source are right. Every one of them lies in the source and has the
line that it should have, every node stands where its item does, and every part of a pipeline where
the token does that it begins with, `Tree.IsLocated`. The grammar of items gives the positions of
blocks, `Spells.forall_positions`. A source that is refused is refused with the line of the fault.
-/

namespace SafeQuery

/-- The words of the pipeline are tokens at the end of these, and what begins at a word has the
position of its token. -/
def PipelineOf.EndsAt (ctx : PipelineContext) (tokens : List Token) (p : Pipeline) : Prop :=
  ∃ ts, ts <:+ tokens ∧ (p.words false).map (·.kind) = ts.map (·.kind) ∧
    List.Forall₂ (BeginAt ctx) ts p.begins

def Node.pipe? : Node → Option Pipeline
  | action _ pipe       => some pipe
  | branch _ _ pipe _ _ => some pipe
  | call _ _ argument   => argument
  | _                   => none

section Pipelines

variable {ctx : PipelineContext} {o : Nat} {clause : Clause} {scope scope' : List String}
  {ts tokens : List Token} {p : Pipeline} {item : Item} {n : Node}

lemma endsAt_of_ofTokens (hts : Scannable tokens) (hsuffix : ts <:+ tokens)
    (h : PipelineOf.ofTokens (ctx.inAction o) clause scope ts = .ok (p, scope')) :
    p.EndsAt ctx tokens := by
  have hforms := (hts.of_suffix hsuffix).ofTokens_eq_ok_iff.mp h
  exact ⟨ts, hsuffix, hforms.kinds false, hforms.begins⟩

/-- The pipeline behind the name that a clause begins with. -/
lemma endsAt_of_clauseName {t : Token} {rest : List Token} {name : String}
    (hts : Scannable (t :: ts)) (hname : Nesting.clauseName clause o ts = .ok (name, rest))
    (h : PipelineOf.ofTokens (ctx.inAction o) clause scope rest = .ok (p, scope')) :
    p.EndsAt ctx (t :: ts) :=
  endsAt_of_ofTokens hts ((Nesting.clauseName_suffix hname).trans (List.suffix_cons t ts)) h

/-- All positions of the pipeline are those of the tokens. -/
lemma PipelineOf.EndsAt.exists_token (h : p.EndsAt ctx tokens) {pos : Position}
    (hpos : pos ∈ p.positions) : ∃ t ∈ tokens, pos = ctx.positionOf t.offset := by
  obtain ⟨ts, hsuffix, -, hbegins⟩ := h
  rw [← p.begins_flatten] at hpos
  obtain ⟨t, ht, heq⟩ := exists_token_of_begins hbegins hpos
  exact ⟨t, hsuffix.subset ht, heq⟩

/-- The item is read as the node, which stands where the item does, and the parts of its pipeline
stand where the tokens do. -/
structure ReadFrom (ctx : PipelineContext) (item : Item) (n : Node) : Prop where
  becomes : Becomes ctx item n
  pos : n.pos = ctx.positionOf item.offset
  pipe : ∀ p ∈ n.pipe?, p.EndsAt ctx item.tokens

lemma Leaf.readFrom {place : Enclosure} (h : Leaf ctx place scope item n scope')
    (hitem : Scannable item.tokens) : ReadFrom ctx item n := by
  refine ⟨.leaf h, by cases h <;> rfl, ?_⟩
  cases h with
  | text | comment | call | breakLoop | continueLoop => simp [Node.pipe?]
  | action hp =>
    rintro p ⟨⟩
    exact endsAt_of_ofTokens hitem List.suffix_rfl hp
  | callWith hname hp =>
    rintro p ⟨⟩
    exact endsAt_of_clauseName hitem hname hp

lemma Becomes.readFrom (h : Becomes ctx item n) (hitem : Scannable item.tokens) :
    ReadFrom ctx item n := by
  cases h with
  | leaf hleaf => exact hleaf.readFrom hitem
  | branch hp =>
    refine ⟨.branch hp, rfl, ?_⟩
    rintro p ⟨⟩
    exact endsAt_of_ofTokens hitem (List.suffix_cons _ _) hp
  | chained hp =>
    refine ⟨.chained hp, rfl, ?_⟩
    rintro p ⟨⟩
    exact endsAt_of_ofTokens hitem ((List.suffix_cons _ _).trans (List.suffix_cons _ _)) hp
  | block hname hp =>
    refine ⟨.block hname hp, rfl, ?_⟩
    rintro p ⟨⟩
    exact endsAt_of_clauseName hitem hname hp

end Pipelines

/-! ### Sections -/

/-- The tokens of the item can be scanned, and this holds of the positions of the item and its
tokens. -/
structure Item.AllAt (ctx : PipelineContext) (P : Position → Prop) (item : Item) : Prop where
  scannable : Scannable item.tokens
  here : P (ctx.positionOf item.offset)
  tokens : ∀ t ∈ item.tokens, P (ctx.positionOf t.offset)

def Section.positions : Section → List Position
  | statements nodes    => nodesPositions nodes
  | tail _ none         => []
  | tail _ (some block) => block.pos :: nodesPositions block.nodes

lemma positions_branch (kind : Control) (pos : Position) (pipe : Pipeline) (body : Block)
    (otherwise : Option Block) :
    (Node.branch kind pos pipe body otherwise).positions =
      pos :: (pipe.positions ++ body.pos ::
        (nodesPositions body.nodes ++ (Section.tail kind otherwise).positions)) := by
  cases otherwise with
  | none => simp [Node.positions, Section.positions]
  | some b => simp [Node.positions, Section.positions]

section Sections

variable {ctx : PipelineContext} {place : Enclosure} {scope scope' : List String}
  {P : Position → Prop}

lemma Item.AllAt.pipeline {item : Item} {p : Pipeline} (h : item.AllAt ctx P)
    (hp : p.EndsAt ctx item.tokens) : ∀ pos ∈ p.positions, P pos := by
  intro pos hpos
  obtain ⟨t, ht, rfl⟩ := hp.exists_token hpos
  exact h.tokens t ht

/-- What holds at an item and its tokens holds at all positions of the statement that it makes. -/
lemma Leaf.forall_positions {item : Item} {n : Node} (h : Leaf ctx place scope item n scope')
    (hitem : item.AllAt ctx P) : ∀ pos ∈ n.positions, P pos := by
  have hpipe := (h.readFrom hitem.scannable).pipe
  cases h with
  | text | comment | call | breakLoop | continueLoop =>
    simp only [Node.positions, List.forall_mem_singleton]
    exact hitem.here
  | action | callWith =>
    simp only [Node.positions, List.forall_mem_cons]
    exact ⟨hitem.here, hitem.pipeline (hpipe _ rfl)⟩

/-- What holds of the positions of items and their tokens holds of the positions of the section that
the items spell and of the trees that are defined in it. -/
theorem Spells.forall_positions {items : List Item} {part : Section} {defs : List Tree}
    (h : Spells ctx place scope items part defs scope')
    (hitems : ∀ item ∈ items, item.AllAt ctx P) :
    (∀ pos ∈ part.positions, P pos) ∧ ∀ t ∈ defs, ∀ pos ∈ t.positions, P pos := by
  induction h with
  | nil | finish => simp [Section.positions, nodesPositions]
  | leaf hleaf _ ih =>
    obtain ⟨hitem, hitems⟩ := List.forall_mem_cons.mp hitems
    obtain ⟨hnodes, hdefs⟩ := ih hitems
    simp only [Section.positions, nodesPositions, List.forall_mem_append]
    exact ⟨⟨hleaf.forall_positions hitem, hnodes⟩, hdefs⟩
  | branch hp _ _ _ ihbody ihtail ih =>
    simp only [List.forall_mem_cons, List.forall_mem_append] at hitems
    obtain ⟨hitem, hbodyItems, htailItems, hitems⟩ := hitems
    obtain ⟨hbody, hbodyDefs⟩ := ihbody hbodyItems
    obtain ⟨htail, htailDefs⟩ := ihtail htailItems
    obtain ⟨hnodes, hdefs⟩ := ih hitems
    have hpipe := endsAt_of_ofTokens hitem.scannable (List.suffix_cons _ _) hp
    simp only [Section.positions, nodesPositions, positions_branch, List.forall_mem_append,
      List.forall_mem_cons]
    exact ⟨⟨⟨hitem.here, hitem.pipeline hpipe, hitem.here, hbody, htail⟩, hnodes⟩, hbodyDefs,
      htailDefs, hdefs⟩
  | define _ _ _ ihbody ih =>
    simp only [List.forall_mem_cons, List.forall_mem_append] at hitems
    obtain ⟨hitem, hbodyItems, -, hitems⟩ := hitems
    obtain ⟨hbody, hbodyDefs⟩ := ihbody hbodyItems
    obtain ⟨hnodes, hdefs⟩ := ih hitems
    simp only [List.forall_mem_append, List.forall_mem_cons]
    exact ⟨hnodes, hbodyDefs, List.forall_mem_cons.mpr ⟨hitem.here, hbody⟩, hdefs⟩
  | block hname hp _ _ ihbody ih =>
    simp only [List.forall_mem_cons, List.forall_mem_append] at hitems
    obtain ⟨hitem, hbodyItems, -, hitems⟩ := hitems
    obtain ⟨hbody, hbodyDefs⟩ := ihbody hbodyItems
    obtain ⟨hnodes, hdefs⟩ := ih hitems
    have hpipe := endsAt_of_clauseName hitem.scannable hname hp
    simp only [Section.positions, nodesPositions, Node.positions, List.forall_mem_append,
      List.forall_mem_cons]
    exact ⟨⟨⟨hitem.here, hitem.pipeline hpipe⟩, hnodes⟩, hbodyDefs,
      List.forall_mem_cons.mpr ⟨hitem.here, hbody⟩, hdefs⟩
  | otherwise _ ih =>
    simp only [List.forall_mem_cons, List.forall_mem_append] at hitems
    obtain ⟨hitem, hitems, -⟩ := hitems
    obtain ⟨hnodes, hdefs⟩ := ih hitems
    simp only [Section.positions, List.forall_mem_cons]
    exact ⟨⟨hitem.here, hnodes⟩, hdefs⟩
  | chained _ hp _ _ ihbody ihtail =>
    simp only [List.forall_mem_cons, List.forall_mem_append] at hitems
    obtain ⟨hitem, hbodyItems, htailItems⟩ := hitems
    obtain ⟨hbody, hbodyDefs⟩ := ihbody hbodyItems
    obtain ⟨htail, htailDefs⟩ := ihtail htailItems
    have hpipe := endsAt_of_ofTokens hitem.scannable
      ((List.suffix_cons _ _).trans (List.suffix_cons _ _)) hp
    simp only [Section.positions, nodesPositions, positions_branch, List.forall_mem_append,
      List.forall_mem_cons, List.append_nil]
    exact ⟨⟨hitem.here, hitem.here, hitem.pipeline hpipe, hitem.here, hbody, htail⟩, hbodyDefs,
      htailDefs⟩

end Sections

/-! ### Sources -/

/-- The items are those of the pieces of the source, each begins behind the one before it, and the
items and their tokens stand in the source at their offsets. -/
structure LaidOut (d : Delimiters) (source : String) (items : List Item) : Prop where
  factored : d.left ≠ "" → Factored d 0 false source.toList items
  offsets : items.Pairwise (·.offset < ·.offset)
  isAt : ∀ item ∈ items, item.IsAt d source.toList
  textAt : ∀ item ∈ items, ∀ t ∈ item.tokens,
    IsLexeme t.kind.print.toList ∧ TextAt source.toList t.offset t.kind.print.toList

/-- The positions of the tree are right: they are all positions of the source, also those of the
calls of the encoder, which move no node, and the nodes stand where the items do that they are read
from, one behind the other. -/
structure Tree.IsLocated (ctx : PipelineContext) (source : String) (items : List Item) (t : Tree) :
    Prop where
  positions : ∀ pos ∈ t.positions, pos.IsIn source
  hooked : ∀ pos ∈ t.withHooks.positions, pos.IsIn source
  unmoved : t.withHooks.walk.map Node.pos = t.walk.map Node.pos
  nodes : ∃ read : List Item, read.Sublist items ∧ List.Forall₂ (ReadFrom ctx) read t.walk

section Source

variable {d : Delimiters} {isFunction : String → Bool} {name source : String} {items : List Item}
  {trees : Dict Tree}

lemma ofSource_laidOut (h : Item.ofSource d source = .ok items) : LaidOut d source items where
  factored hleft := lexFrom_factored (by simpa using hleft) h
  offsets := ofSource_offsets h
  isAt := ofSource_isAt h
  textAt item hitem := (ofSource_isAt h item hitem).textAt

lemma Item.IsAt.isIn {item : Item} (h : item.IsAt d source.toList) :
    (⟨item.offset, lineIn source item.offset⟩ : Position).IsIn source := by
  cases h with
  | text htext => exact htext.isIn
  | enclosed htext henclosed =>
    rw [henclosed.offset_eq]
    exact htext.isIn

/-- The positions of the items of a source and their tokens are positions of the source. -/
lemma ofSource_allAt (h : Item.ofSource d source = .ok items) :
    ∀ item ∈ items, item.AllAt (.ofSource isFunction source) (·.IsIn source) := by
  intro item hitem
  have hat := ofSource_isAt h item hitem
  exact ⟨ofSource_scannable h item hitem, hat.isIn, fun t ht => (hat.textAt t ht).2.isIn⟩

/-- The trees of a source are what the grammar gives, put together. -/
lemma ofSource_spells (h : Tree.ofSource d isFunction name source = .ok trees) :
    ∃ (items : List Item) (nodes : List Node) (inner : List Tree) (scope : List String),
      Item.ofSource d source = .ok items ∧
      Spells (.ofSource isFunction source) .main ["$"] items (.statements nodes) inner scope ∧
      (inner ++ [Tree.mk name ⟨(PipelineContext.ofSource isFunction source).positionOf 0,
        nodes⟩]).foldlM addTree .empty = .ok trees := by
  cases hdefinitions : Tree.definitions d isFunction name source with
  | error fault =>
    obtain ⟨fault', hfault, -⟩ := ofSource_eq_error hdefinitions
    rw [hfault] at h
    cases h
  | ok defs =>
    rw [ofSource_eq_foldlM hdefinitions] at h
    obtain ⟨items, nodes, inner, scope, hitems, hspelled, rfl⟩ := definitions_spelled hdefinitions
    exact ⟨items, nodes, inner, scope, hitems, hspelled, h⟩

/-- The trees of a source are located in it. -/
lemma ofSource_isLocated (h : Tree.ofSource d isFunction name source = .ok trees) :
    ∃ items, Item.ofSource d source = .ok items ∧
      ∀ e ∈ trees.entries, e.2.IsLocated (.ofSource isFunction source) source items := by
  obtain ⟨items, nodes, inner, scope, hitems, hspelled, htrees⟩ := ofSource_spells h
  refine ⟨items, hitems, ?_⟩
  obtain ⟨hmain, hinner⟩ := hspelled.forall_positions (ofSource_allAt hitems)
  obtain ⟨hmainOrder, hinnerOrder⟩ := hspelled.inOrder
  have hlocated : ∀ t : Tree, (∀ pos ∈ t.positions, pos.IsIn source) →
      InOrder (.ofSource isFunction source) items t.walk →
      t.IsLocated (.ofSource isFunction source) source items := by
    rintro t hpositions ⟨read, hread, hall⟩
    refine ⟨hpositions, fun pos hpos => hpositions pos (t.positions_withHooks hpos),
      t.walk_pos_withHooks, read, hread, ?_⟩
    have hscannable : ∀ item ∈ read, Scannable item.tokens :=
      fun item hitem => ofSource_scannable hitems item (hread.subset hitem)
    exact ((List.forall₂_and_left read _).mpr ⟨hscannable, hall⟩).imp
      fun item n hbecomes => hbecomes.2.readFrom hbecomes.1
  refine foldlM_addTree_keeps htrees ?_ (by simp [Dict.empty])
  rw [List.forall_mem_append, List.forall_mem_singleton]
  have hroot := (TextAt.start source.toList).isIn
  exact ⟨fun t ht => hlocated t (hinner t ht) (hinnerOrder t ht),
    hlocated _ (List.forall_mem_cons.mpr ⟨hroot, hmain⟩) hmainOrder⟩

/-- A source that a template refuses is refused with the line of its fault. -/
lemma Template.withSource_eq_error {t : Template} {e : Error}
    (h : t.withSource name source = .error e) :
    ∃ fault, Tree.ofSource t.delimiters t.isCallable name source = .error fault ∧
      e = .source name (lineIn source fault.offset) fault.cause := by
  unfold withSource at h
  split at h
  · cases h
  · rename_i fault hfault
    cases h
    exact ⟨fault, hfault, rfl⟩

/-- The positions of a source are right everywhere: those in its trees, and that of the fault where
it is refused. -/
theorem Tree.ofSource_located (d : Delimiters) (isFunction : String → Bool)
    (name source : String) :
    (∀ trees, Tree.ofSource d isFunction name source = .ok trees →
      ∃ items, Item.ofSource d source = .ok items ∧ LaidOut d source items ∧
        ∀ e ∈ trees.entries, e.2.IsLocated (.ofSource isFunction source) source items) ∧
    (∀ fault, Tree.ofSource d isFunction name source = .error fault →
      FaultAt d source.toList fault.offset ∧
        (⟨fault.offset, lineIn source fault.offset⟩ : Position).IsIn source) ∧
    ∀ (t : Template) (e : Error), t.withSource name source = .error e →
      ∃ (fault : SyntaxFault) (line : Nat),
        Tree.ofSource t.delimiters t.isCallable name source = .error fault ∧
        (⟨fault.offset, line⟩ : Position).IsIn source ∧ e = .source name line fault.cause := by
  refine ⟨fun trees h => ?_, fun fault h => ?_, fun t e h => ?_⟩
  · obtain ⟨items, hitems, htrees⟩ := ofSource_isLocated h
    exact ⟨items, hitems, ofSource_laidOut hitems, htrees⟩
  · have hfault := Tree.ofSource_faultAt h
    exact ⟨hfault, hfault.isIn⟩
  · obtain ⟨fault, hfault, rfl⟩ := Template.withSource_eq_error h
    exact ⟨fault, _, hfault, (Tree.ofSource_faultAt hfault).isIn, rfl⟩

end Source

/-- Trims at both sides, a row of branches, a chain behind parentheses and a definition, in six
lines; and a variable in the fourth line that has not been declared. -/
theorem Tree.ofSource_located_of_lines :
    let isFunction : String → Bool := fun f => f = "len" || f = "f"
    let source := "é \n\x7b\x7b- if .a\x7d\x7d\n\x7b\x7b$x := (len .b).c | f\x7d\x7d\n" ++
      "\x7b\x7belse if $ -\x7d\x7d \n\x7b\x7b/* c */\x7d\x7d\x7b\x7bend\x7d\x7d" ++
      "\x7b\x7bdefine \"d\"\x7d\x7d\n\x7b\x7btemplate \"q\" .\x7d\x7d\x7b\x7bend\x7d\x7d"
    let wrong := "a\n\x7b\x7brange . -\x7d\x7d\n\x7b\x7bbreak\x7d\x7d\x7b\x7bend\x7d\x7d\n" ++
      " \x7b\x7b.b $y\x7d\x7d"
    (∃ trees, Tree.ofSource .braces isFunction "q" source = .ok trees ∧
      trees.entries.map (fun e => (e.1, e.2.walk.map fun n => (n.pos.offset, n.pos.line))) =
        [("d", [(90, 5), (91, 6)]),
          ("q", [(0, 1), (4, 2), (15, 2), (16, 3), (40, 3), (41, 4), (58, 5)])] ∧
      ∃ items, Item.ofSource .braces source = .ok items ∧ LaidOut .braces source items ∧
        ∀ e ∈ trees.entries, e.2.IsLocated (.ofSource isFunction source) source items) ∧
    (∃ fault, Tree.ofSource .braces isFunction "q" wrong = .error fault ∧ fault.offset = 39 ∧
      FaultAt .braces wrong.toList 39 ∧ (⟨39, lineIn wrong 39⟩ : Position).IsIn wrong) ∧
    ∃ (e : Error) (fault : SyntaxFault) (line : Nat),
      (Template.new "q").withSource "q" wrong = .error e ∧
      e.message = "template: q:4: undefined variable \"$y\"" ∧
      Tree.ofSource .braces (Template.new "q").isCallable "q" wrong = .error fault ∧
      (⟨fault.offset, line⟩ : Position).IsIn wrong ∧ e = .source "q" line fault.cause := by
  intro isFunction source wrong
  obtain ⟨htrees, -, -⟩ := Tree.ofSource_located .braces isFunction "q" source
  obtain ⟨-, hfault, hrefused⟩ := Tree.ofSource_located .braces isFunction "q" wrong
  refine ⟨?_, ?_, ?_⟩
  · have hwalks : (Tree.ofSource .braces isFunction "q" source).toOption.map
        (fun trees => trees.entries.map
          (fun e => (e.1, e.2.walk.map fun n => (n.pos.offset, n.pos.line)))) =
        some [("d", [(90, 5), (91, 6)]),
          ("q", [(0, 1), (4, 2), (15, 2), (16, 3), (40, 3), (41, 4), (58, 5)])] := by
      decide +kernel
    obtain ⟨trees, hsome, hwalks⟩ := Option.map_eq_some_iff.mp hwalks
    have hok := eq_ok_of_toOption hsome
    exact ⟨trees, hok, hwalks, htrees trees hok⟩
  · have hoffset : ((Tree.ofSource .braces isFunction "q" wrong).mapError (·.offset)).map
        (fun _ => ()) = .error 39 := by
      decide +kernel
    cases hread : Tree.ofSource .braces isFunction "q" wrong with
    | ok trees =>
      rw [hread] at hoffset
      cases hoffset
    | error fault =>
      rw [hread] at hoffset
      have hoffset : fault.offset = 39 := Except.error.inj hoffset
      have hplace := hfault fault hread
      rw [hoffset] at hplace
      exact ⟨fault, rfl, hoffset, hplace⟩
  · have hmessage : (((Template.new "q").withSource "q" wrong).mapError Error.message).map
        (fun _ => ()) = .error "template: q:4: undefined variable \"$y\"" := by
      decide +kernel
    cases hload : (Template.new "q").withSource "q" wrong with
    | ok t =>
      rw [hload] at hmessage
      cases hmessage
    | error e =>
      rw [hload] at hmessage
      obtain ⟨fault, line, hrest⟩ := hrefused (.new "q") e hload
      exact ⟨e, fault, line, rfl, Except.error.inj hmessage, hrest⟩

end SafeQuery
