import SafeQuery.Proofs.Tree.Statement

/-!
# What the grammar spells is read

What has been read of a source is spelled by its items, `ofSource_spelled`. Conversely items that
spell statements are read as them wherever the reader of clauses stands at their place,
`Spells.readAs`: whatever has been read before stays as it is. So a source whose items spell the
main tree is accepted, `ofSource_of_spells`.
-/

namespace SafeQuery

/-- The statements of a clause are kept with the last one first. -/
lemma block_reverse (start : Position) (nodes : List Node) :
    (⟨start, nodes.reverse.reverse⟩ : Block) = ⟨start, nodes⟩ := by
  rw [List.reverse_reverse]

namespace Nesting

variable {ctx : PipelineContext} {main : List Node} {clauses : List OpenClause}
  {scope scope' : List String} {trees trees' : Dict Tree}

/-- Add statements to the sequence that is being read. -/
def addAll (n : Nesting) (nodes : List Node) : Nesting := nodes.foldl add n

/-- A statement is added at the same place, whatever is in scope and has been defined. -/
lemma exists_add_eq (main : List Node) (clauses : List OpenClause) (node : Node) :
    ∃ main' clauses', Enclosure.within clauses' = Enclosure.within clauses ∧
      ∀ scope trees, (⟨main, clauses, scope, trees⟩ : Nesting).add node =
        ⟨main', clauses', scope, trees⟩ := by
  cases clauses with
  | nil       => exact ⟨node :: main, [], rfl, fun _ _ => rfl⟩
  | cons c cs => exact ⟨main, { c with nodes := node :: c.nodes } :: cs, rfl, fun _ _ => rfl⟩

lemma addAll_main (nodes : List Node) :
    (⟨main, [], scope, trees⟩ : Nesting).addAll nodes =
      ⟨nodes.reverse ++ main, [], scope, trees⟩ := by
  induction nodes generalizing main with
  | nil             => rfl
  | cons node nodes ih =>
    rw [List.reverse_cons, List.append_assoc]
    exact ih

lemma addAll_clause (nodes : List Node) (c : OpenClause) (cs : List OpenClause) :
    (⟨main, c :: cs, scope, trees⟩ : Nesting).addAll nodes =
      ⟨main, { c with nodes := nodes.reverse ++ c.nodes } :: cs, scope, trees⟩ := by
  induction nodes generalizing c with
  | nil             => rfl
  | cons node nodes ih =>
    rw [List.reverse_cons, List.append_assoc]
    exact ih { c with nodes := node :: c.nodes }

/-! ### Items that are read -/

/-- The items take what has been read from one state to the other. -/
def Reads (ctx : PipelineContext) (n : Nesting) (items : List Item) (n' : Nesting) : Prop :=
  items.foldlM (fun n item => n.addItem ctx item) n = .ok n'

lemma Reads.nil (n : Nesting) : n.Reads ctx [] n := rfl

lemma Reads.cons {n₁ n₂ n₃ : Nesting} {item : Item} {items : List Item}
    (hitem : n₁.addItem ctx item = .ok n₂) (hitems : n₂.Reads ctx items n₃) :
    n₁.Reads ctx (item :: items) n₃ :=
  bind_eq_ok_iff.mpr ⟨n₂, hitem, hitems⟩

lemma Reads.append {n₁ n₂ n₃ : Nesting} {items items' : List Item}
    (h : n₁.Reads ctx items n₂) (h' : n₂.Reads ctx items' n₃) :
    n₁.Reads ctx (items ++ items') n₃ := by
  rw [Reads, List.foldlM_append]
  exact bind_eq_ok_iff.mpr ⟨n₂, h, h'⟩

lemma foldlM_addTree_append {defs defs' : List Tree} :
    (defs ++ defs').foldlM addTree trees = .ok trees' ↔
      ∃ between, defs.foldlM addTree trees = .ok between ∧
        defs'.foldlM addTree between = .ok trees' := by
  rw [List.foldlM_append]
  exact bind_eq_ok_iff

lemma foldlM_addTree_cons {t : Tree} {defs : List Tree} :
    (t :: defs).foldlM addTree trees = .ok trees' ↔
      ∃ between, addTree trees t = .ok between ∧ defs.foldlM addTree between = .ok trees' :=
  bind_eq_ok_iff

/-- The statement of an item is added. -/
lemma addItem_leaf {item : Item} {node : Node}
    (h : Leaf ctx (.within clauses) scope item node scope') :
    (⟨main, clauses, scope, trees⟩ : Nesting).addItem ctx item =
      .ok ((⟨main, clauses, scope', trees⟩ : Nesting).add node) := by
  cases h with
  | text | comment => rfl
  | action hp =>
    unfold addItem
    dsimp only
    split
    · exact absurd hp ofTokens_keyword
    · exact bind_eq_ok_iff.mpr ⟨_, hp, rfl⟩
  | call hname => exact bind_eq_ok_iff.mpr ⟨_, hname, rfl⟩
  | @callWith _ _ _ _ _ rest _ _ hname hp =>
    have hrest : rest.isEmpty = false := by
      cases rest with
      | nil      => exact absurd hp ofTokens_nil
      | cons _ _ => rfl
    refine bind_eq_ok_iff.mpr ⟨_, hname, ?_⟩
    simp only [hrest, Bool.false_eq_true, if_false]
    exact bind_eq_ok_iff.mpr ⟨_, hp, rfl⟩
  | breakLoop hloop | continueLoop hloop =>
    rw [Enclosure.within_inLoop] at hloop
    exact bind_eq_ok_iff.mpr ⟨(), rfl, if_pos hloop⟩

/-- A branch is opened. -/
lemma addItem_enterBranch {n : Nesting} {kind : Control} {o at₁ : Nat} {spaced : Bool}
    {ts : List Token} {pipe : Pipeline}
    (hp : PipelineOf.ofTokens (ctx.inAction o) (.branch kind) n.scope ts = .ok (pipe, scope')) :
    n.addItem ctx (.clause o kind.keyword at₁ spaced ts) =
      .ok (n.enter ⟨.body kind pipe [], ctx.positionOf o, ctx.positionOf o, [], n.scope⟩
        scope') := by
  cases kind <;> exact bind_eq_ok_iff.mpr ⟨_, hp, rfl⟩

section Closing

variable {cs : List OpenClause} {o at₁ : Nat} {spaced : Bool} {pos start : Position}
  {body nodes : List Node} {outer : List String} {kind : Control} {pipe : Pipeline}
  {row : List Link}

/-- The next branch of a row is opened. -/
lemma addItem_turnTo {at₂ : Nat} {spaced₂ : Bool} {ts : List Token} {next : Pipeline}
    (hkind : kind ≠ .range)
    (hp : PipelineOf.ofTokens (ctx.inAction o) (.branch kind) scope ts = .ok (next, scope')) :
    (⟨main, ⟨.body kind pipe row, pos, start, body.reverse, outer⟩ :: cs, scope, trees⟩ :
      Nesting).addItem ctx
        (.clause o .otherwise at₁ spaced (⟨.keyword kind.keyword, at₂, spaced₂⟩ :: ts)) =
      .ok ⟨main, ⟨.body kind next (⟨kind, pos, pipe, ⟨start, body⟩⟩ :: row), ctx.positionOf o,
        ctx.positionOf o, [], outer⟩ :: cs, scope', trees⟩ := by
  rw [← block_reverse start body]
  cases kind with
  | range            => contradiction
  | cond | withValue => exact bind_eq_ok_iff.mpr ⟨_, hp, rfl⟩

/-- The else part of a branch is opened. -/
lemma addItem_turn :
    (⟨main, ⟨.body kind pipe row, pos, start, body.reverse, outer⟩ :: cs, scope, trees⟩ :
      Nesting).addItem ctx (.clause o .otherwise at₁ spaced []) =
      .ok ⟨main, ⟨.otherwise kind pipe ⟨start, body⟩ row, pos, ctx.positionOf o, [], outer⟩ :: cs,
        scope, trees⟩ := by
  rw [← block_reverse start body]
  rfl

lemma addItem_closeBody :
    (⟨main, ⟨.body kind pipe row, pos, start, body.reverse, outer⟩ :: cs, scope, trees⟩ :
      Nesting).addItem ctx (.clause o .finish at₁ spaced []) =
      .ok ((⟨main, cs, outer, trees⟩ : Nesting).add
        (chain (.branch kind pos pipe ⟨start, body⟩ none) row)) := by
  rw [← block_reverse start body]
  rfl

lemma addItem_closeOtherwise {block : Block} :
    (⟨main, ⟨.otherwise kind pipe block row, pos, start, nodes.reverse, outer⟩ :: cs, scope,
      trees⟩ : Nesting).addItem ctx (.clause o .finish at₁ spaced []) =
      .ok ((⟨main, cs, outer, trees⟩ : Nesting).add
        (chain (.branch kind pos pipe block (some ⟨start, nodes⟩)) row)) := by
  rw [← block_reverse start nodes]
  rfl

lemma addItem_closeDefinition {name : String}
    (htree : addTree trees ⟨name, ⟨start, body⟩⟩ = .ok trees') :
    (⟨main, ⟨.define name, pos, start, body.reverse, outer⟩ :: cs, scope, trees⟩ :
      Nesting).addItem ctx (.clause o .finish at₁ spaced []) = .ok ⟨main, cs, outer, trees'⟩ := by
  rw [← block_reverse start body] at htree
  exact bind_eq_ok_iff.mpr ⟨_, rfl, bind_eq_ok_iff.mpr ⟨_, htree, rfl⟩⟩

lemma addItem_closeBlock {name : String} {argument : Pipeline}
    (htree : addTree trees ⟨name, ⟨start, body⟩⟩ = .ok trees') :
    (⟨main, ⟨.block name argument, pos, start, body.reverse, outer⟩ :: cs, scope, trees⟩ :
      Nesting).addItem ctx (.clause o .finish at₁ spaced []) =
      .ok ((⟨main, cs, outer, trees'⟩ : Nesting).add (.call pos name (some argument))) := by
  rw [← block_reverse start body] at htree
  exact bind_eq_ok_iff.mpr ⟨_, rfl, bind_eq_ok_iff.mpr ⟨_, htree, rfl⟩⟩

end Closing

end Nesting

/-! ### Sections that are read -/

/-- The items are read as the section wherever the reader stands at the place. Statements are added
to those before; what follows the body of a branch closes the branch and with it the row before. -/
def Section.ReadAs (ctx : PipelineContext) (place : Enclosure) (scope : List String)
    (items : List Item) (defs : List Tree) (scope' : List String) : Section → Prop
  | statements nodes =>
    ∀ (main : List Node) (clauses : List OpenClause) (trees trees' : Dict Tree),
      place = .within clauses → defs.foldlM addTree trees = .ok trees' →
      (⟨main, clauses, scope, trees⟩ : Nesting).Reads ctx items
        ((⟨main, clauses, scope', trees'⟩ : Nesting).addAll nodes)
  | tail kind otherwise =>
    ∀ (main : List Node) (clauses : List OpenClause) (trees trees' : Dict Tree) (pipe : Pipeline)
      (row : List Link) (pos start : Position) (body : List Node) (outer : List String),
      place = .within clauses → defs.foldlM addTree trees = .ok trees' →
      (⟨main, ⟨.body kind pipe row, pos, start, body.reverse, outer⟩ :: clauses, scope, trees⟩ :
        Nesting).Reads ctx items ((⟨main, clauses, outer, trees'⟩ : Nesting).add
          (chain (.branch kind pos pipe ⟨start, body⟩ otherwise) row))

section Sections

variable {ctx : PipelineContext} {place : Enclosure} {scope scope' : List String}

/-- The statements of a clause just opened. -/
lemma Section.ReadAs.inClause {items : List Item} {defs : List Tree} {nodes : List Node}
    (h : (statements nodes).ReadAs ctx place scope items defs scope') {main : List Node}
    {opening : Opening} {pos start : Position} {outer : List String} {clauses : List OpenClause}
    {trees trees' : Dict Tree} (hplace : place = (Enclosure.within clauses).inside opening)
    (htrees : defs.foldlM addTree trees = .ok trees') :
    (⟨main, ⟨opening, pos, start, [], outer⟩ :: clauses, scope, trees⟩ : Nesting).Reads ctx items
      ⟨main, ⟨opening, pos, start, nodes.reverse, outer⟩ :: clauses, scope', trees'⟩ := by
  have hread := h main (⟨opening, pos, start, [], outer⟩ :: clauses) trees trees' hplace htrees
  rwa [Nesting.addAll_clause, List.append_nil] at hread

/-- Statements behind another one. -/
lemma Section.ReadAs.behind {items : List Item} {defs : List Tree} {nodes : List Node} {node : Node}
    {clauses : List OpenClause}
    (h : (statements nodes).ReadAs ctx (.within clauses) scope items defs scope')
    (main : List Node) {trees trees' : Dict Tree}
    (htrees : defs.foldlM addTree trees = .ok trees') :
    ((⟨main, clauses, scope, trees⟩ : Nesting).add node).Reads ctx items
      ((⟨main, clauses, scope', trees'⟩ : Nesting).addAll (node :: nodes)) := by
  obtain ⟨main', clauses', hwithin, hadd⟩ := Nesting.exists_add_eq main clauses node
  rw [Nesting.addAll, List.foldl_cons, hadd, hadd]
  exact h main' clauses' trees trees' hwithin.symm htrees

/-- What the grammar spells is read. -/
theorem Spells.readAs {items : List Item} {part : Section} {defs : List Tree}
    (h : Spells ctx place scope items part defs scope') :
    part.ReadAs ctx place scope items defs scope' := by
  induction h with
  | nil =>
    intro main clauses trees trees' _ htrees
    cases htrees
    exact .nil _
  | leaf hleaf _ ih =>
    rintro main clauses trees trees' rfl htrees
    exact .cons (Nesting.addItem_leaf hleaf) (ih.behind main htrees)
  | branch hp _ _ _ ihbody ihtail ih =>
    rintro main clauses trees trees' rfl htrees
    obtain ⟨trees₁, hbodyTrees, htrees⟩ := Nesting.foldlM_addTree_append.mp htrees
    obtain ⟨trees₂, htailTrees, htrees⟩ := Nesting.foldlM_addTree_append.mp htrees
    exact .cons (Nesting.addItem_enterBranch hp) (.append (ihbody.inClause rfl hbodyTrees)
      (.append (ihtail main clauses trees₁ trees₂ _ [] _ _ _ _ rfl htailTrees)
        (ih.behind main htrees)))
  | define houter _ _ ihbody ih =>
    rintro main clauses trees trees' rfl htrees
    obtain rfl := Enclosure.eq_nil_of_within_outermost houter
    obtain ⟨trees₁, hbodyTrees, htrees⟩ := Nesting.foldlM_addTree_append.mp htrees
    obtain ⟨trees₂, htree, htrees⟩ := Nesting.foldlM_addTree_cons.mp htrees
    exact .cons rfl (.append (ihbody.inClause rfl hbodyTrees)
      (.cons (Nesting.addItem_closeDefinition htree) (ih main [] trees₂ trees' rfl htrees)))
  | block hname hp _ _ ihbody ih =>
    rintro main clauses trees trees' rfl htrees
    obtain ⟨trees₁, hbodyTrees, htrees⟩ := Nesting.foldlM_addTree_append.mp htrees
    obtain ⟨trees₂, htree, htrees⟩ := Nesting.foldlM_addTree_cons.mp htrees
    exact .cons (bind_eq_ok_iff.mpr ⟨_, hname, bind_eq_ok_iff.mpr ⟨_, hp, rfl⟩⟩)
      (.append (ihbody.inClause rfl hbodyTrees)
        (.cons (Nesting.addItem_closeBlock htree) (ih.behind main htrees)))
  | finish =>
    rintro main clauses trees trees' pipe row pos start body outer - htrees
    cases htrees
    exact .cons Nesting.addItem_closeBody (.nil _)
  | otherwise _ ih =>
    rintro main clauses trees trees' pipe row pos start body outer rfl htrees
    exact .cons Nesting.addItem_turn (.append (ih.inClause rfl htrees)
      (.cons Nesting.addItem_closeOtherwise (.nil _)))
  | chained hkind hp _ _ ihbody ihtail =>
    rintro main clauses trees trees' pipe row pos start body outer rfl htrees
    obtain ⟨trees₁, hbodyTrees, htailTrees⟩ := Nesting.foldlM_addTree_append.mp htrees
    exact .cons (Nesting.addItem_turnTo hkind hp) (.append (ihbody.inClause rfl hbodyTrees)
      (ihtail main clauses trees₁ trees' _ (⟨_, pos, pipe, ⟨start, body⟩⟩ :: row) _ _ _ _ rfl
        htailTrees))

/-- A source whose items spell the main tree is accepted. Its trees are those defined on the way and
the main one. -/
theorem ofSource_of_spells {d : Delimiters} {isFunction : String → Bool} {name source : String}
    {items : List Item} {nodes : List Node} {defs : List Tree} {trees : Dict Tree}
    (hitems : Item.ofSource d source = .ok items)
    (h : Spells (.ofSource isFunction source) .main ["$"] items (.statements nodes) defs scope)
    (htrees : (defs ++ [Tree.mk name ⟨PipelineContext.positionOf (.ofSource isFunction source) 0,
      nodes⟩]).foldlM addTree .empty = .ok trees) :
    Tree.ofSource d isFunction name source = .ok trees := by
  obtain ⟨between, hdefs, hmain⟩ := Nesting.foldlM_addTree_append.mp htrees
  obtain ⟨_, hmain, heq⟩ := Nesting.foldlM_addTree_cons.mp hmain
  cases heq
  have hread := h.readAs [] [] .empty between rfl hdefs
  rw [Nesting.addAll_main, List.append_nil] at hread
  rw [← block_reverse _ nodes] at hmain
  exact bind_eq_ok_iff.mpr ⟨items, hitems, bind_eq_ok_iff.mpr ⟨_, hread, hmain⟩⟩

end Sections

end SafeQuery
