import Mathlib.Algebra.Order.Group.Multiset
import Mathlib.Data.Multiset.Filter
import Mathlib.Tactic.Abel
import SafeQuery.Proofs.Source.Lexed
import SafeQuery.Proofs.Tree.Statement
import SafeQuery.Proofs.Tree.Walk

/-!
# Conservation of statements

The reader of clauses neither loses nor duplicates nor reorders the items of a source. `Becomes`
says which node an item is read as. Every item with content becomes one node of all the trees of the
source, `Contents`, although trees without content are dropped, and the nodes of each tree come in
the order of their items, `InOrder`. Both are proved along the grammar of items.
-/

namespace SafeQuery

def beginsClause : List Token → Bool
  | ⟨.keyword _, _, _⟩ :: _ => true
  | _                       => false

/-- The item is a text that is not blank, or an action that does not begin with a keyword. -/
def Item.isContent : Item → Bool
  | text _ t    => !t.toList.all Text.isBlank
  | comment _ _ => false
  | action _ ts => !beginsClause ts

def Keyword.isStatement : Keyword → Bool
  | template | breakLoop | continueLoop => true
  | _                                   => false

/-- The item is a statement by itself: a text, a comment, or an action that begins with no keyword
or with one that is a statement. -/
def Item.isLeaf : Item → Bool
  | action _ (⟨.keyword k, _, _⟩ :: _) => k.isStatement
  | _                                  => true

lemma Item.not_isLeaf_clause {o : Nat} {k : Keyword} {at₁ : Nat} {spaced : Bool} {ts : List Token}
    (h : k.isStatement = false) : ¬ (clause o k at₁ spaced ts).isLeaf = true :=
  Bool.eq_false_iff.mp h

lemma Control.keyword_isStatement (kind : Control) : kind.keyword.isStatement = false := by
  cases kind <;> rfl

def Item.isDefinition : Item → Bool
  | action _ (⟨.keyword .define, _, _⟩ :: _) | action _ (⟨.keyword .block, _, _⟩ :: _) => true
  | _                                                                                => false

/-- The node is a text that is not blank, or an action. -/
def Node.isContent : Node → Bool
  | text _ t   => !t.toList.all Text.isBlank
  | action _ _ => true
  | _          => false

def Node.isLeaf : Node → Bool
  | branch .. => false
  | _         => true

/-- The item is read as the node, or opens its clause. -/
inductive Becomes (ctx : PipelineContext) : Item → Node → Prop
  | leaf {place : Enclosure} {scope scope' : List String} {item : Item} {node : Node} :
      Leaf ctx place scope item node scope' → Becomes ctx item node
  | branch {scope scope' : List String} {o at₁ : Nat} {spaced : Bool} {ts : List Token}
      {kind : Control} {pipe : Pipeline} {body : Block} {otherwise : Option Block} :
      PipelineOf.ofTokens (ctx.inAction o) (.branch kind) scope ts = .ok (pipe, scope') →
      Becomes ctx (.clause o kind.keyword at₁ spaced ts)
        (.branch kind (ctx.positionOf o) pipe body otherwise)
  | chained {scope scope' : List String} {o at₁ at₂ : Nat} {spaced₁ spaced₂ : Bool}
      {ts : List Token} {kind : Control} {pipe : Pipeline} {body : Block}
      {otherwise : Option Block} :
      PipelineOf.ofTokens (ctx.inAction o) (.branch kind) scope ts = .ok (pipe, scope') →
      Becomes ctx
        (.clause o .otherwise at₁ spaced₁ (⟨.keyword kind.keyword, at₂, spaced₂⟩ :: ts))
        (.branch kind (ctx.positionOf o) pipe body otherwise)
  | block {scope scope' : List String} {o at₁ : Nat} {spaced : Bool} {ts rest : List Token}
      {name : String} {argument : Pipeline} :
      Nesting.clauseName .block o ts = .ok (name, rest) →
      PipelineOf.ofTokens (ctx.inAction o) .block scope rest = .ok (argument, scope') →
      Becomes ctx (.clause o .block at₁ spaced ts)
        (.call (ctx.positionOf o) name (some argument))

/-- No pipeline begins with a keyword. -/
lemma ofTokens_beginsClause {c : PipelineContext} {clause : Clause} {scope : List String}
    {ts : List Token} {r : Pipeline × List String}
    (h : PipelineOf.ofTokens c clause scope ts = .ok r) : beginsClause ts = false := by
  unfold beginsClause
  split
  · exact absurd h ofTokens_keyword
  · rfl

def Section.nodes : Section → List Node
  | statements nodes   => nodes
  | tail _ none        => []
  | tail _ (some block) => block.nodes

lemma Section.nodes_statements (ns : List Node) : (statements ns).nodes = ns := rfl

lemma Section.nodes_tail (kind : Control) (block : Block) :
    (tail kind (some block)).nodes = block.nodes := rfl

lemma inside_branch (kind : Control) (pos : Position) (pipe : Pipeline) (body : Block)
    (otherwise : Option Block) :
    (Node.branch kind pos pipe body otherwise).inside =
      walkAll body.nodes ++ walkAll (Section.tail kind otherwise).nodes := by
  cases otherwise with
  | none => simp [Node.inside, Section.nodes]
  | some b => simp [Node.inside, Section.nodes]

section Conservation

variable {ctx : PipelineContext} {place : Enclosure} {scope scope' : List String}

namespace Leaf

variable {item : Item} {node : Node}

lemma inside_eq (h : Leaf ctx place scope item node scope') : node.inside = [] := by
  cases h <;> simp [Node.inside]

lemma isContent_eq (h : Leaf ctx place scope item node scope') :
    item.isContent = node.isContent := by
  cases h with
  | action hp => simp [Item.isContent, Node.isContent, ofTokens_beginsClause hp]
  | text | comment | call | callWith | breakLoop | continueLoop => rfl

lemma item_isLeaf (h : Leaf ctx place scope item node scope') : item.isLeaf = true := by
  cases h with
  | action hp =>
    have hclause := ofTokens_beginsClause hp
    unfold Item.isLeaf
    split
    · rename_i heq
      cases heq
      cases hclause
    · rfl
  | text | comment | call | callWith | breakLoop | continueLoop => rfl

lemma node_isLeaf (h : Leaf ctx place scope item node scope') : node.isLeaf = true := by
  cases h <;> rfl

end Leaf

/-! ### Nothing is lost or duplicated -/

/-- The items with content become the nodes with content, each of them one node. -/
def Contents (ctx : PipelineContext) (items : List Item) (nodes : Multiset Node) : Prop :=
  ∃ ns : List Node, (ns : Multiset Node) = nodes.filter (·.isContent) ∧
    List.Forall₂ (Becomes ctx) (items.filter Item.isContent) ns

namespace Contents

variable {items items' : List Item} {nodes nodes' : Multiset Node}

lemma nil : Contents ctx [] 0 := ⟨[], by simp, .nil⟩

lemma append (h : Contents ctx items nodes) (h' : Contents ctx items' nodes') :
    Contents ctx (items ++ items') (nodes + nodes') := by
  obtain ⟨ns, hns, hall⟩ := h
  obtain ⟨ns', hns', hall'⟩ := h'
  refine ⟨ns ++ ns', ?_, ?_⟩
  · rw [← Multiset.coe_add, hns, hns', Multiset.filter_add]
  · rw [List.filter_append]
    exact List.rel_append hall hall'

/-- An item without content. -/
lemma cons {item : Item} (hitem : item.isContent = false) (h : Contents ctx items nodes) :
    Contents ctx (item :: items) nodes := by
  unfold Contents
  rwa [List.filter_cons_of_neg (by simp [hitem])]

lemma of_filter_eq (h : Contents ctx items nodes)
    (heq : nodes'.filter (·.isContent) = nodes.filter (·.isContent)) :
    Contents ctx items nodes' := by
  unfold Contents
  rwa [heq]

/-- An item that makes one statement becomes its node. -/
lemma leaf {item : Item} {node : Node} (h : Leaf ctx place scope item node scope') :
    Contents ctx [item] {node} := by
  cases hcontent : item.isContent with
  | false =>
    refine of_filter_eq (.cons hcontent nil) ?_
    rw [h.isContent_eq] at hcontent
    rw [Multiset.filter_singleton, if_neg (by simp [hcontent])]
    rfl
  | true =>
    refine ⟨[node], ?_, by simpa [hcontent] using .leaf h⟩
    rw [h.isContent_eq] at hcontent
    rw [Multiset.filter_singleton, if_pos hcontent]
    rfl

end Contents

/-- The items of a section with content become the nodes with content of the section and of the
trees that are defined in it. -/
theorem Spells.contents {items : List Item} {part : Section} {defs : List Tree}
    (h : Spells ctx place scope items part defs scope') :
    Contents ctx items (walkAll part.nodes + (defs.flatMap Tree.walk : List Node)) := by
  induction h with
  | nil | finish => exact ⟨[], rfl, .nil⟩
  | leaf hleaf _ ih =>
    refine ((Contents.leaf hleaf).append ih).of_filter_eq (congrArg _ ?_)
    simp only [Section.nodes_statements, walkAll_cons, hleaf.inside_eq, List.nil_append,
      ← Multiset.cons_coe, Multiset.cons_add, Multiset.singleton_add]
  | branch _ _ _ _ ihbody ihtail ih =>
    refine ((ihbody.append (ihtail.append ih)).cons rfl).of_filter_eq ?_
    simp only [Section.nodes_statements, walkAll_cons, inside_branch, ← Multiset.cons_coe,
      Multiset.cons_add, ← Multiset.coe_add, List.flatMap_append]
    rw [Multiset.filter_cons_of_neg _ (by simp [Node.isContent])]
    congr 1
    abel
  | define _ _ _ ihbody ih =>
    refine ((ihbody.append (ih.cons rfl)).cons rfl).of_filter_eq (congrArg _ ?_)
    simp only [Section.nodes_statements, Tree.walk, ← Multiset.coe_add, List.flatMap_append,
      List.flatMap_cons]
    abel
  | block _ _ _ _ ihbody ih =>
    refine ((ihbody.append (ih.cons rfl)).cons rfl).of_filter_eq ?_
    simp only [Section.nodes_statements, Tree.walk, walkAll_cons, Node.inside, List.nil_append,
      ← Multiset.cons_coe, Multiset.cons_add, ← Multiset.coe_add, List.flatMap_append,
      List.flatMap_cons]
    rw [Multiset.filter_cons_of_neg _ (by simp [Node.isContent])]
    congr 1
    abel
  | otherwise _ ih =>
    refine ((ih.append (Contents.nil.cons rfl)).cons rfl).of_filter_eq (congrArg _ ?_)
    rw [add_zero]
    rfl
  | chained _ _ _ _ ihbody ihtail =>
    refine ((ihbody.append ihtail).cons rfl).of_filter_eq ?_
    simp only [Section.nodes, walkAll_cons, walkAll_nil, inside_branch, List.append_nil,
      ← Multiset.cons_coe, Multiset.cons_add, ← Multiset.coe_add, List.flatMap_append]
    rw [Multiset.filter_cons_of_neg _ (by simp [Node.isContent])]
    congr 1
    abel

/-! ### The order of the items -/

/-- The nodes come in the order of their items. -/
def InOrder (ctx : PipelineContext) (items : List Item) (nodes : List Node) : Prop :=
  ∃ sub, sub.Sublist items ∧ List.Forall₂ (Becomes ctx) sub nodes

namespace InOrder

variable {items items' : List Item} {nodes nodes' : List Node}

lemma nil : InOrder ctx items [] := ⟨[], items.nil_sublist, .nil⟩

lemma mono (h : InOrder ctx items nodes) (hitems : items.Sublist items') :
    InOrder ctx items' nodes := by
  obtain ⟨sub, hsub, hall⟩ := h
  exact ⟨sub, hsub.trans hitems, hall⟩

lemma cons {item : Item} {node : Node} (h : Becomes ctx item node) (hs : InOrder ctx items nodes) :
    InOrder ctx (item :: items) (node :: nodes) := by
  obtain ⟨sub, hsub, hall⟩ := hs
  exact ⟨item :: sub, hsub.cons_cons item, .cons h hall⟩

lemma append (h : InOrder ctx items nodes) (h' : InOrder ctx items' nodes') :
    InOrder ctx (items ++ items') (nodes ++ nodes') := by
  obtain ⟨sub, hsub, hall⟩ := h
  obtain ⟨sub', hsub', hall'⟩ := h'
  exact ⟨sub ++ sub', hsub.append hsub', List.rel_append hall hall'⟩

end InOrder

/-- The nodes of a section, and those of each tree that is defined in it, come in the order of their
items. -/
theorem Spells.inOrder {items : List Item} {part : Section} {defs : List Tree}
    (h : Spells ctx place scope items part defs scope') :
    InOrder ctx items (walkAll part.nodes) ∧ ∀ t ∈ defs, InOrder ctx items t.walk := by
  induction h with
  | nil | finish => exact ⟨by simpa [Section.nodes] using .nil, by simp⟩
  | leaf hleaf _ ih =>
    refine ⟨?_, fun t ht => (ih.2 t ht).mono (List.sublist_cons_self _ _)⟩
    rw [Section.nodes_statements, walkAll_cons, hleaf.inside_eq]
    exact ih.1.cons (.leaf hleaf)
  | branch hp _ _ _ ihbody ihtail ih =>
    refine ⟨?_, ?_⟩
    · rw [Section.nodes_statements, walkAll_cons, inside_branch, List.append_assoc]
      exact (ihbody.1.append (ihtail.1.append ih.1)).cons (.branch hp)
    · rw [List.forall_mem_append, List.forall_mem_append]
      exact ⟨fun t ht => (ihbody.2 t ht).mono (by grind),
        fun t ht => (ihtail.2 t ht).mono (by grind), fun t ht => (ih.2 t ht).mono (by grind)⟩
  | define _ _ _ ihbody ih =>
    refine ⟨ih.1.mono (by grind), ?_⟩
    rw [List.forall_mem_append, List.forall_mem_cons]
    exact ⟨fun t ht => (ihbody.2 t ht).mono (by grind), ihbody.1.mono (by grind),
      fun t ht => (ih.2 t ht).mono (by grind)⟩
  | block hname hp _ _ ihbody ih =>
    refine ⟨?_, ?_⟩
    · rw [Section.nodes_statements, walkAll_cons, Node.inside, List.nil_append]
      exact (ih.1.mono (by grind)).cons (.block hname hp)
      all_goals simp
    · rw [List.forall_mem_append, List.forall_mem_cons]
      exact ⟨fun t ht => (ihbody.2 t ht).mono (by grind), ihbody.1.mono (by grind),
        fun t ht => (ih.2 t ht).mono (by grind)⟩
  | otherwise _ ih =>
    exact ⟨ih.1.mono (by grind), fun t ht => (ih.2 t ht).mono (by grind)⟩
  | chained _ hp _ _ ihbody ihtail =>
    refine ⟨?_, ?_⟩
    · rw [Section.nodes_tail, walkAll_cons, walkAll_nil, inside_branch, List.append_nil]
      exact (ihbody.1.append ihtail.1).cons (.chained hp)
    · rw [List.forall_mem_append]
      exact ⟨fun t ht => (ihbody.2 t ht).mono (by grind),
        fun t ht => (ihtail.2 t ht).mono (by grind)⟩

/-- Without definitions and blocks, the items of a section that are statements by themselves become
its nodes that are no branches. -/
theorem Spells.leaves {items : List Item} {part : Section} {defs : List Tree}
    (h : Spells ctx place scope items part defs scope')
    (hitems : ∀ item ∈ items, item.isDefinition = false) :
    defs = [] ∧ List.Forall₂ (Becomes ctx) (items.filter Item.isLeaf)
      ((walkAll part.nodes).filter Node.isLeaf) := by
  induction h with
  | nil | finish => exact ⟨rfl, .nil⟩
  | leaf hleaf _ ih =>
    obtain ⟨-, hitems⟩ := List.forall_mem_cons.mp hitems
    obtain ⟨rfl, hrest⟩ := ih hitems
    refine ⟨rfl, ?_⟩
    rw [Section.nodes_statements, walkAll_cons, hleaf.inside_eq, List.nil_append,
      List.filter_cons_of_pos hleaf.item_isLeaf, List.filter_cons_of_pos hleaf.node_isLeaf]
    exact .cons (.leaf hleaf) hrest
  | branch _ _ _ _ ihbody ihtail ih =>
    simp only [List.forall_mem_cons, List.forall_mem_append] at hitems
    obtain ⟨-, hbodyItems, htailItems, hitems⟩ := hitems
    obtain ⟨rfl, hbody⟩ := ihbody hbodyItems
    obtain ⟨rfl, htail⟩ := ihtail htailItems
    obtain ⟨rfl, hrest⟩ := ih hitems
    refine ⟨rfl, ?_⟩
    rw [Section.nodes_statements, walkAll_cons, inside_branch, List.append_assoc,
      List.filter_cons_of_neg (Item.not_isLeaf_clause (Control.keyword_isStatement _)),
      List.filter_cons_of_neg (by simp [Node.isLeaf])]
    simp only [List.filter_append]
    exact List.rel_append hbody (List.rel_append htail hrest)
  | define | block =>
    have hdefinition := hitems _ List.mem_cons_self
    contradiction
  | otherwise _ ih =>
    simp only [List.forall_mem_cons, List.forall_mem_append] at hitems
    obtain ⟨rfl, hrest⟩ := ih hitems.2.1
    refine ⟨rfl, ?_⟩
    rw [List.filter_cons_of_neg (Item.not_isLeaf_clause rfl),
      List.filter_append,
      List.filter_cons_of_neg (Item.not_isLeaf_clause rfl),
      List.filter_nil, List.append_nil]
    exact hrest
  | chained _ _ _ _ ihbody ihtail =>
    simp only [List.forall_mem_cons, List.forall_mem_append] at hitems
    obtain ⟨-, hbodyItems, htailItems⟩ := hitems
    obtain ⟨rfl, hbody⟩ := ihbody hbodyItems
    obtain ⟨rfl, htail⟩ := ihtail htailItems
    refine ⟨rfl, ?_⟩
    rw [Section.nodes_tail, walkAll_cons, walkAll_nil, inside_branch, List.append_nil,
      List.filter_cons_of_neg (Item.not_isLeaf_clause rfl),
      List.filter_cons_of_neg (by simp [Node.isLeaf])]
    simp only [List.filter_append]
    exact List.rel_append hbody htail

end Conservation

/-! ### Trees -/

/-- The nodes with content of some nodes and the nodes inside them. -/
def contentOf (nodes : List Node) : Multiset Node :=
  (nodes : Multiset Node).filter (·.isContent)

def Dict.content (trees : Dict Tree) : Multiset Node :=
  contentOf (trees.entries.flatMap (·.2.walk))

lemma contentOf_append (ns ms : List Node) :
    contentOf (ns ++ ms) = contentOf ns + contentOf ms := by
  rw [contentOf, ← Multiset.coe_add, Multiset.filter_add]
  rfl

lemma Node.content_of_isBlank {n : Node} (h : n.isBlank = true) :
    n.isContent = false ∧ n.inside = [] := by
  cases n with
  | text pos t =>
    have hblank : t.toList.all Text.isBlank = true := h
    simp [Node.isContent, Node.inside, hblank]
  | comment => simp [Node.isContent, Node.inside]
  | action | branch | call | breakLoop | continueLoop => cases h

/-- A tree that is empty has no content. -/
lemma contentOf_of_isEmpty {t : Tree} (h : t.isEmpty = true) : contentOf t.walk = 0 := by
  have hwalk : ∀ ns : List Node, (∀ n ∈ ns, n.isBlank = true) → contentOf (walkAll ns) = 0 := by
    intro ns hns
    induction ns with
    | nil => rfl
    | cons n ns ih =>
      obtain ⟨hn, hns⟩ := List.forall_mem_cons.mp hns
      obtain ⟨hcontent, hinside⟩ := Node.content_of_isBlank hn
      rw [walkAll_cons, hinside, List.nil_append, contentOf, ← Multiset.cons_coe,
        Multiset.filter_cons_of_neg _ (by simp [hcontent])]
      exact ih hns
  exact hwalk _ (by simpa [Tree.isEmpty] using h)

namespace Dict

variable {α : Type}

/-- An entry with a new key is put among the others. -/
lemma insertEntry_perm {k : String} (v : α) {es : List (String × α)} (h : ∀ e ∈ es, e.1 ≠ k) :
    (insertEntry k v es).Perm ((k, v) :: es) := by
  induction es with
  | nil => rfl
  | cons e es ih =>
    obtain ⟨he, hes⟩ := List.forall_mem_cons.mp h
    simp only [insertEntry, he.symm, if_false]
    split_ifs
    · rfl
    · exact ((ih hes).cons e).trans (.swap _ _ _)

/-- An entry takes the place of the one with its key. -/
lemma insertEntry_replaces {k : String} {old : α} (v : α) {es : List (String × α)}
    (hsorted : es.Pairwise fun e e' => e.1 < e'.1) (h : (k, old) ∈ es) :
    ∃ es', es.Perm ((k, old) :: es') ∧ (insertEntry k v es).Perm ((k, v) :: es') := by
  induction es with
  | nil => cases h
  | cons e es ih =>
    obtain ⟨hfirst, hsorted⟩ := List.pairwise_cons.mp hsorted
    rcases List.mem_cons.mp h with rfl | h
    · refine ⟨es, .refl _, ?_⟩
      simp [insertEntry]
    · obtain ⟨es', hes, hinsert⟩ := ih hsorted h
      have hlt : e.1 < k := hfirst _ h
      have hne : k ≠ e.1 := by
        rintro rfl
        exact String.lt_irrefl _ hlt
      refine ⟨e :: es', (hes.cons e).trans (.swap _ _ _), ?_⟩
      simp only [insertEntry, String.lt_asymm hlt, hne, if_false]
      exact (hinsert.cons e).trans (.swap _ _ _)

end Dict

lemma Dict.content_of_perm {trees : Dict Tree} {e : String × Tree} {es : List (String × Tree)}
    (h : trees.entries.Perm (e :: es)) :
    trees.content = contentOf e.2.walk + contentOf (es.flatMap (·.2.walk)) := by
  have hwalk : (trees.entries.flatMap (·.2.walk)).Perm ((e :: es).flatMap (·.2.walk)) :=
    h.flatMap_right _
  rw [Dict.content, contentOf, Multiset.coe_eq_coe.mpr hwalk, List.flatMap_cons]
  exact contentOf_append _ _

/-- A definition adds its content to that of the other trees. -/
lemma addTree_content {trees trees' : Dict Tree} {t : Tree} (h : addTree trees t = .ok trees')
    (hsorted : trees.Sorted) :
    trees'.Sorted ∧ trees'.content = trees.content + contentOf t.walk := by
  unfold addTree at h
  split at h
  · rename_i hnone
    cases h
    refine ⟨Dict.insert_sorted hsorted _ _, ?_⟩
    have hne : ∀ e ∈ trees.entries, e.1 ≠ t.name := by
      simpa [Dict.get?] using hnone
    have hinsert : (trees.insert t.name t).entries.Perm _ := Dict.insertEntry_perm t hne
    rw [Dict.content_of_perm hinsert, add_comm]
    rfl
  · rename_i old hold
    obtain ⟨⟨k, _⟩, he, rfl⟩ := Option.map_eq_some_iff.mp hold
    obtain rfl : k = t.name := by simpa using List.find?_some he
    have hmem := List.mem_of_find?_eq_some he
    split_ifs at h with hempty hold
    · cases h
      exact ⟨hsorted, by rw [contentOf_of_isEmpty hempty, add_zero]⟩
    · cases h
      obtain ⟨es, hes, hinsert⟩ := Dict.insertEntry_replaces t hsorted hmem
      have hinsert : (trees.insert t.name t).entries.Perm _ := hinsert
      refine ⟨Dict.insert_sorted hsorted _ _, ?_⟩
      rw [Dict.content_of_perm hes, Dict.content_of_perm hinsert, contentOf_of_isEmpty hold,
        zero_add, add_comm]

/-- The definitions of a source add their content to that of the trees before. -/
lemma foldlM_addTree_content {defs : List Tree} {trees trees' : Dict Tree}
    (h : defs.foldlM addTree trees = .ok trees') (hsorted : trees.Sorted) :
    trees'.content = trees.content + contentOf (defs.flatMap Tree.walk) := by
  induction defs generalizing trees with
  | nil =>
    cases h
    exact (add_zero _).symm
  | cons t defs ih =>
    obtain ⟨next, ht, h⟩ := bind_eq_ok_iff.mp h
    obtain ⟨hsorted', hnext⟩ := addTree_content ht hsorted
    rw [ih h hsorted', hnext, List.flatMap_cons, contentOf_append, add_assoc]

/-! ### Sources -/

/-- The trees hold the statements of the items, and the tree of the name is the main one. -/
structure Conserved (ctx : PipelineContext) (name : String) (items : List Item)
    (trees : Dict Tree) : Prop where
  /-- Every item has an offset of its own. -/
  offsets : items.Pairwise (·.offset < ·.offset)
  /-- The items with content become the nodes with content of all trees together. -/
  content : ∃ nodes : List Node,
    nodes.Perm ((trees.entries.flatMap (·.2.walk)).filter Node.isContent) ∧
      List.Forall₂ (Becomes ctx) (items.filter Item.isContent) nodes
  /-- The nodes of every tree come in the order of their items. -/
  order : ∀ e ∈ trees.entries, InOrder ctx items e.2.walk
  /-- Without definitions and blocks there is the main tree alone. The items that are statements by
  themselves become its nodes that are no branches, and the clauses end as the grammar says. -/
  plain : (∀ item ∈ items, item.isDefinition = false) → ∃ main, trees.entries = [(name, main)] ∧
    List.Forall₂ (Becomes ctx) (items.filter Item.isLeaf) (main.walk.filter Node.isLeaf) ∧
      ∃ scope, Spells ctx .main ["$"] items (.statements main.root.nodes) [] scope

/-- The reader of clauses neither loses nor duplicates nor reorders the items of a source. -/
theorem Tree.ofSource_conserved {d : Delimiters} {isFunction : String → Bool}
    {name source : String} {trees : Dict Tree}
    (h : Tree.ofSource d isFunction name source = .ok trees) :
    ∃ items, Item.ofSource d source = .ok items ∧
      Conserved (.ofSource isFunction source) name items trees := by
  obtain ⟨items, nodes, defs, pos, scope, hitems, hspelled, htrees⟩ := ofSource_spelled h
  refine ⟨items, hitems, ofSource_offsets hitems, ?_, ?_, ?_⟩
  · obtain ⟨ns, hns, hall⟩ := hspelled.contents
    refine ⟨ns, ?_, hall⟩
    have hcontent := foldlM_addTree_content htrees .nil
    rw [List.flatMap_append, contentOf_append, List.flatMap_singleton] at hcontent
    rw [← Multiset.coe_eq_coe]
    calc (ns : Multiset Node)
        = contentOf (walkAll nodes) + contentOf (defs.flatMap Tree.walk) := by
          rw [hns, Multiset.filter_add]
          rfl
      _ = trees.content := by
          rw [hcontent, add_comm]
          exact (zero_add _).symm
      _ = _ := by
          rw [Dict.content, contentOf, Multiset.filter_coe]
          simp only [Bool.decide_eq_true]
  · obtain ⟨hmain, hdefs⟩ := hspelled.inOrder
    refine foldlM_addTree_keeps (P := fun t => InOrder _ items t.walk) htrees ?_
      (by simp [Dict.empty])
    rw [List.forall_mem_append, List.forall_mem_singleton]
    exact ⟨hdefs, hmain⟩
  · intro hplain
    obtain ⟨rfl, hleaves⟩ := hspelled.leaves hplain
    cases htrees
    exact ⟨_, rfl, hleaves, scope, hspelled⟩

/-- A row of branches with a loop in it, a block, and a definition that an empty one does not
replace. -/
theorem Tree.ofSource_conserved_of_row :
    let source := "a\x7b\x7bdefine \"d\"\x7d\x7db\x7b\x7bend\x7d\x7d\x7b\x7bif .\x7d\x7d" ++
      "\x7b\x7b.x\x7d\x7d\x7b\x7belse if $\x7d\x7d\x7b\x7brange .\x7d\x7d" ++
      "\x7b\x7bbreak\x7d\x7d\x7b\x7bend\x7d\x7d\x7b\x7bend\x7d\x7d" ++
      "\x7b\x7bblock \"e\" .\x7d\x7d\x7b\x7bnil\x7d\x7d\x7b\x7bend\x7d\x7d" ++
      "\x7b\x7bdefine \"d\"\x7d\x7d \x7b\x7bend\x7d\x7d"
    ∃ trees, Tree.ofSource .braces (fun _ => false) "q" source = .ok trees ∧
      trees.entries.map (fun e => (e.1, e.2.walk.map (·.pos.offset))) =
        [("d", [15]), ("e", [99]), ("q", [0, 23, 31, 37, 50, 61, 84])] ∧
      ∃ items, Item.ofSource .braces source = .ok items ∧
        Conserved (.ofSource (fun _ => false) source) "q" items trees := by
  intro source
  cases hsource : Tree.ofSource .braces (fun _ => false) "q" source with
  | error fault =>
    have hok : (Tree.ofSource .braces (fun _ => false) "q" source).toOption.isSome = true := by
      decide +kernel
    rw [hsource] at hok
    cases hok
  | ok trees =>
    have hwalks : (Tree.ofSource .braces (fun _ => false) "q" source).toOption.map
        (fun trees => trees.entries.map (fun e => (e.1, e.2.walk.map (·.pos.offset)))) =
        some [("d", [15]), ("e", [99]), ("q", [0, 23, 31, 37, 50, 61, 84])] := by
      decide +kernel
    rw [hsource] at hwalks
    exact ⟨trees, rfl, Option.some.inj hwalks, Tree.ofSource_conserved hsource⟩

end SafeQuery
