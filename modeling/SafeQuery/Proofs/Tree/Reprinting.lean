import SafeQuery.Proofs.Tree.Acceptance
import SafeQuery.Proofs.Tree.Fragment

/-!
# Printed templates that are read again

A template without calls is read again from what it is printed as, and with the calls of the encoder
it is printed in the same way again, `ofSource_print_again`, if no text in it that ends in a left
brace stands directly before a piece that begins with one: the printed form has neither the trim
markers nor the definitions that have kept the two apart in the source.
-/

namespace SafeQuery

lemma declarationText_unplaced (assigns : Bool) (vs : List Variable) :
    declarationText assigns (vs.map Variable.unplaced) = declarationText assigns vs := by
  have hprint : Variable.print ∘ Variable.unplaced = Variable.print := rfl
  cases vs with
  | nil       => rfl
  | cons v vs => rw [declarationText, declarationText, List.map_map, hprint] <;> simp

mutual

/-- An operand is printed alike wherever it stands. -/
lemma Operand.print_unplaced (o : Operand) : o.unplaced.print = o.print := by
  match o with
  | .chain _ base _ => rw [Operand.unplaced, Operand.print, Operand.print, base.print_unplaced]
  | .pipeline ⟨_, _, _, commands⟩ =>
    rw [Operand.unplaced, Operand.print, Operand.print, declarationText_unplaced,
      printCommands_unplaced commands]
  | .identifier _ _ | .dot _ | .nil _ | .bool _ _ | .number _ | .string _ _ _ | .field _ _
  | .var _ => rfl

lemma printOperands_unplaced (os : List Operand) :
    printOperands (operandsUnplaced os) = printOperands os := by
  match os with
  | []           => rfl
  | [o]          => exact o.print_unplaced
  | o :: o' :: os =>
    rw [operandsUnplaced, operandsUnplaced, printOperands_cons, printOperands_cons,
      o.print_unplaced, ← printOperands_unplaced (o' :: os), operandsUnplaced]

lemma printCommands_unplaced (cs : List Command) :
    printCommands (commandsUnplaced cs) = printCommands cs := by
  match cs with
  | []                    => rfl
  | [⟨_, os⟩]             => exact printOperands_unplaced os
  | ⟨_, os⟩ :: c :: cs =>
    rw [commandsUnplaced, commandsUnplaced, printCommands_cons, printCommands_cons,
      printOperands_unplaced os, ← printCommands_unplaced (c :: cs), commandsUnplaced]

end

/-- A pipeline is printed without its positions. -/
lemma PipelineOf.print_unplaced (p : Pipeline) : p.unplaced.print = p.print := by
  rw [print, print, unplaced, declarationText_unplaced, printCommands_unplaced]

lemma CommandOf.isBare_unplaced (name : String) (c : Command) :
    isBare name ⟨default, operandsUnplaced c.operands⟩ = c.isBare name := by
  obtain ⟨pos, os⟩ := c
  match os with
  | []          => rfl
  | o :: _ :: _ => cases o <;> rfl
  | [.pipeline ⟨_, _, _, _⟩] => rfl
  | [.identifier _ _] | [.dot _] | [.nil _] | [.bool _ _] | [.number _] | [.string _ _ _]
  | [.field _ _] | [.var _] | [.chain _ _ _] => rfl

/-- The call of the encoder does not depend on positions. -/
lemma PipelineOf.unplaced_withHook (p : Pipeline) : p.withHook.unplaced = p.unplaced.withHook := by
  obtain ⟨pos, assigns, declared, commands⟩ := p
  cases declared with
  | cons v vs => rfl
  | nil =>
    have hlast : (commandsUnplaced commands).getLast? =
        commands.getLast?.map fun c => ⟨default, operandsUnplaced c.operands⟩ := by
      rw [commandsUnplaced_eq_map, List.getLast?_map]
    simp only [withHook, unplaced, List.map_nil, hlast]
    cases commands.getLast? with
    | none      => rfl
    | some last =>
      simp only [Option.map_some, CommandOf.isBare_unplaced]
      split
      · rfl
      · simp only [commandsUnplaced_eq_map, List.map_append, List.map_cons, List.map_nil]
        rfl

/-- Pipelines that differ in their positions are printed with the same calls of the encoder. -/
lemma PipelineOf.print_withHook_of_unplaced {p p' : Pipeline} (h : p'.unplaced = p.unplaced) :
    p'.withHook.print = p.withHook.print := by
  rw [← print_unplaced, unplaced_withHook, h, ← unplaced_withHook, print_unplaced]

/-! ### Nodes that are found again -/

/-- The item calls a template or begins a block. -/
def Item.isCall : Item → Bool
  | .action _ (⟨.keyword k, _, _⟩ :: _) => k = .template || k = .block
  | _                                   => false

mutual

/-- Apart from its pipelines, the node can be found again in what is printed. -/
def Node.IsPrintable (inLoop : Bool) : Node → Prop
  | .text _ t                            => t.toList ≠ [] ∧ ¬ ['\x7b', '\x7b'] <:+: t.toList
  | .comment _ t                         => ¬ ['*', '/'] <:+: t.toList
  | .action _ _                          => True
  | .branch kind _ _ ⟨_, body⟩ otherwise =>
    NodesPrintable (kind = .range || inLoop) body ∧ ElsePrintable inLoop otherwise
  | .call _ _ _                          => False
  | .breakLoop _ | .continueLoop _       => inLoop = true

def NodesPrintable (inLoop : Bool) : List Node → Prop
  | []      => True
  | n :: ns => n.IsPrintable inLoop ∧ NodesPrintable inLoop ns

def ElsePrintable (inLoop : Bool) : Option (BlockOf Node) → Prop
  | none         => True
  | some ⟨_, ns⟩ => NodesPrintable inLoop ns

end

/-- Apart from its pipelines, the section can be found again. -/
def Section.IsPrintable (inLoop : Bool) : Section → Prop
  | statements nodes => NodesPrintable inLoop nodes
  | tail _ otherwise => ElsePrintable inLoop otherwise

/-- Apart from its pipelines, the tree can be found again. -/
def Tree.IsPrintable (t : Tree) : Prop := NodesPrintable false t.root.nodes

mutual

lemma Node.isPrintable_withHooks {inLoop : Bool} {n : Node} (h : n.IsPrintable inLoop) :
    n.withHooks.IsPrintable inLoop := by
  match n with
  | .branch _ _ _ ⟨_, body⟩ none => exact ⟨nodesPrintable_hookAll h.1, trivial⟩
  | .branch _ _ _ ⟨_, body⟩ (some ⟨_, otherwise⟩) =>
    exact ⟨nodesPrintable_hookAll h.1, @nodesPrintable_hookAll _ otherwise h.2⟩
  | .action _ _ => trivial
  | .text _ _ | .comment _ _ | .call _ _ _ | .breakLoop _ | .continueLoop _ => exact h

lemma nodesPrintable_hookAll {inLoop : Bool} {ns : List Node} (h : NodesPrintable inLoop ns) :
    NodesPrintable inLoop (hookAll ns) := by
  match ns with
  | []      => trivial
  | n :: ns => exact ⟨Node.isPrintable_withHooks h.1, nodesPrintable_hookAll h.2⟩

end

section Found

variable {ctx : PipelineContext} {place : Enclosure} {scope scope' : List String}

lemma Leaf.isPrintable {item : Item} {node : Node} (h : Leaf ctx place scope item node scope')
    (hitem : item.IsLexed .braces) (hcall : item.isCall = false) :
    node.IsPrintable place.inLoop := by
  cases h with
  | text => exact ⟨hitem.1, hitem.2 (by decide)⟩
  | comment => exact hitem
  | action => trivial
  | call | callWith => cases hcall
  | breakLoop hloop | continueLoop hloop => exact hloop

/-- Sections between braces without calls can be found again. -/
lemma Spells.isPrintable {items : List Item} {part : Section} {defs : List Tree}
    (h : Spells ctx place scope items part defs scope')
    (hitems : ∀ item ∈ items, item.IsLexed .braces ∧ item.isCall = false) :
    part.IsPrintable place.inLoop ∧ ∀ t ∈ defs, t.IsPrintable := by
  induction h with
  | nil => exact ⟨trivial, by simp⟩
  | finish => exact ⟨trivial, by simp⟩
  | leaf hleaf _ ih =>
    obtain ⟨⟨hitem, hcall⟩, hitems⟩ := List.forall_mem_cons.mp hitems
    obtain ⟨hnodes, hdefs⟩ := ih hitems
    exact ⟨⟨hleaf.isPrintable hitem hcall, hnodes⟩, hdefs⟩
  | branch _ _ _ _ ihbody ihtail ih =>
    simp only [List.forall_mem_cons, List.forall_mem_append] at hitems
    obtain ⟨-, hbodyItems, htailItems, hitems⟩ := hitems
    obtain ⟨hbody, hbodyDefs⟩ := ihbody hbodyItems
    obtain ⟨htail, htailDefs⟩ := ihtail htailItems
    obtain ⟨hnodes, hdefs⟩ := ih hitems
    simp only [List.forall_mem_append]
    exact ⟨⟨⟨hbody, htail⟩, hnodes⟩, hbodyDefs, htailDefs, hdefs⟩
  | define _ _ _ ihbody ih =>
    simp only [List.forall_mem_cons, List.forall_mem_append] at hitems
    obtain ⟨-, hbodyItems, -, hitems⟩ := hitems
    obtain ⟨hbody, hbodyDefs⟩ := ihbody hbodyItems
    obtain ⟨hnodes, hdefs⟩ := ih hitems
    simp only [List.forall_mem_append, List.forall_mem_cons]
    exact ⟨hnodes, hbodyDefs, hbody, hdefs⟩
  | block =>
    obtain ⟨⟨-, hcall⟩, -⟩ := List.forall_mem_cons.mp hitems
    cases hcall
  | otherwise _ ih =>
    simp only [List.forall_mem_cons, List.forall_mem_append] at hitems
    exact ih hitems.2.1
  | chained _ _ _ _ ihbody ihtail =>
    simp only [List.forall_mem_cons, List.forall_mem_append] at hitems
    obtain ⟨-, hbodyItems, htailItems⟩ := hitems
    obtain ⟨hbody, hbodyDefs⟩ := ihbody hbodyItems
    obtain ⟨htail, htailDefs⟩ := ihtail htailItems
    simp only [List.forall_mem_append]
    exact ⟨⟨⟨hbody, htail⟩, trivial⟩, hbodyDefs, htailDefs⟩

/-- The trees of a source between braces without calls can be found again. -/
lemma ofSource_isPrintable {isFunction : String → Bool} {name source : String} {trees : Dict Tree}
    (h : Tree.ofSource .braces isFunction name source = .ok trees)
    (hcalls : ∀ items, Item.ofSource .braces source = .ok items → ∀ item ∈ items,
      item.isCall = false) : ∀ e ∈ trees.entries, e.2.IsPrintable := by
  obtain ⟨items, nodes, defs, pos, scope, hitems, hspelled, htrees⟩ := ofSource_spelled h
  have hlexed := ofSource_isLexed hitems
  obtain ⟨hmain, hdefs⟩ := hspelled.isPrintable
    fun item hitem => ⟨hlexed item hitem, hcalls items hitems item hitem⟩
  refine foldlM_addTree_keeps htrees ?_ (by simp [Dict.empty])
  rw [List.forall_mem_append, List.forall_mem_singleton]
  exact ⟨hdefs, hmain⟩

end Found

/-! ### Pieces of nodes -/

section Pieces

variable {known : String → Bool}

mutual

/-- The pieces of a node that can be found again can be found again. -/
lemma Node.fragments_isLexical {inLoop : Bool} {scope : List String} {n : Node}
    (h : n.IsPrintable inLoop) (hpipes : AllReadable known (n.pipes scope)) :
    ∀ f ∈ n.fragments, f.IsLexical known := by
  match n with
  | .text _ _ | .comment _ _ =>
    rw [Node.fragments, List.forall_mem_singleton]
    exact h
  | .action _ p =>
    rw [Node.fragments, List.forall_mem_singleton]
    exact ⟨scope, hpipes.head⟩
  | .branch kind _ p ⟨_, body⟩ otherwise =>
    rw [Node.pipes, AllReadable.append, AllReadable.append] at hpipes
    obtain ⟨hp, hbody, helse⟩ := hpipes
    rw [Node.fragments, List.forall_mem_cons, List.forall_mem_append]
    exact ⟨⟨_, scope, hp.head⟩, nodesFragments_isLexical h.1 hbody,
      elseFragments_isLexical h.2 helse⟩
  | .call _ _ _ => exact absurd h id
  | .breakLoop _ | .continueLoop _ =>
    rw [Node.fragments, List.forall_mem_singleton]
    trivial

/-- The pieces of printable nodes are pieces that can be found again. -/
lemma nodesFragments_isLexical {inLoop : Bool} {scope : List String} {ns : List Node}
    (h : NodesPrintable inLoop ns) (hpipes : AllReadable known (nodesPipes scope ns)) :
    ∀ f ∈ nodesFragments ns, f.IsLexical known := by
  match ns with
  | []      => exact fun f hf => absurd hf List.not_mem_nil
  | n :: ns =>
    rw [nodesPipes, AllReadable.append] at hpipes
    rw [nodesFragments, List.forall_mem_append]
    exact ⟨Node.fragments_isLexical h.1 hpipes.1, nodesFragments_isLexical h.2 hpipes.2⟩

lemma elseFragments_isLexical {inLoop : Bool} {scope : List String} {otherwise : Option Block}
    (h : ElsePrintable inLoop otherwise) (hpipes : AllReadable known (elsePipes scope otherwise)) :
    ∀ f ∈ elseFragments otherwise, f.IsLexical known := by
  match otherwise with
  | none         =>
    rw [elseFragments, List.forall_mem_singleton]
    trivial
  | some ⟨_, ns⟩ =>
    rw [elseFragments, List.forall_mem_cons, List.forall_mem_append, List.forall_mem_singleton]
    exact ⟨trivial, nodesFragments_isLexical h hpipes, trivial⟩

end

end Pieces

/-- The first piece behind an open text is a text. -/
lemma Lexes.text_cons {open₁ : List Char} {t : String} {fs : List Fragment} {items : List Item}
    (h : Lexes open₁ (.text t :: fs) items) : Lexes (open₁ ++ t.toList) fs items := by
  cases h with
  | text h => exact h
  | enclosed _ hmatches _ => cases hmatches

/-- The first piece behind an open text stands between braces, and the text ends before it. -/
lemma Lexes.enclosed_cons {open₁ : List Char} {f : Fragment} {fs : List Fragment}
    {items : List Item} (h : Lexes open₁ (f :: fs) items) (hf : ∀ t, f ≠ .text t) :
    ∃ o item items', items = textItem o open₁ false false ++ item :: items' ∧ f.Matches item ∧
      Lexes [] fs items' := by
  cases h with
  | text _ => exact absurd rfl (hf _)
  | enclosed o hmatches hrest => exact ⟨o, _, _, rfl, hmatches, hrest⟩

namespace Fragment.Matches

lemma comment_eq {t : String} {item : Item} (h : (Fragment.comment t).Matches item) :
    ∃ o, item = .comment o t := by
  cases h with
  | comment o => exact ⟨o, rfl⟩

lemma action_eq {p : Pipeline} {item : Item} (h : (Fragment.action p).Matches item) :
    ∃ o tokens, item = .action o tokens ∧
      tokens.map Token.word = spaceFirst true (p.words false) := by
  cases h with
  | action htokens => exact ⟨_, _, rfl, htokens⟩

lemma clause_eq {k : Keyword} {p : Option Pipeline} {item : Item}
    (h : (Fragment.clause k p).Matches item) :
    ∃ o at₁ ts, item = .clause o k at₁ true ts ∧
      ts.map Token.word = (Fragment.clause k p).words.tail := by
  cases h with
  | clause htokens =>
    have hwords : spaceFirst true (Fragment.clause k p).words =
        ⟨.keyword k, true⟩ :: (Fragment.clause k p).words.tail := by
      cases p <;> rfl
    rw [hwords, List.map_eq_cons_iff] at htokens
    obtain ⟨t, ts, rfl, ht, hts⟩ := htokens
    obtain ⟨at₁, rfl⟩ := word_eq_iff.mp ht
    exact ⟨_, at₁, ts, rfl, hts⟩

lemma keyword_eq {k : Keyword} {item : Item} (h : (Fragment.clause k none).Matches item) :
    ∃ o at₁, item = .clause o k at₁ true [] := by
  obtain ⟨o, at₁, ts, rfl, hts⟩ := h.clause_eq
  obtain rfl := List.map_eq_nil_iff.mp hts
  exact ⟨o, at₁, rfl⟩

end Fragment.Matches

/-! ### Texts that are spelled again -/

lemma hookAll_append (ns ms : List Node) : hookAll (ns ++ ms) = hookAll ns ++ hookAll ms := by
  induction ns with
  | nil          => rfl
  | cons n ns ih => rw [List.cons_append, hookAll, hookAll, ih, List.cons_append]

lemma nodesFragments_append (ns ms : List Node) :
    nodesFragments (ns ++ ms) = nodesFragments ns ++ nodesFragments ms := by
  induction ns with
  | nil          => rfl
  | cons n ns ih => rw [List.cons_append, nodesFragments, nodesFragments, ih, List.append_assoc]

/-- What the nodes are printed as with the calls of the encoder. -/
def hookedText (ns : List Node) : List Char := fragmentsText (nodesFragments (hookAll ns))

/-- What an else part and the end of its branch are printed as with the calls of the encoder. -/
def hookedElse (otherwise : Option Block) : List Char :=
  fragmentsText (elseFragments (otherwise.map BlockOf.withHooks))

lemma hookedText_append (ns ms : List Node) :
    hookedText (ns ++ ms) = hookedText ns ++ hookedText ms := by
  rw [hookedText, hookAll_append, nodesFragments_append, fragmentsText_append]
  rfl

lemma hookedText_singleton (n : Node) : hookedText [n] = fragmentsText n.withHooks.fragments := by
  rw [hookedText, hookAll, hookAll, nodesFragments, nodesFragments, List.append_nil]

lemma hookedText_cons (n : Node) (ns : List Node) :
    hookedText (n :: ns) = hookedText [n] ++ hookedText ns :=
  hookedText_append [n] ns

lemma hookedText_branch (kind : Control) (pos start : Position) (p : Pipeline) (body : List Node)
    (otherwise : Option Block) :
    hookedText [.branch kind pos p ⟨start, body⟩ otherwise] =
      (Fragment.clause kind.keyword (some p)).print.toList ++
        (hookedText body ++ hookedElse otherwise) := by
  rw [hookedText_singleton]
  cases otherwise with
  | none =>
    rw [Node.withHooks, Node.fragments, fragmentsText_cons, fragmentsText_append]
    rfl
  | some block =>
    obtain ⟨start', nodes⟩ := block
    rw [Node.withHooks, Node.fragments, fragmentsText_cons, fragmentsText_append]
    rfl

lemma hookedElse_some (start : Position) (nodes : List Node) :
    hookedElse (some ⟨start, nodes⟩) = (Fragment.clause .otherwise none).print.toList ++
      (hookedText nodes ++ (Fragment.clause .finish none).print.toList) := by
  rw [hookedElse, Option.map_some, BlockOf.withHooks, elseFragments, fragmentsText_cons,
    fragmentsText_append]
  rfl

section Respelling

variable {ctx : PipelineContext} {place : Enclosure} {scope scope₁ scope' : List String}

/-- The items spell nodes that are printed as the text, and define nothing. -/
def SpellsText (ctx : PipelineContext) (place : Enclosure) (scope : List String)
    (items : List Item) (text : List Char) (scope' : List String) : Prop :=
  ∃ ns, Spells ctx place scope items (.statements ns) [] scope' ∧ hookedText ns = text

lemma SpellsText.append {items items' : List Item} {text text' : List Char}
    (h : SpellsText ctx place scope items text scope₁)
    (h' : SpellsText ctx place scope₁ items' text' scope') :
    SpellsText ctx place scope (items ++ items') (text ++ text') scope' := by
  obtain ⟨ns, hns, rfl⟩ := h
  obtain ⟨ms, hms, rfl⟩ := h'
  exact ⟨ns ++ ms, hns.append hms, hookedText_append ns ms⟩

lemma Leaf.spellsText {item : Item} {node : Node} (h : Leaf ctx place scope item node scope') :
    SpellsText ctx place scope [item] (hookedText [node]) scope' :=
  ⟨[node], .leaf h .nil, rfl⟩

/-- A text between other pieces is spelled by its item, and the empty text by nothing. -/
lemma textItem_spellsText (o : Nat) (s : List Char) :
    SpellsText ctx place scope (textItem o s false false) s scope := by
  cases s with
  | nil       => exact ⟨[], .nil, rfl⟩
  | cons c cs =>
    refine ⟨[_], .leaf (.text _ _) .nil, ?_⟩
    rw [hookedText_singleton]
    exact (List.append_nil _).trans String.toList_ofList

/-- The first ones of the items spell the text behind the one that is still open, up to a text that
is open again; the others are those of the remaining pieces. -/
def Respells (ctx : PipelineContext) (place : Enclosure) (scope : List String)
    (open₁ text : List Char) (rest : List Fragment) (items : List Item)
    (scope' : List String) : Prop :=
  ∃ items₁ items₂ text₁ open₂, items = items₁ ++ items₂ ∧
    SpellsText ctx place scope items₁ text₁ scope' ∧ Lexes open₂ rest items₂ ∧
    text₁ ++ open₂ = open₁ ++ text

/-- What stands between braces ends the open text. -/
lemma SpellsText.respells {items₁ items₂ : List Item} {text : List Char} {rest : List Fragment}
    (h : SpellsText ctx place scope items₁ text scope') (hrest : Lexes [] rest items₂) (o : Nat)
    (open₁ : List Char) :
    Respells ctx place scope open₁ text rest (textItem o open₁ false false ++ (items₁ ++ items₂))
      scope' :=
  ⟨textItem o open₁ false false ++ items₁, items₂, open₁ ++ text, [],
    (List.append_assoc _ _ _).symm, (textItem_spellsText o open₁).append h, hrest,
    List.append_nil _⟩

/-- An action is read again, and it is printed as the action with its call of the encoder. -/
lemma Fragment.Matches.action_spellsText {p : Pipeline} {item : Item} {pos : Position}
    (h : (Fragment.action p).Matches item) (hp : p.Readable ctx.isFunction false scope) :
    SpellsText ctx place scope [item] (hookedText [.action pos p]) (p.scopeBehind scope) := by
  obtain ⟨o, tokens, rfl, htokens⟩ := h.action_eq
  obtain ⟨kind, ws, hwords⟩ := hp.words_eq_cons
  have hspaced : tokens.map Token.word = p.words true := by
    rw [htokens, hwords, hwords]
    rfl
  have hp : p.Readable (ctx.inAction o).isFunction (Clause.isLoop .command) scope := hp
  obtain ⟨p', hp', hsame⟩ := hp.ofTokens_again hspaced
  have hprint : hookedText [.action (ctx.positionOf o) p'] = hookedText [.action pos p] := by
    rw [hookedText_singleton, hookedText_singleton]
    simp only [Node.withHooks, Node.fragments, fragmentsText_cons, Fragment.print,
      PipelineOf.print_withHook_of_unplaced hsame]
  rw [← hprint]
  exact Leaf.spellsText (.action hp')

mutual

lemma Node.respells {n : Node} {place : Enclosure} {scope : List String} {open₁ : List Char}
    {rest : List Fragment} {items : List Item} (h : n.IsPrintable place.inLoop)
    (hpipes : AllReadable ctx.isFunction (n.pipes scope))
    (hlexes : Lexes open₁ (n.fragments ++ rest) items) :
    Respells ctx place scope open₁ (hookedText [n]) rest items (n.scopeBehind scope) := by
  match n with
  | .text _ t =>
    refine ⟨[], items, [], open₁ ++ t.toList, rfl, ⟨[], .nil, rfl⟩, hlexes.text_cons, ?_⟩
    rw [hookedText_singleton]
    exact congrArg (open₁ ++ ·) (List.append_nil _).symm
  | .comment _ t =>
    obtain ⟨o, _, items', rfl, hmatches, hrest⟩ := hlexes.enclosed_cons (by simp)
    obtain ⟨o', rfl⟩ := hmatches.comment_eq
    exact (Leaf.spellsText (.comment o' t)).respells hrest o open₁
  | .action _ p =>
    obtain ⟨o, _, items', rfl, hmatches, hrest⟩ := hlexes.enclosed_cons (by simp)
    exact (hmatches.action_spellsText hpipes.head).respells hrest o open₁
  | .call _ _ _ => exact absurd h id
  | .breakLoop _ =>
    obtain ⟨o, _, items', rfl, hmatches, hrest⟩ := hlexes.enclosed_cons (by simp)
    obtain ⟨o', at₁, rfl⟩ := hmatches.keyword_eq
    exact (Leaf.spellsText (.breakLoop h)).respells hrest o open₁
  | .continueLoop _ =>
    obtain ⟨o, _, items', rfl, hmatches, hrest⟩ := hlexes.enclosed_cons (by simp)
    obtain ⟨o', at₁, rfl⟩ := hmatches.keyword_eq
    exact (Leaf.spellsText (.continueLoop h)).respells hrest o open₁
  | .branch kind pos p ⟨start, body⟩ otherwise =>
    rw [Node.pipes, AllReadable.append, AllReadable.append] at hpipes
    obtain ⟨hp, hbodyPipes, helsePipes⟩ := hpipes
    rw [Node.fragments, List.cons_append, List.append_assoc] at hlexes
    obtain ⟨o, _, _, rfl, hmatches, hinside⟩ := hlexes.enclosed_cons (by simp)
    obtain ⟨o', at₁, ts, rfl, hts⟩ := hmatches.clause_eq
    have hp : p.Readable (ctx.inAction o').isFunction (Clause.branch kind).isLoop scope := by
      rw [Control.isLoop_branch]
      exact hp.head
    obtain ⟨p', hp', hsame⟩ := hp.ofTokens_again hts
    have hprint : p'.print = p.print := by
      rw [← PipelineOf.print_unplaced, hsame, PipelineOf.print_unplaced]
    have hbody : NodesPrintable (place.body kind).inLoop body := h.1
    obtain ⟨bodyItems, _, bodyText, open₂, rfl, hspelled, hbehind, htext⟩ :=
      nodes_respell hbody hbodyPipes hinside
    obtain ⟨o₂, tailItems, items₂, otherwise', _, rfl, htail, hrest, helse⟩ :=
      else_respells kind h.2 helsePipes hbehind
    -- the text before the else part ends the body
    obtain ⟨body', hbody', hbodyText⟩ := hspelled.append (textItem_spellsText o₂ open₂)
    rw [htext, List.nil_append] at hbodyText
    have hbranch : hookedText [.branch kind (ctx.positionOf o') p' ⟨ctx.positionOf o', body'⟩
        otherwise'] = hookedText [.branch kind pos p ⟨start, body⟩ otherwise] := by
      rw [hookedText_branch, hookedText_branch, hbodyText, helse, Fragment.print, Fragment.print,
        hprint]
    have hspells : SpellsText ctx place scope
        (.clause o' kind.keyword at₁ true ts ::
          (bodyItems ++ textItem o₂ open₂ false false ++ (tailItems ++ [])))
        (hookedText [.branch kind pos p ⟨start, body⟩ otherwise]) scope :=
      ⟨_, .branch hp' hbody' htail .nil, hbranch⟩
    have hrespells := hspells.respells hrest o open₁
    simp only [List.cons_append, List.append_assoc, List.nil_append] at hrespells
    exact hrespells

lemma nodes_respell {ns : List Node} {place : Enclosure} {scope : List String} {open₁ : List Char}
    {rest : List Fragment} {items : List Item} (h : NodesPrintable place.inLoop ns)
    (hpipes : AllReadable ctx.isFunction (nodesPipes scope ns))
    (hlexes : Lexes open₁ (nodesFragments ns ++ rest) items) :
    Respells ctx place scope open₁ (hookedText ns) rest items (nodesScope scope ns) := by
  match ns with
  | [] => exact ⟨[], items, [], open₁, rfl, ⟨[], .nil, rfl⟩, hlexes, (List.append_nil _).symm⟩
  | n :: ns =>
    rw [nodesPipes, AllReadable.append] at hpipes
    rw [nodesFragments, List.append_assoc] at hlexes
    obtain ⟨items₁, _, text₁, open₂, rfl, hn, hlexes, htext₁⟩ := Node.respells h.1 hpipes.1 hlexes
    obtain ⟨items₂, items₃, text₂, open₃, rfl, hns, hrest, htext₂⟩ :=
      nodes_respell h.2 hpipes.2 hlexes
    refine ⟨items₁ ++ items₂, items₃, text₁ ++ text₂, open₃, (List.append_assoc _ _ _).symm,
      hn.append hns, hrest, ?_⟩
    rw [List.append_assoc, htext₂, ← List.append_assoc, htext₁, List.append_assoc,
      hookedText_cons n ns]

lemma else_respells {otherwise : Option Block} {place : Enclosure} {scope : List String}
    {open₁ : List Char} {rest : List Fragment} {items : List Item} (kind : Control)
    (h : ElsePrintable place.inLoop otherwise)
    (hpipes : AllReadable ctx.isFunction (elsePipes scope otherwise))
    (hlexes : Lexes open₁ (elseFragments otherwise ++ rest) items) :
    ∃ o tailItems items₂ otherwise' scope',
      items = textItem o open₁ false false ++ (tailItems ++ items₂) ∧
        Spells ctx place scope tailItems (.tail kind otherwise') [] scope' ∧
        Lexes [] rest items₂ ∧ hookedElse otherwise' = hookedElse otherwise := by
  match otherwise with
  | none =>
    obtain ⟨o, _, items', rfl, hmatches, hrest⟩ := hlexes.enclosed_cons (by simp)
    obtain ⟨o', at₁, rfl⟩ := hmatches.keyword_eq
    exact ⟨o, [_], items', none, scope, rfl, .finish, hrest, rfl⟩
  | some ⟨_, ns⟩ =>
    rw [elseFragments, List.cons_append, List.append_assoc] at hlexes
    obtain ⟨o, _, _, rfl, hmatches, hinside⟩ := hlexes.enclosed_cons (by simp)
    obtain ⟨o', at₁, rfl⟩ := hmatches.keyword_eq
    have h : NodesPrintable place.otherwise.inLoop ns := h
    obtain ⟨elseItems, _, elseText, open₂, rfl, hspelled, hbehind, htext⟩ :=
      nodes_respell h hpipes hinside
    obtain ⟨o₂, _, items₂, rfl, hend, hrest⟩ := hbehind.enclosed_cons (by simp)
    obtain ⟨o₃, at₂, rfl⟩ := hend.keyword_eq
    obtain ⟨ns', hns', hnsText⟩ := hspelled.append (textItem_spellsText o₂ open₂)
    rw [htext, List.nil_append] at hnsText
    refine ⟨o, .clause o' .otherwise at₁ true [] :: (elseItems ++ textItem o₂ open₂ false false ++
      [.clause o₃ .finish at₂ true []]), items₂, some ⟨ctx.positionOf o', ns'⟩, _, by simp,
      .otherwise hns', hrest, ?_⟩
    rw [hookedElse_some, hookedElse_some, hnsText]

end

end Respelling

/-! ### Printed trees -/

/-- A tree without calls is read again from what it is printed as, where its texts keep apart from
what follows them. The tree that is read is printed with the same calls of the encoder. -/
theorem Tree.ofSource_print {known : String → Bool} {t : Tree} (h : t.IsPrintable)
    (hpipes : AllReadable known t.pipes) (hapart : t.fragments.IsChain Fragment.Apart)
    (name : String) :
    ∃ t', Tree.ofSource .braces known name t.print = .ok ⟨[(name, t')]⟩ ∧
      t'.withHooks.print = t.withHooks.print := by
  have hstart : ∀ f ∈ t.fragments.head?,
      ¬ (([] : List Char).getLast? = some '\x7b' ∧ f.print.toList.head? = some '\x7b') := by
    simp
  obtain ⟨items, hitems, hlexes⟩ :=
    lexFrom_fragments (nodesFragments_isLexical h hpipes) hapart (by decide) hstart 0
  have hsource : Item.ofSource .braces t.print = .ok items := by
    rw [Item.ofSource, ← hitems, List.nil_append]
    exact congrArg _ (nodesFragmentsText_eq t.root.nodes).symm
  have hmain : NodesPrintable Enclosure.main.inLoop t.root.nodes := h
  rw [← List.append_nil (nodesFragments _)] at hlexes
  have hrespells : Respells (.ofSource known t.print) .main ["$"] [] _ [] items _ :=
    nodes_respell hmain hpipes hlexes
  obtain ⟨items₁, _, text₁, open₂, rfl, hspelled, hend, htext⟩ := hrespells
  cases hend with
  | nil o =>
    -- what is still open at the end is the last text
    obtain ⟨ns, hns, hnsText⟩ := hspelled.append (textItem_spellsText o open₂)
    rw [htext, List.nil_append, hookedText, hookedText, nodesFragmentsText_eq,
      nodesFragmentsText_eq, String.toList_inj] at hnsText
    exact ⟨_, ofSource_of_spells hsource hns rfl, hnsText⟩

/-- A printed template is read again and printed in the same way again: the main tree of a source
without calls, with the calls of the encoder, where no text that ends in a left brace stands
directly before a piece that begins with one. -/
theorem ofSource_print_again {isFunction known : String → Bool} {name source : String}
    {trees : Dict Tree} {t : Tree}
    (h : Tree.ofSource .braces isFunction name source = .ok trees)
    (hcalls : ∀ items, Item.ofSource .braces source = .ok items → ∀ item ∈ items,
      item.isCall = false)
    (ht : trees.get? name = some t)
    (hknown : ∀ f, isFunction f = true → known f = true) (hhook : known hookName = true)
    (hapart : t.withHooks.fragments.IsChain Fragment.Apart) :
    ∃ t', Tree.ofSource .braces known name t.withHooks.print = .ok ⟨[(name, t')]⟩ ∧
      t'.withHooks.print = t.withHooks.print := by
  obtain ⟨e, he, rfl⟩ := Option.map_eq_some_iff.mp ht
  have hmem := List.mem_of_find?_eq_some he
  have hprintable : e.2.withHooks.IsPrintable :=
    nodesPrintable_hookAll (ofSource_isPrintable h hcalls e hmem)
  have hpipes : AllReadable known e.2.withHooks.pipes := by
    intro q hq
    obtain ⟨q₀, hq₀, hhooked⟩ := e.2.pipes_withHooks q hq
    have hreadable := (ofSource_pipes h e hmem q₀ hq₀).isReadable.mono hknown
    rcases hhooked with rfl | rfl
    · exact hreadable
    · exact hreadable.withHook hhook
  obtain ⟨t', ht', hprint⟩ := Tree.ofSource_print hprintable hpipes hapart name
  rw [Tree.withHooks_withHooks] at hprint
  exact ⟨t', ht', hprint⟩

/-- A comment, a definition, and a row of branches in a loop, with trim markers. -/
theorem ofSource_print_again_of_row :
    let isFunction : String → Bool := fun f => f = "len"
    let known : String → Bool := fun f => isFunction f || f = hookName
    let source := "\x7b\x7b/* rows */ -\x7d\x7d\n \x7b\x7bdefine \"row\"\x7d\x7d?\x7b\x7bend" ++
      "\x7d\x7da\x7b\x7brange $i, $x := .Rows\x7d\x7d\x7b\x7bif $i\x7d\x7d, \x7b\x7belse if ." ++
      "\x7d\x7d\x7b\x7bbreak\x7d\x7d\x7b\x7bend\x7d\x7d \x7b\x7b-  len   $x -\x7d\x7d " ++
      "\x7b\x7bend\x7d\x7d"
    let printed := "\x7b\x7b/* rows */\x7d\x7da\x7b\x7brange $i, $x := .Rows\x7d\x7d\x7b\x7b" ++
      "if $i\x7d\x7d, \x7b\x7belse\x7d\x7d\x7b\x7bif .\x7d\x7d\x7b\x7bbreak\x7d\x7d\x7b\x7b" ++
      "end\x7d\x7d\x7b\x7bend\x7d\x7d\x7b\x7blen $x | sqlliteral\x7d\x7d\x7b\x7bend\x7d\x7d"
    ∃ trees t, Tree.ofSource .braces isFunction "q" source = .ok trees ∧ trees.get? "q" = some t ∧
      t.withHooks.print = printed ∧
        ∃ t', Tree.ofSource .braces known "q" t.withHooks.print = .ok ⟨[("q", t')]⟩ ∧
          t'.withHooks.print = t.withHooks.print := by
  intro isFunction known source printed
  have hread : ((Tree.ofSource .braces isFunction "q" source).toOption.bind (·.get? "q")).any
      (fun t => t.withHooks.print = printed ∧
        t.withHooks.fragments.IsChain Fragment.Apart) = true := by
    decide +kernel
  have hnoCall : (Item.ofSource .braces source).toOption.all
      (fun items => items.all fun item => !item.isCall) = true := by
    decide +kernel
  have hcalls : ∀ items, Item.ofSource .braces source = .ok items → ∀ item ∈ items,
      item.isCall = false := by
    intro items hitems
    rw [hitems] at hnoCall
    simpa [Except.toOption] using hnoCall
  cases h : Tree.ofSource .braces isFunction "q" source with
  | error fault =>
    rw [h] at hread
    cases hread
  | ok trees =>
    rw [h] at hread
    cases ht : trees.get? "q" with
    | none =>
      simp [Except.toOption, ht] at hread
    | some t =>
      obtain ⟨hprint, hapart⟩ : t.withHooks.print = printed ∧
          t.withHooks.fragments.IsChain Fragment.Apart := by
        simpa [Except.toOption, ht] using hread
      exact ⟨trees, t, rfl, ht, hprint, ofSource_print_again h hcalls ht
        (fun f hf => by simp [known, hf]) (by simp [known]) hapart⟩

/-- A text that ends in a left brace makes another left delimiter with an action. -/
example :
    let source := "\x7b \x7b\x7b- .\x7d\x7d"
    let printed := "\x7b\x7b\x7b. | sqlliteral\x7d\x7d"
    ((Tree.ofSource .braces (fun _ => false) "q" source).toOption.bind (·.get? "q")).map
        (·.withHooks.print) = some printed ∧
      (Tree.ofSource .braces (· = hookName) "q" printed).toOption.isSome = false := by
  decide +kernel

end SafeQuery
