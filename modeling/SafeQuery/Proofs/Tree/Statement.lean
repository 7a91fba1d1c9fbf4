import Mathlib.Tactic.Common
import SafeQuery.Proofs.Tree.Step

/-!
# The statements of a source

`Spells` is the grammar of items: which items are the statements of which nodes, where the clauses
begin and end, and which trees are defined on the way. What the reader of clauses has read is
spelled by the items so far, `Nesting.Spelled.step`, so that the items of a source spell its trees,
`ofSource_spelled`.
-/

namespace SafeQuery

/-- Where statements stand. -/
structure Enclosure where
  /-- In no clause, so that definitions can be made. -/
  outermost : Bool
  /-- In the body of a loop, within the innermost definition. -/
  inLoop : Bool

namespace Enclosure

def main : Enclosure := ⟨true, false⟩

def definition : Enclosure := ⟨false, false⟩

def body (place : Enclosure) (kind : Control) : Enclosure := ⟨false, kind = .range || place.inLoop⟩

def otherwise (place : Enclosure) : Enclosure := ⟨false, place.inLoop⟩

def inside (place : Enclosure) : Opening → Enclosure
  | .define _ | .block _ _ => definition
  | .body kind _ _         => place.body kind
  | .otherwise ..          => place.otherwise

/-- Where the reader of clauses stands. -/
def within : List OpenClause → Enclosure
  | []      => main
  | c :: cs => (within cs).inside c.opening

lemma within_inLoop (cs : List OpenClause) : (within cs).inLoop = SafeQuery.inLoop cs := by
  induction cs with
  | nil => rfl
  | cons c cs ih =>
    obtain ⟨opening, pos, start, nodes, outer⟩ := c
    cases opening with
    | define | block => rfl
    | otherwise => exact ih
    | body kind =>
      cases kind with
      | range => rfl
      | cond | withValue => exact (Bool.false_or _).trans ih

lemma eq_nil_of_within_outermost {cs : List OpenClause} (h : (within cs).outermost = true) :
    cs = [] := by
  cases cs with
  | nil => rfl
  | cons c cs =>
    obtain ⟨opening, pos, start, nodes, outer⟩ := c
    cases opening <;> cases h

end Enclosure

/-- No pipeline begins with a keyword. -/
lemma ofTokens_keyword {c : PipelineContext} {clause : Clause} {scope : List String} {k : Keyword}
    {offset : Nat} {spaced : Bool} {ts : List Token} {r : Pipeline × List String} :
    PipelineOf.ofTokens c clause scope (⟨.keyword k, offset, spaced⟩ :: ts) ≠ .ok r := by
  simp [PipelineOf.ofTokens, readPipeline, readDeclarations, declare, endsPipeline, readCommands,
    readOperands, endsCommand, readOperand, Operand.ofToken, bind, Except.bind, pure, Except.pure]

/-- No pipeline is made of nothing. -/
lemma ofTokens_nil {c : PipelineContext} {clause : Clause} {scope : List String}
    {r : Pipeline × List String} : PipelineOf.ofTokens c clause scope [] ≠ .ok r := by
  simp [PipelineOf.ofTokens, readPipeline, readDeclarations, declare, endsPipeline, bind,
    Except.bind, pure, Except.pure]

/-! ### The grammar -/

abbrev Item.clause (o : Nat) (k : Keyword) (at₁ : Nat) (spaced : Bool) (ts : List Token) : Item :=
  .action o (⟨.keyword k, at₁, spaced⟩ :: ts)

/-- The item is a statement by itself, which is the node. It takes one scope to the other. -/
inductive Leaf (ctx : PipelineContext) (place : Enclosure) :
    List String → Item → Node → List String → Prop
  | text {scope : List String} (o : Nat) (t : String) :
      Leaf ctx place scope (.text o t) (.text (ctx.positionOf o) t) scope
  | comment {scope : List String} (o : Nat) (t : String) :
      Leaf ctx place scope (.comment o t) (.comment (ctx.positionOf o) t) scope
  | action {scope scope' : List String} {o : Nat} {ts : List Token} {pipe : Pipeline} :
      PipelineOf.ofTokens (ctx.inAction o) .command scope ts = .ok (pipe, scope') →
      Leaf ctx place scope (.action o ts) (.action (ctx.positionOf o) pipe) scope'
  | call {scope : List String} {o at₁ : Nat} {spaced : Bool} {ts : List Token} {name : String} :
      Nesting.clauseName .templateCall o ts = .ok (name, []) →
      Leaf ctx place scope (.clause o .template at₁ spaced ts)
        (.call (ctx.positionOf o) name none) scope
  | callWith {scope scope' : List String} {o at₁ : Nat} {spaced : Bool} {ts rest : List Token}
      {name : String} {argument : Pipeline} :
      Nesting.clauseName .templateCall o ts = .ok (name, rest) →
      PipelineOf.ofTokens (ctx.inAction o) .templateCall scope rest = .ok (argument, scope') →
      Leaf ctx place scope (.clause o .template at₁ spaced ts)
        (.call (ctx.positionOf o) name (some argument)) scope'
  | breakLoop {scope : List String} {o at₁ : Nat} {spaced : Bool} : place.inLoop = true →
      Leaf ctx place scope (.clause o .breakLoop at₁ spaced [])
        (.breakLoop (ctx.positionOf o)) scope
  | continueLoop {scope : List String} {o at₁ : Nat} {spaced : Bool} : place.inLoop = true →
      Leaf ctx place scope (.clause o .continueLoop at₁ spaced [])
        (.continueLoop (ctx.positionOf o)) scope

/-- What items can be as a whole. -/
inductive Section where
  /-- Statements, and the nodes that they are. -/
  | statements (nodes : List Node)
  /-- What follows the body of a branch, up to its end and with it: perhaps an else part. -/
  | tail (kind : Control) (otherwise : Option Block)

/-- At a place the items spell a section and define the trees, in the order in which the definitions
end. They take one scope to the other. A row of branches of one kind, each the else part of the one
before, has one end. -/
inductive Spells (ctx : PipelineContext) :
    Enclosure → List String → List Item → Section → List Tree → List String → Prop
  | nil {place : Enclosure} {scope : List String} :
      Spells ctx place scope [] (.statements []) [] scope
  | leaf {place : Enclosure} {scope scope₁ scope' : List String} {item : Item} {items : List Item}
      {node : Node} {nodes : List Node} {defs : List Tree} :
      Leaf ctx place scope item node scope₁ →
      Spells ctx place scope₁ items (.statements nodes) defs scope' →
      Spells ctx place scope (item :: items) (.statements (node :: nodes)) defs scope'
  | branch {place : Enclosure} {scope scope₁ scope₂ scope₃ scope' : List String} {o at₁ : Nat}
      {spaced : Bool} {ts : List Token} {kind : Control} {pipe : Pipeline}
      {bodyItems tailItems items : List Item} {body nodes : List Node} {otherwise : Option Block}
      {bodyDefs tailDefs defs : List Tree} :
      PipelineOf.ofTokens (ctx.inAction o) (.branch kind) scope ts = .ok (pipe, scope₁) →
      Spells ctx (place.body kind) scope₁ bodyItems (.statements body) bodyDefs scope₂ →
      Spells ctx place scope₂ tailItems (.tail kind otherwise) tailDefs scope₃ →
      Spells ctx place scope items (.statements nodes) defs scope' →
      Spells ctx place scope
        (.clause o kind.keyword at₁ spaced ts :: (bodyItems ++ (tailItems ++ items)))
        (.statements
          (.branch kind (ctx.positionOf o) pipe ⟨ctx.positionOf o, body⟩ otherwise :: nodes))
        (bodyDefs ++ (tailDefs ++ defs)) scope'
  | define {place : Enclosure} {scope scope₁ scope' : List String} {o at₁ at₂ o' at₃ : Nat}
      {spaced₁ spaced₂ spaced₃ : Bool} {quoted name : String} {bodyItems items : List Item}
      {body nodes : List Node} {bodyDefs defs : List Tree} :
      place.outermost = true →
      Spells ctx .definition ["$"] bodyItems (.statements body) bodyDefs scope₁ →
      Spells ctx place scope items (.statements nodes) defs scope' →
      Spells ctx place scope
        (.clause o .define at₁ spaced₁ [⟨.string quoted name, at₂, spaced₂⟩] ::
          (bodyItems ++ .clause o' .finish at₃ spaced₃ [] :: items))
        (.statements nodes) (bodyDefs ++ ⟨name, ⟨ctx.positionOf o, body⟩⟩ :: defs) scope'
  | block {place : Enclosure} {scope scope₁ scope₂ scope' : List String} {o at₁ o' at₃ : Nat}
      {spaced spaced₃ : Bool} {ts rest : List Token} {name : String} {argument : Pipeline}
      {bodyItems items : List Item} {body nodes : List Node} {bodyDefs defs : List Tree} :
      Nesting.clauseName .block o ts = .ok (name, rest) →
      PipelineOf.ofTokens (ctx.inAction o) .block scope rest = .ok (argument, scope₁) →
      Spells ctx .definition ["$"] bodyItems (.statements body) bodyDefs scope₂ →
      Spells ctx place scope₁ items (.statements nodes) defs scope' →
      Spells ctx place scope
        (.clause o .block at₁ spaced ts ::
          (bodyItems ++ .clause o' .finish at₃ spaced₃ [] :: items))
        (.statements (.call (ctx.positionOf o) name (some argument) :: nodes))
        (bodyDefs ++ ⟨name, ⟨ctx.positionOf o, body⟩⟩ :: defs) scope'
  | finish {place : Enclosure} {scope : List String} {o at₁ : Nat} {spaced : Bool}
      {kind : Control} :
      Spells ctx place scope [.clause o .finish at₁ spaced []] (.tail kind none) [] scope
  | otherwise {place : Enclosure} {scope scope' : List String} {o at₁ o' at₂ : Nat}
      {spaced₁ spaced₂ : Bool} {kind : Control} {items : List Item} {nodes : List Node}
      {defs : List Tree} :
      Spells ctx place.otherwise scope items (.statements nodes) defs scope' →
      Spells ctx place scope
        (.clause o .otherwise at₁ spaced₁ [] :: (items ++ [.clause o' .finish at₂ spaced₂ []]))
        (.tail kind (some ⟨ctx.positionOf o, nodes⟩)) defs scope'
  | chained {place : Enclosure} {scope scope₁ scope₂ scope' : List String} {o at₁ at₂ : Nat}
      {spaced₁ spaced₂ : Bool} {ts : List Token} {kind : Control} {pipe : Pipeline}
      {bodyItems tailItems : List Item} {body : List Node} {otherwise : Option Block}
      {bodyDefs tailDefs : List Tree} :
      kind ≠ .range →
      PipelineOf.ofTokens (ctx.inAction o) (.branch kind) scope ts = .ok (pipe, scope₁) →
      Spells ctx (place.body kind) scope₁ bodyItems (.statements body) bodyDefs scope₂ →
      Spells ctx place scope₂ tailItems (.tail kind otherwise) tailDefs scope' →
      Spells ctx place scope
        (.clause o .otherwise at₁ spaced₁ (⟨.keyword kind.keyword, at₂, spaced₂⟩ :: ts) ::
          (bodyItems ++ tailItems))
        (.tail kind (some ⟨ctx.positionOf o,
          [.branch kind (ctx.positionOf o) pipe ⟨ctx.positionOf o, body⟩ otherwise]⟩))
        (bodyDefs ++ tailDefs) scope'

section Derivations

variable {ctx : PipelineContext} {place : Enclosure}

/-- Items side by side spell their statements side by side. -/
lemma Spells.append {scope scope₁ scope₂ : List String} {items items' : List Item}
    {nodes nodes' : List Node} {defs defs' : List Tree}
    (h : Spells ctx place scope items (.statements nodes) defs scope₁)
    (h' : Spells ctx place scope₁ items' (.statements nodes') defs' scope₂) :
    Spells ctx place scope (items ++ items') (.statements (nodes ++ nodes')) (defs ++ defs')
      scope₂ := by
  generalize hsection : Section.statements nodes = part at h
  induction h generalizing nodes with
  | nil =>
    cases hsection
    exact h'
  | leaf hleaf _ ih =>
    cases hsection
    exact .leaf hleaf (ih h' rfl)
  | branch hp hbody htail _ _ _ ih =>
    cases hsection
    simp only [List.cons_append, List.append_assoc]
    exact .branch hp hbody htail (ih h' rfl)
  | define houter hbody _ _ ih =>
    cases hsection
    simp only [List.cons_append, List.append_assoc]
    exact .define houter hbody (ih h' rfl)
  | block hname hp hbody _ _ ih =>
    cases hsection
    simp only [List.cons_append, List.append_assoc]
    exact .block hname hp hbody (ih h' rfl)
  | finish | otherwise | chained => cases hsection

/-! ### Open clauses -/

/-- The item opens a branch of the kind: the first one of a row, or one that is the else part of
those before. -/
inductive OpensBranch (kind : Control) (o : Nat) (ts : List Token) : List Link → Item → Prop
  | first {at₁ : Nat} {spaced : Bool} :
      OpensBranch kind o ts [] (.clause o kind.keyword at₁ spaced ts)
  | next {at₁ at₂ : Nat} {spaced₁ spaced₂ : Bool} {l : Link} {ls : List Link} : kind ≠ .range →
      OpensBranch kind o ts (l :: ls)
        (.clause o .otherwise at₁ spaced₁ (⟨.keyword kind.keyword, at₂, spaced₂⟩ :: ts))

/-- Behind a row the items open a branch and spell its body. -/
inductive BranchSpelled (ctx : PipelineContext) (place : Enclosure) (row : List Link)
    (kind : Control) (scope : List String) :
    Position → Pipeline → Block → List Item → List Tree → List String → Prop
  | mk {o : Nat} {ts : List Token} {item : Item} {pipe : Pipeline} {items : List Item}
      {nodes : List Node} {defs : List Tree} {scope₁ scope' : List String} :
      OpensBranch kind o ts row item →
      PipelineOf.ofTokens (ctx.inAction o) (.branch kind) scope ts = .ok (pipe, scope₁) →
      Spells ctx (place.body kind) scope₁ items (.statements nodes) defs scope' →
      BranchSpelled ctx place row kind scope (ctx.positionOf o) pipe ⟨ctx.positionOf o, nodes⟩
        (item :: items) defs scope'

/-- A branch just opened. -/
lemma BranchSpelled.opened {row : List Link} {kind : Control} {scope scope₁ : List String} {o : Nat}
    {ts : List Token} {item : Item} {pipe : Pipeline} (hopens : OpensBranch kind o ts row item)
    (hp : PipelineOf.ofTokens (ctx.inAction o) (.branch kind) scope ts = .ok (pipe, scope₁)) :
    BranchSpelled ctx place row kind scope (ctx.positionOf o) pipe
      ⟨ctx.positionOf o, List.reverse []⟩ [item] [] scope₁ :=
  .mk hopens hp .nil

/-- The items open the branches of a row, one behind the other, and spell their bodies. -/
inductive RowSpelled (ctx : PipelineContext) (place : Enclosure) (kind : Control)
    (opened : List String) : List Link → List Item → List Tree → List String → Prop
  | nil : RowSpelled ctx place kind opened [] [] [] opened
  | cons {pos : Position} {pipe : Pipeline} {body : Block} {ls : List Link}
      {items items' : List Item} {defs defs' : List Tree} {scope scope' : List String} :
      RowSpelled ctx place kind opened ls items defs scope →
      BranchSpelled ctx place ls kind scope pos pipe body items' defs' scope' →
      RowSpelled ctx place kind opened (⟨kind, pos, pipe, body⟩ :: ls) (items ++ items')
        (defs ++ defs') scope'

/-- A row is spelled as a whole when its last branch is. -/
lemma RowSpelled.chain {kind : Control} {opened scope scope' scope'' : List String}
    {row : List Link} {items items' tailItems : List Item} {defs defs' tailDefs : List Tree}
    {pos : Position} {pipe : Pipeline} {body : Block} {otherwise : Option Block}
    (hrow : RowSpelled ctx place kind opened row items defs scope)
    (hlast : BranchSpelled ctx place row kind scope pos pipe body items' defs' scope')
    (htail : Spells ctx place scope' tailItems (.tail kind otherwise) tailDefs scope'') :
    Spells ctx place opened (items ++ items' ++ tailItems)
      (.statements [SafeQuery.chain (.branch kind pos pipe body otherwise) row])
      (defs ++ defs' ++ tailDefs) opened := by
  rw [List.append_assoc, List.append_assoc]
  induction hrow generalizing pos pipe body items' defs' scope' tailItems tailDefs otherwise with
  | nil =>
    obtain ⟨hopens, hp, hbody⟩ := hlast
    cases hopens with
    | first =>
      rw [List.nil_append, List.nil_append, List.cons_append, ← List.append_nil tailItems,
        ← List.append_nil tailDefs]
      exact .branch hp hbody htail .nil
  | cons hrow hlink ih =>
    obtain ⟨hopens, hp, hbody⟩ := hlast
    cases hopens with
    | next hkind =>
      -- the last branch is the else part of the one before
      rw [List.append_assoc, List.append_assoc]
      exact ih hlink (.chained hkind hp hbody htail)

/-- The clause has been opened by the items at a place in a scope, and what has been read in it is
spelled by them. They lead to the scope that there is now. -/
inductive ClauseSpelled (ctx : PipelineContext) (place : Enclosure) (opened : List String) :
    OpenClause → List Item → List Tree → List String → Prop
  | define {o at₁ at₂ : Nat} {spaced₁ spaced₂ : Bool} {quoted name : String} {nodes : List Node}
      {items : List Item} {defs : List Tree} {scope : List String} :
      place.outermost = true →
      Spells ctx .definition ["$"] items (.statements nodes.reverse) defs scope →
      ClauseSpelled ctx place opened
        ⟨.define name, ctx.positionOf o, ctx.positionOf o, nodes, opened⟩
        (.clause o .define at₁ spaced₁ [⟨.string quoted name, at₂, spaced₂⟩] :: items) defs scope
  | block {o at₁ : Nat} {spaced : Bool} {ts rest : List Token} {name : String}
      {argument : Pipeline} {nodes : List Node} {items : List Item} {defs : List Tree}
      {outer scope : List String} :
      Nesting.clauseName .block o ts = .ok (name, rest) →
      PipelineOf.ofTokens (ctx.inAction o) .block opened rest = .ok (argument, outer) →
      Spells ctx .definition ["$"] items (.statements nodes.reverse) defs scope →
      ClauseSpelled ctx place opened
        ⟨.block name argument, ctx.positionOf o, ctx.positionOf o, nodes, outer⟩
        (.clause o .block at₁ spaced ts :: items) defs scope
  | body {kind : Control} {pos start : Position} {pipe : Pipeline} {row : List Link}
      {nodes : List Node} {items items' : List Item} {defs defs' : List Tree}
      {scope scope' : List String} :
      RowSpelled ctx place kind opened row items defs scope →
      BranchSpelled ctx place row kind scope pos pipe ⟨start, nodes.reverse⟩ items' defs' scope' →
      ClauseSpelled ctx place opened ⟨.body kind pipe row, pos, start, nodes, opened⟩
        (items ++ items') (defs ++ defs') scope'
  | otherwise {kind : Control} {pos : Position} {pipe : Pipeline} {body : Block} {row : List Link}
      {nodes : List Node} {items items' elseItems : List Item} {defs defs' elseDefs : List Tree}
      {scope scope' scope'' : List String} {o at₁ : Nat} {spaced : Bool} :
      RowSpelled ctx place kind opened row items defs scope →
      BranchSpelled ctx place row kind scope pos pipe body items' defs' scope' →
      Spells ctx place.otherwise scope' elseItems (.statements nodes.reverse) elseDefs scope'' →
      ClauseSpelled ctx place opened
        ⟨.otherwise kind pipe body row, pos, ctx.positionOf o, nodes, opened⟩
        (items ++ items' ++ .clause o .otherwise at₁ spaced [] :: elseItems)
        (defs ++ defs' ++ elseDefs) scope''

/-- The items spell what has been read in the main template and in the open clauses, and lead to the
scope that there is now. -/
inductive ClausesSpelled (ctx : PipelineContext) (main : List Node) :
    List OpenClause → List Item → List Tree → List String → Prop
  | main {items : List Item} {defs : List Tree} {scope : List String} :
      Spells ctx .main ["$"] items (.statements main.reverse) defs scope →
      ClausesSpelled ctx main [] items defs scope
  | clause {c : OpenClause} {cs : List OpenClause} {items items' : List Item}
      {defs defs' : List Tree} {opened scope : List String} :
      ClausesSpelled ctx main cs items defs opened →
      ClauseSpelled ctx (.within cs) opened c items' defs' scope →
      ClausesSpelled ctx main (c :: cs) (items ++ items') (defs ++ defs') scope

/-- The innermost clause with what follows. -/
lemma ClausesSpelled.clause_append {main : List Node} {c : OpenClause} {cs : List OpenClause}
    {items items₁ items₂ : List Item} {defs defs₁ defs₂ : List Tree} {opened scope : List String}
    (h : ClausesSpelled ctx main cs items defs opened)
    (hc : ClauseSpelled ctx (.within cs) opened c (items₁ ++ items₂) (defs₁ ++ defs₂) scope) :
    ClausesSpelled ctx main (c :: cs) (items ++ items₁ ++ items₂) (defs ++ defs₁ ++ defs₂)
      scope := by
  rw [List.append_assoc, List.append_assoc]
  exact .clause h hc

/-- Another statement in the clause. -/
lemma ClauseSpelled.add {opened scope scope' : List String} {items items' : List Item}
    {defs defs' : List Tree} {c : OpenClause} {node : Node}
    (hc : ClauseSpelled ctx place opened c items defs scope)
    (hnode : Spells ctx (place.inside c.opening) scope items' (.statements [node]) defs' scope') :
    ClauseSpelled ctx place opened { c with nodes := node :: c.nodes } (items ++ items')
      (defs ++ defs') scope' := by
  have hnodes : ∀ nodes : List Node, (node :: nodes).reverse = nodes.reverse ++ [node] :=
    fun _ => List.reverse_cons
  cases hc with
  | define houter hbody => exact .define houter (hnodes _ ▸ hbody.append hnode)
  | block hname hp hbody => exact .block hname hp (hnodes _ ▸ hbody.append hnode)
  | body hrow hlast =>
    obtain ⟨hopens, hp, hbody⟩ := hlast
    simp only [List.append_assoc]
    exact .body hrow (.mk hopens hp (hnodes _ ▸ hbody.append hnode))
  | otherwise hrow hlast helse =>
    rw [List.append_assoc (_ : List Item), List.append_assoc (_ : List Tree)]
    exact .otherwise hrow hlast (hnodes _ ▸ helse.append hnode)

end Derivations

/-! ### Steps of the reader -/

section

variable {ctx : PipelineContext} {n n' : Nesting} {items items' items₁ : List Item}
  {defs defs' defs₁ : List Tree} {scope scope' : List String} {node : Node}

/-- Another statement behind what has been read up to a scope. -/
lemma ClausesSpelled.add (h : ClausesSpelled ctx n.main n.clauses items defs scope)
    (hnode : Spells ctx (.within n.clauses) scope items' (.statements [node]) defs' scope')
    (hscope : n.scope = scope') :
    ClausesSpelled ctx (n.add node).main (n.add node).clauses (items ++ items') (defs ++ defs')
      (n.add node).scope := by
  obtain ⟨main, clauses, _, trees⟩ := n
  subst hscope
  cases h with
  | main hmain =>
    refine .main ?_
    show Spells ctx .main ["$"] _ (.statements (node :: main).reverse) _ _
    rw [List.reverse_cons]
    exact hmain.append hnode
  | clause houter hc => exact .clause_append houter (hc.add hnode)

/-- A statement that ends behind what has been read of it. -/
lemma ClausesSpelled.add_append (h : ClausesSpelled ctx n.main n.clauses items defs scope)
    (hnode : Spells ctx (.within n.clauses) scope (items₁ ++ items') (.statements [node])
      (defs₁ ++ defs') scope')
    (hscope : n.scope = scope') :
    ClausesSpelled ctx (n.add node).main (n.add node).clauses (items ++ items₁ ++ items')
      (defs ++ defs₁ ++ defs') (n.add node).scope := by
  rw [List.append_assoc, List.append_assoc]
  exact h.add hnode hscope

/-- The innermost clause, and what spells it. -/
lemma ClausesSpelled.innermost (h : ClausesSpelled ctx n.main n.clauses items defs scope)
    {c : OpenClause} {cs : List OpenClause} (hc : n.clauses = c :: cs) :
    ∃ items₀ items₁ defs₀ defs₁ opened, items = items₀ ++ items₁ ∧ defs = defs₀ ++ defs₁ ∧
      ClausesSpelled ctx n.main cs items₀ defs₀ opened ∧
        ClauseSpelled ctx (.within cs) opened c items₁ defs₁ scope := by
  rw [hc] at h
  cases h with
  | clause houter hclause => exact ⟨_, _, _, _, _, rfl, rfl, houter, hclause⟩

/-- What a step does to the trees: it leaves them, or it adds the one that it defines. -/
def Defines (trees trees' : Dict Tree) : List Tree → Prop
  | []     => trees' = trees
  | [t]    => addTree trees t = .ok trees'
  | _ :: _ => False

/-- What has been read is spelled by the items with the next one, which defines at most one
tree. -/
theorem ClausesSpelled.step (h : ClausesSpelled ctx n.main n.clauses items defs n.scope)
    {item : Item} (hstep : Nesting.Step ctx n item n') :
    ∃ defs', ClausesSpelled ctx n'.main n'.clauses (items ++ [item]) (defs ++ defs') n'.scope ∧
      Defines n.trees n'.trees defs' := by
  cases hstep with
  | text => exact ⟨[], h.add (.leaf (.text _ _) .nil) rfl, Nesting.trees_add _ _⟩
  | comment => exact ⟨[], h.add (.leaf (.comment _ _) .nil) rfl, Nesting.trees_add _ _⟩
  | call hname => exact ⟨[], h.add (.leaf (.call hname) .nil) rfl, Nesting.trees_add _ _⟩
  | breakLoop hloop =>
    rw [← Enclosure.within_inLoop] at hloop
    exact ⟨[], h.add (.leaf (.breakLoop hloop) .nil) rfl, Nesting.trees_add _ _⟩
  | continueLoop hloop =>
    rw [← Enclosure.within_inLoop] at hloop
    exact ⟨[], h.add (.leaf (.continueLoop hloop) .nil) rfl, Nesting.trees_add _ _⟩
  | @action _ _ _ scope hp =>
    exact ⟨[], h.add (n := { n with scope }) (.leaf (.action hp) .nil) rfl, Nesting.trees_add _ _⟩
  | @callWith _ _ _ _ _ _ _ scope hname hp =>
    exact ⟨[], h.add (n := { n with scope }) (.leaf (.callWith hname hp) .nil) rfl,
      Nesting.trees_add _ _⟩
  | enterBranch kind hp => exact ⟨[], .clause h (.body .nil (.opened .first hp)), rfl⟩
  | enterDefinition hmain =>
    refine ⟨[], .clause h (.define ?_ .nil), rfl⟩
    rw [hmain]
    rfl
  | enterBlock hname hp => exact ⟨[], .clause h (.block hname hp .nil), rfl⟩
  | turn hc ho =>
    obtain ⟨_, _, _, _, _, rfl, rfl, houter, hclause⟩ := h.innermost hc
    cases hclause with
    | body hrow hlast =>
      cases ho
      exact ⟨[], .clause_append houter (.otherwise hrow hlast .nil), rfl⟩
    | define | block | otherwise => cases ho
  | turnTo hc ho hkind hp =>
    obtain ⟨_, _, _, _, _, rfl, rfl, houter, hclause⟩ := h.innermost hc
    cases hclause with
    | body hrow hlast =>
      cases ho
      exact ⟨[], .clause_append houter (.body (.cons hrow hlast) (.opened (.next hkind) hp)), rfl⟩
    | define | block | otherwise => cases ho
  | closeDefinition hc ho ht =>
    obtain ⟨_, _, _, _, _, rfl, rfl, houter, hclause⟩ := h.innermost hc
    cases hclause with
    | define hplace hbody =>
      cases ho
      obtain rfl := Enclosure.eq_nil_of_within_outermost hplace
      cases houter with
      | main hmain =>
        refine ⟨[_], .main ?_, ht⟩
        rw [List.append_assoc, List.append_assoc, ← List.append_nil (List.reverse _)]
        exact hmain.append (.define hplace hbody .nil)
    | block | body | otherwise => cases ho
  | @closeBlock _ _ _ c cs _ _ trees hc ho ht =>
    obtain ⟨_, _, _, _, _, rfl, rfl, houter, hclause⟩ := h.innermost hc
    cases hclause with
    | block hname hp hbody =>
      cases ho
      exact ⟨[_], houter.add_append (n := { n with clauses := cs, scope := _, trees })
        (.block hname hp hbody .nil) rfl, by rwa [Nesting.trees_add]⟩
    | define | body | otherwise => cases ho
  | @closeBody _ _ _ c cs _ _ _ hc ho =>
    obtain ⟨_, _, _, _, _, rfl, rfl, houter, hclause⟩ := h.innermost hc
    cases hclause with
    | body hrow hlast =>
      cases ho
      exact ⟨[], houter.add_append (n := { n with clauses := cs, scope := _ })
        (hrow.chain hlast .finish) rfl, Nesting.trees_add _ _⟩
    | define | block | otherwise => cases ho
  | @closeOtherwise _ _ _ c cs _ _ _ _ hc ho =>
    obtain ⟨_, _, _, _, _, rfl, rfl, houter, hclause⟩ := h.innermost hc
    cases hclause with
    | otherwise hrow hlast helse =>
      cases ho
      refine ⟨[], houter.add_append (n := { n with clauses := cs, scope := _ }) ?_ rfl,
        Nesting.trees_add _ _⟩
      rw [List.append_assoc, List.append_nil]
      exact hrow.chain hlast (.otherwise helse)
    | define | block | body => cases ho

end

namespace Nesting

variable {ctx : PipelineContext} {n n' : Nesting} {items : List Item} {defs : List Tree}

/-- The items spell what has been read. -/
structure Spelled (ctx : PipelineContext) (n : Nesting) (items : List Item) (defs : List Tree) :
    Prop where
  clauses : ClausesSpelled ctx n.main n.clauses items defs n.scope
  trees : defs.foldlM addTree .empty = .ok n.trees

lemma start_spelled : start.Spelled ctx [] [] := ⟨.main .nil, rfl⟩

lemma foldlM_addTree_concat {trees trees' : Dict Tree} {t : Tree}
    (h : defs.foldlM addTree .empty = .ok trees) (ht : addTree trees t = .ok trees') :
    (defs ++ [t]).foldlM addTree .empty = .ok trees' := by
  simp only [List.foldlM_append, h, List.foldlM_cons, List.foldlM_nil, bind, Except.bind, ht]
  rfl

/-- What has been read is spelled by the items with the next one. -/
theorem Spelled.step (h : n.Spelled ctx items defs) {item : Item} (hstep : Step ctx n item n') :
    ∃ defs', n'.Spelled ctx (items ++ [item]) (defs ++ defs') := by
  obtain ⟨defs', hclauses, htrees⟩ := h.clauses.step hstep
  refine ⟨defs', hclauses, ?_⟩
  match defs', htrees with
  | [], htrees => rw [List.append_nil, htrees, h.trees]
  | [_], htrees => exact foldlM_addTree_concat h.trees htrees

/-- What is read of items is spelled by them. -/
lemma foldlM_addItem_spelled {ms : List Item} (h : n.Spelled ctx items defs)
    (hread : ms.foldlM (fun n item => n.addItem ctx item) n = .ok n') :
    ∃ defs', n'.Spelled ctx (items ++ ms) defs' := by
  induction ms generalizing n items defs with
  | nil =>
    cases hread
    exact ⟨defs, by rwa [List.append_nil]⟩
  | cons item ms ih =>
    obtain ⟨next, hitem, hread⟩ := bind_eq_ok_iff.mp hread
    obtain ⟨defs₁, hnext⟩ := h.step (addItem_step hitem)
    obtain ⟨defs', hspelled⟩ := ih hnext hread
    rw [List.append_assoc, List.singleton_append] at hspelled
    exact ⟨defs', hspelled⟩

end Nesting

/-- What holds of all definitions of a source and of the trees before holds of the trees behind
them. -/
lemma foldlM_addTree_keeps {P : Tree → Prop} {defs : List Tree} {trees trees' : Dict Tree}
    (h : defs.foldlM addTree trees = .ok trees') (hdefs : ∀ t ∈ defs, P t)
    (htrees : ∀ e ∈ trees.entries, P e.2) : ∀ e ∈ trees'.entries, P e.2 := by
  induction defs generalizing trees with
  | nil =>
    cases h
    exact htrees
  | cons t defs ih =>
    obtain ⟨next, ht, h⟩ := bind_eq_ok_iff.mp h
    obtain ⟨hfirst, hdefs⟩ := List.forall_mem_cons.mp hdefs
    exact ih h hdefs (Nesting.addTree_keeps (P := fun e => P e.2) ht hfirst htrees)

/-- The items of a source spell its main tree, and its trees are those defined on the way and the
main one. -/
theorem ofSource_spelled {d : Delimiters} {isFunction : String → Bool} {name source : String}
    {trees : Dict Tree} (h : Tree.ofSource d isFunction name source = .ok trees) :
    ∃ (items : List Item) (nodes : List Node) (defs : List Tree) (pos : Position)
      (scope : List String), Item.ofSource d source = .ok items ∧
      Spells (.ofSource isFunction source) .main ["$"] items (.statements nodes) defs scope ∧
        (defs ++ [Tree.mk name ⟨pos, nodes⟩]).foldlM addTree .empty = .ok trees := by
  obtain ⟨items, n, pos, hitems, hn, hclauses, hmain⟩ := ofSource_eq_ok h
  obtain ⟨defs, hspelled⟩ := Nesting.foldlM_addItem_spelled Nesting.start_spelled hn
  have hnodes := hspelled.clauses
  rw [hclauses] at hnodes
  cases hnodes with
  | main hnodes =>
    exact ⟨items, _, defs, pos, _, hitems, hnodes,
      Nesting.foldlM_addTree_concat hspelled.trees hmain⟩

end SafeQuery
