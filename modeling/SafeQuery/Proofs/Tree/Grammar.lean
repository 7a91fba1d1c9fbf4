import Mathlib.Tactic.Common
import SafeQuery.Proofs.Tree.Step

/-!
# The grammar of trees

`NodesRead` is the grammar of what the reader of clauses makes of a source: which nodes follow each
other, from the variables in scope before them to those in scope behind them, and inside which
loops. Every step of the reader keeps to it, `Nesting.Read.step`, so that the trees of a source are
derived in it, `ofSource_read`; what is said of all trees of sources is proved by induction on
the derivation.
-/

namespace SafeQuery

/-- The loops around the body of a branch, the innermost first: a loop is around its own body. -/
def Control.around (kind : Control) (pos : Position) (loops : List Position) : List Position :=
  match kind with
  | .range => pos :: loops
  | _      => loops

/-- The loops whose bodies are being read, the innermost first, within the innermost definition. -/
def openLoops : List OpenClause → List Position
  | []      => []
  | c :: cs =>
    match c.opening with
    | .define _ | .block _ _ => []
    | .body kind _ _         => kind.around c.pos (openLoops cs)
    | .otherwise ..          => openLoops cs

/-- A loop can be left where the body of one is being read. -/
lemma openLoops_ne_nil {cs : List OpenClause} (h : inLoop cs = true) : openLoops cs ≠ [] := by
  induction cs with
  | nil => cases h
  | cons c cs ih =>
    obtain ⟨opening, pos, start, nodes, outer⟩ := c
    cases opening with
    | define name => cases h
    | block name argument => cases h
    | otherwise kind pipe body before => exact ih h
    | body kind pipe before =>
      cases kind with
      | range => exact List.cons_ne_nil _ _
      | cond => exact ih h
      | withValue => exact ih h

/-! ### Derivations -/

/-- The reader of pipelines has accepted the pipeline for the clause, and taken one scope to the
other. -/
def PipeRead (clause : Clause) (p : Pipeline) (scope scope' : List String) : Prop :=
  ∃ (c : PipelineContext) (ts : List Token), PipelineOf.ofTokens c clause scope ts = .ok (p, scope')

/-- What is known of an exit with the keyword at a position inside loops. -/
abbrev ExitRule := Keyword → List Position → Position → Prop

/-- Nodes that can be read one after the other inside loops, from one scope to another. The variables
of a body are in scope in the else part behind it, and the ones before a branch behind it. -/
inductive NodesRead (E : ExitRule) :
    List Position → List Node → List String → List String → Prop
  | nil {loops : List Position} {scope : List String} : NodesRead E loops [] scope scope
  | text {loops : List Position} {ns : List Node} {scope scope' : List String} {pos : Position}
      {t : String} :
      NodesRead E loops ns scope scope' → NodesRead E loops (.text pos t :: ns) scope scope'
  | comment {loops : List Position} {ns : List Node} {scope scope' : List String} {pos : Position}
      {t : String} :
      NodesRead E loops ns scope scope' → NodesRead E loops (.comment pos t :: ns) scope scope'
  | action {loops : List Position} {ns : List Node} {scope scope₁ scope' : List String}
      {pos : Position} {p : Pipeline} :
      PipeRead .command p scope scope₁ → NodesRead E loops ns scope₁ scope' →
      NodesRead E loops (.action pos p :: ns) scope scope'
  | call {loops : List Position} {ns : List Node} {scope scope' : List String} {pos : Position}
      {name : String} :
      NodesRead E loops ns scope scope' → NodesRead E loops (.call pos name none :: ns) scope scope'
  | callWith {loops : List Position} {ns : List Node} {scope scope₁ scope' : List String}
      {pos : Position} {name : String} {clause : Clause} {argument : Pipeline} :
      PipeRead clause argument scope scope₁ → NodesRead E loops ns scope₁ scope' →
      NodesRead E loops (.call pos name (some argument) :: ns) scope scope'
  | breakLoop {loops : List Position} {ns : List Node} {scope scope' : List String}
      {pos : Position} :
      E .breakLoop loops pos → NodesRead E loops ns scope scope' →
      NodesRead E loops (.breakLoop pos :: ns) scope scope'
  | continueLoop {loops : List Position} {ns : List Node} {scope scope' : List String}
      {pos : Position} :
      E .continueLoop loops pos → NodesRead E loops ns scope scope' →
      NodesRead E loops (.continueLoop pos :: ns) scope scope'
  | branch {loops : List Position} {ns body : List Node}
      {scope scope₁ scope₂ scope' : List String} {kind : Control} {pos start : Position}
      {pipe : Pipeline} :
      PipeRead (.branch kind) pipe scope scope₁ →
      NodesRead E (kind.around pos loops) body scope₁ scope₂ →
      NodesRead E loops ns scope scope' →
      NodesRead E loops (.branch kind pos pipe ⟨start, body⟩ none :: ns) scope scope'
  | branchElse {loops : List Position} {ns body otherwise : List Node}
      {scope scope₁ scope₂ scope₃ scope' : List String} {kind : Control}
      {pos start start' : Position} {pipe : Pipeline} :
      PipeRead (.branch kind) pipe scope scope₁ →
      NodesRead E (kind.around pos loops) body scope₁ scope₂ →
      NodesRead E loops otherwise scope₂ scope₃ →
      NodesRead E loops ns scope scope' →
      NodesRead E loops
        (.branch kind pos pipe ⟨start, body⟩ (some ⟨start', otherwise⟩) :: ns) scope scope'

/-- A tree that can be read, from the variable of its data on. -/
def Tree.CanBeRead (E : ExitRule) (t : Tree) : Prop :=
  ∃ scope, NodesRead E [] t.root.nodes ["$"] scope

section Derivations

variable {E : ExitRule} {loops : List Position}

lemma NodesRead.append {ns ms : List Node} {scope scope₁ scope₂ : List String}
    (hns : NodesRead E loops ns scope scope₁) (hms : NodesRead E loops ms scope₁ scope₂) :
    NodesRead E loops (ns ++ ms) scope scope₂ := by
  induction hns with
  | nil => exact hms
  | text _ ih => exact .text (ih hms)
  | comment _ ih => exact .comment (ih hms)
  | action hp _ ih => exact .action hp (ih hms)
  | call _ ih => exact .call (ih hms)
  | callWith hp _ ih => exact .callWith hp (ih hms)
  | breakLoop hexit _ ih => exact .breakLoop hexit (ih hms)
  | continueLoop hexit _ ih => exact .continueLoop hexit (ih hms)
  | branch hp hbody _ _ ih => exact .branch hp hbody (ih hms)
  | branchElse hp hbody helse _ _ _ ih => exact .branchElse hp hbody helse (ih hms)

/-! ### Open clauses -/

/-- The pipeline and the body of a branch inside loops. -/
def BodyRead (E : ExitRule) (loops : List Position) (kind : Control) (pos : Position)
    (pipe : Pipeline) (body : Block) (scope scope' : List String) : Prop :=
  ∃ scope₁, PipeRead (.branch kind) pipe scope scope₁ ∧
    NodesRead E (kind.around pos loops) body.nodes scope₁ scope'

/-- The branches before the last one of a row, of which the first one begins in the scope outside and
the last one in the scope behind them. -/
inductive RowRead (E : ExitRule) (loops : List Position) (outer : List String) :
    List Link → List String → Prop
  | nil : RowRead E loops outer [] outer
  | cons {l : Link} {ls : List Link} {scope scope' : List String} :
      RowRead E loops outer ls scope → BodyRead E loops l.kind l.pos l.pipe l.body scope scope' →
      RowRead E loops outer (l :: ls) scope'

/-- The clause has been opened inside loops in a scope, and what has been read in it leads to the
scope that there is now. -/
def OpenClause.Read (E : ExitRule) (c : OpenClause) (loops : List Position)
    (opened scope : List String) : Prop :=
  match c.opening with
  | .define _ => c.outer = opened ∧ NodesRead E [] c.block.nodes ["$"] scope
  | .block _ argument =>
    PipeRead .block argument opened c.outer ∧ NodesRead E [] c.block.nodes ["$"] scope
  | .body kind pipe row =>
    c.outer = opened ∧ ∃ scope₁, RowRead E loops opened row scope₁ ∧
      BodyRead E loops kind c.pos pipe c.block scope₁ scope
  | .otherwise kind pipe body row =>
    c.outer = opened ∧ ∃ scope₁ scope₂, RowRead E loops opened row scope₁ ∧
      BodyRead E loops kind c.pos pipe body scope₁ scope₂ ∧
      NodesRead E loops c.block.nodes scope₂ scope

/-- What has been read in the main template and in the open clauses leads to the scope that there is
now. -/
inductive ClausesRead (E : ExitRule) (main : List Node) : List OpenClause → List String → Prop
  | main {scope : List String} :
      NodesRead E [] main.reverse ["$"] scope → ClausesRead E main [] scope
  | clause {c : OpenClause} {cs : List OpenClause} {opened scope : List String} :
      ClausesRead E main cs opened → c.Read E (openLoops cs) opened scope →
      ClausesRead E main (c :: cs) scope

lemma BodyRead.branch {kind : Control} {pos : Position} {pipe : Pipeline} {body : Block}
    {scope scope' : List String} (h : BodyRead E loops kind pos pipe body scope scope') :
    NodesRead E loops [.branch kind pos pipe body none] scope scope := by
  obtain ⟨scope₁, hp, hbody⟩ := h
  exact .branch hp hbody .nil

lemma BodyRead.branchElse {kind : Control} {pos : Position} {pipe : Pipeline}
    {body otherwise : Block} {scope scope₁ scope₂ : List String}
    (h : BodyRead E loops kind pos pipe body scope scope₁)
    (helse : NodesRead E loops otherwise.nodes scope₁ scope₂) :
    NodesRead E loops [.branch kind pos pipe body (some otherwise)] scope scope := by
  obtain ⟨_, hp, hbody⟩ := h
  exact .branchElse hp hbody helse .nil

/-- A row of branches can be read if its last branch can. -/
lemma RowRead.chain {outer scope : List String} {row : List Link} {last : Node}
    (h : RowRead E loops outer row scope) (hlast : NodesRead E loops [last] scope scope) :
    NodesRead E loops [chain last row] outer outer := by
  induction row generalizing last scope with
  | nil =>
    cases h
    exact hlast
  | cons l ls ih =>
    cases h with
    | cons hrow hbody => exact ih hrow (hbody.branchElse hlast)

/-- Another statement in the clause. -/
lemma OpenClause.Read.add {c : OpenClause} {cs : List OpenClause} {opened scope scope' : List String}
    {node : Node} (hc : c.Read E (openLoops cs) opened scope)
    (hnode : NodesRead E (openLoops (c :: cs)) [node] scope scope') :
    OpenClause.Read E { c with nodes := node :: c.nodes } (openLoops cs) opened scope' := by
  have hnodes : (OpenClause.block { c with nodes := node :: c.nodes }).nodes =
    c.block.nodes ++ [node] := List.reverse_cons
  obtain ⟨opening, pos, start, nodes, outer⟩ := c
  cases opening with
  | define name => exact ⟨hc.1, hnodes ▸ hc.2.append hnode⟩
  | block name argument => exact ⟨hc.1, hnodes ▸ hc.2.append hnode⟩
  | body kind pipe row =>
    obtain ⟨houter, scope₁, hrow, scope₂, hp, hbody⟩ := hc
    exact ⟨houter, scope₁, hrow, scope₂, hp, hnodes ▸ hbody.append hnode⟩
  | otherwise kind pipe body row =>
    obtain ⟨houter, scope₁, scope₂, hrow, hbody, helse⟩ := hc
    exact ⟨houter, scope₁, scope₂, hrow, hbody, hnodes ▸ helse.append hnode⟩

end Derivations

/-! ### Steps of the reader -/

namespace Nesting

variable {E : ExitRule} {ctx : PipelineContext} {n n' : Nesting}

/-- What has been read of a source keeps to the grammar. -/
structure Read (E : ExitRule) (n : Nesting) : Prop where
  clauses : ClausesRead E n.main n.clauses n.scope
  trees : ∀ e ∈ n.trees.entries, e.2.CanBeRead E

lemma start_read : start.Read E := ⟨.main .nil, by simp [start, Dict.empty]⟩

/-- Another statement behind what has been read up to a scope. -/
lemma read_add {scope scope' : List String} {node : Node}
    (hclauses : ClausesRead E n.main n.clauses scope)
    (hnode : NodesRead E (openLoops n.clauses) [node] scope scope')
    (hscope : n.scope = scope') (htrees : ∀ e ∈ n.trees.entries, e.2.CanBeRead E) :
    (n.add node).Read E := by
  obtain ⟨main, clauses, _, trees⟩ := n
  subst hscope
  cases hclauses with
  | main hmain =>
    refine ⟨.main ?_, htrees⟩
    show NodesRead E [] (node :: main).reverse _ _
    rw [List.reverse_cons]
    exact hmain.append hnode
  | clause houter hc => exact ⟨.clause houter (hc.add hnode), htrees⟩

/-- The innermost clause, and the scope in which it has been opened. -/
lemma Read.innermost (h : n.Read E) {c : OpenClause} {cs : List OpenClause}
    (hc : n.clauses = c :: cs) :
    ∃ opened, ClausesRead E n.main cs opened ∧ c.Read E (openLoops cs) opened n.scope := by
  have hclauses := h.clauses
  rw [hc] at hclauses
  cases hclauses with
  | clause houter hread => exact ⟨_, houter, hread⟩

/-- The exits that an item makes are as the rule says. -/
def ExitsBy (E : ExitRule) (ctx : PipelineContext) (n : Nesting) (item : Item) : Prop :=
  ∀ (k : Keyword) (o at₁ : Nat) (spaced : Bool), item = .action o [⟨.keyword k, at₁, spaced⟩] →
    openLoops n.clauses ≠ [] → E k (openLoops n.clauses) (ctx.positionOf o)

/-- One item keeps to the grammar. -/
theorem Read.step (h : n.Read E) {item : Item} (hexit : ExitsBy E ctx n item)
    (hstep : Step ctx n item n') : n'.Read E := by
  cases hstep with
  | text => exact read_add h.clauses (.text .nil) rfl h.trees
  | comment => exact read_add h.clauses (.comment .nil) rfl h.trees
  | call => exact read_add h.clauses (.call .nil) rfl h.trees
  | breakLoop hloop =>
    have hbreak := hexit _ _ _ _ rfl (openLoops_ne_nil hloop)
    exact read_add h.clauses (.breakLoop hbreak .nil) rfl h.trees
  | continueLoop hloop =>
    have hcontinue := hexit _ _ _ _ rfl (openLoops_ne_nil hloop)
    exact read_add h.clauses (.continueLoop hcontinue .nil) rfl h.trees
  | action hp =>
    exact read_add (n := { n with scope := _ }) h.clauses (.action ⟨_, _, hp⟩ .nil) rfl h.trees
  | callWith _ hp =>
    exact read_add (n := { n with scope := _ }) h.clauses (.callWith ⟨_, _, hp⟩ .nil) rfl h.trees
  | enterBranch kind hp =>
    exact ⟨.clause h.clauses ⟨rfl, _, .nil, _, ⟨_, _, hp⟩, .nil⟩, h.trees⟩
  | enterDefinition _ => exact ⟨.clause h.clauses ⟨rfl, .nil⟩, h.trees⟩
  | enterBlock _ hp => exact ⟨.clause h.clauses ⟨⟨_, _, hp⟩, .nil⟩, h.trees⟩
  | turn hc ho =>
    obtain ⟨opened, houter, hread⟩ := h.innermost hc
    simp only [OpenClause.Read, ho] at hread
    obtain ⟨rfl, scope₁, hrow, hbody⟩ := hread
    exact ⟨.clause houter ⟨rfl, scope₁, _, hrow, hbody, .nil⟩, h.trees⟩
  | turnTo hc ho _ hp =>
    obtain ⟨opened, houter, hread⟩ := h.innermost hc
    simp only [OpenClause.Read, ho] at hread
    obtain ⟨rfl, scope₁, hrow, hbody⟩ := hread
    exact ⟨.clause houter ⟨rfl, _, .cons hrow hbody, _, ⟨_, _, hp⟩, .nil⟩, h.trees⟩
  | closeDefinition hc ho htrees =>
    obtain ⟨opened, houter, hread⟩ := h.innermost hc
    simp only [OpenClause.Read, ho] at hread
    obtain ⟨rfl, hbody⟩ := hread
    exact ⟨houter, addTree_keeps htrees ⟨_, hbody⟩ h.trees⟩
  | @closeBlock _ _ _ c cs name argument trees hc ho htrees =>
    obtain ⟨opened, houter, hread⟩ := h.innermost hc
    simp only [OpenClause.Read, ho] at hread
    obtain ⟨hargument, hbody⟩ := hread
    exact read_add (n := { n with clauses := cs, scope := c.outer, trees }) houter
      (.callWith hargument .nil) rfl (addTree_keeps htrees ⟨_, hbody⟩ h.trees)
  | @closeBody _ _ _ c cs kind pipe before hc ho =>
    obtain ⟨opened, houter, hread⟩ := h.innermost hc
    simp only [OpenClause.Read, ho] at hread
    obtain ⟨rfl, scope₁, hrow, hbody⟩ := hread
    exact read_add (n := { n with clauses := cs, scope := c.outer }) houter
      (hrow.chain hbody.branch) rfl h.trees
  | @closeOtherwise _ _ _ c cs kind pipe body before hc ho =>
    obtain ⟨opened, houter, hread⟩ := h.innermost hc
    simp only [OpenClause.Read, ho] at hread
    obtain ⟨rfl, scope₁, scope₂, hrow, hbody, helse⟩ := hread
    exact read_add (n := { n with clauses := cs, scope := c.outer }) houter
      (hrow.chain (hbody.branchElse helse)) rfl h.trees

end Nesting

/-- The reader has come by the exit when it had opened these loops, of which there is one at least. -/
def ExitRead (ctx : PipelineContext) (items : List Item) : ExitRule := fun k loops pos =>
  loops ≠ [] ∧ ∃ (n : Nesting) (o at₁ : Nat) (spaced : Bool),
    n.ComesBy ctx items (.action o [⟨.keyword k, at₁, spaced⟩]) ∧ openLoops n.clauses = loops ∧
      ctx.positionOf o = pos

/-- The trees of a source keep to the grammar, with the exits that the reader has come by. -/
theorem ofSource_read {d : Delimiters} {isFunction : String → Bool} {name source : String}
    {trees : Dict Tree} (h : Tree.ofSource d isFunction name source = .ok trees) :
    ∃ items, Item.ofSource d source = .ok items ∧ ∀ e ∈ trees.entries,
      e.2.CanBeRead (ExitRead (.ofSource isFunction source) items) := by
  obtain ⟨items, n, pos, hitems, hn, hclauses, hmain⟩ := ofSource_eq_ok h
  have hread : n.Read (ExitRead (.ofSource isFunction source) items) := by
    refine Nesting.foldlM_addItem_keeps Nesting.start_read ?_ hn
    intro m m' item hcomes hm hstep
    refine hm.step ?_ hstep
    rintro k o at₁ spaced rfl hloops
    exact ⟨hloops, m, o, at₁, spaced, hcomes, rfl, rfl⟩
  have hnodes := hread.clauses
  rw [hclauses] at hnodes
  cases hnodes with
  | main hnodes => exact ⟨items, hitems, Nesting.addTree_keeps hmain ⟨_, hnodes⟩ hread.trees⟩

end SafeQuery
