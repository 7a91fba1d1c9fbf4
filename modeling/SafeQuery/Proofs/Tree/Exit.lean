import SafeQuery.Proofs.Tree.Grammar
import SafeQuery.Tree.Hook

/-!
# Exits from loops

`Tree.exits` finds the statements of a tree that leave or continue a loop, each with the loops whose
bodies hold it. `ofSource_exits` says that these are the loops that were open for the reader when it
accepted the statement: in the else part of a loop the reader has left this loop.
-/

namespace SafeQuery

structure Exit where
  keyword : Keyword
  pos : Position
  /-- The loops whose bodies hold the statement, the innermost first. -/
  loops : List Position
  /-- In the innermost of these bodies the statement stands in the else part of another loop. -/
  inElse : Bool
deriving DecidableEq, Repr

/-- The place in the body of a branch is in an else part if the branch is; the body of a loop begins
anew. -/
def Control.bodyInElse (kind : Control) (inElse : Bool) : Bool :=
  match kind with
  | .range => false
  | _      => inElse

/-- The place in the else part of a branch is in an else part if the branch is a loop or is in an
else part. -/
def Control.elseInElse (kind : Control) (inElse : Bool) : Bool :=
  match kind with
  | .range => true
  | _      => inElse

mutual

def Node.exits (loops : List Position) (inElse : Bool) : Node → List Exit
  | .breakLoop pos    => [⟨.breakLoop, pos, loops, inElse⟩]
  | .continueLoop pos => [⟨.continueLoop, pos, loops, inElse⟩]
  | .branch kind pos _ ⟨_, body⟩ otherwise =>
    nodesExits (kind.around pos loops) (kind.bodyInElse inElse) body ++
      elseExits loops (kind.elseInElse inElse) otherwise
  | _                 => []

def nodesExits (loops : List Position) (inElse : Bool) : List Node → List Exit
  | []      => []
  | n :: ns => n.exits loops inElse ++ nodesExits loops inElse ns

def elseExits (loops : List Position) (inElse : Bool) : Option (BlockOf Node) → List Exit
  | none         => []
  | some ⟨_, ns⟩ => nodesExits loops inElse ns

end

def Tree.exits (t : Tree) : List Exit := nodesExits [] false t.root.nodes

mutual

lemma Node.exits_withHooks (loops : List Position) (inElse : Bool) (n : Node) :
    n.withHooks.exits loops inElse = n.exits loops inElse := by
  match n with
  | .branch kind pos p ⟨at₁, body⟩ none =>
    simp only [Node.withHooks, Node.exits, elseExits, nodesExits_hookAll _ _ body]
  | .branch kind pos p ⟨at₁, body⟩ (some ⟨at₂, otherwise⟩) =>
    simp only [Node.withHooks, Node.exits, elseExits, nodesExits_hookAll _ _ body,
      nodesExits_hookAll _ _ otherwise]
  | .text _ _ | .comment _ _ | .action _ _ | .call _ _ _ | .breakLoop _ | .continueLoop _ =>
    simp only [Node.withHooks, Node.exits]

lemma nodesExits_hookAll (loops : List Position) (inElse : Bool) (ns : List Node) :
    nodesExits loops inElse (hookAll ns) = nodesExits loops inElse ns := by
  match ns with
  | []      => rw [hookAll]
  | n :: ns =>
    simp only [hookAll, nodesExits, Node.exits_withHooks _ _ n, nodesExits_hookAll _ _ ns]

end

/-- The calls of the encoder leave no loop. -/
theorem Tree.exits_withHooks (t : Tree) : t.withHooks.exits = t.exits :=
  nodesExits_hookAll _ _ t.root.nodes

/-- What the grammar says of exits holds of those in nodes that have been read. -/
lemma NodesRead.exits {E : ExitRule} {loops : List Position} {ns : List Node}
    {scope scope' : List String} (h : NodesRead E loops ns scope scope') (inElse : Bool) :
    ∀ x ∈ nodesExits loops inElse ns, E x.keyword x.loops x.pos := by
  induction h generalizing inElse with
  | nil => exact fun _ hx => absurd hx List.not_mem_nil
  | text _ ih | comment _ ih | action _ _ ih | call _ ih | callWith _ _ ih =>
    simp only [nodesExits, Node.exits, List.nil_append]
    exact ih inElse
  | breakLoop hexit _ ih | continueLoop hexit _ ih =>
    simp only [nodesExits, Node.exits, List.singleton_append, List.forall_mem_cons]
    exact ⟨hexit, ih inElse⟩
  | branch _ _ _ ihbody ih =>
    simp only [nodesExits, Node.exits, elseExits, List.append_nil, List.forall_mem_append]
    exact ⟨ihbody _, ih _⟩
  | branchElse _ _ _ _ ihbody ihelse ih =>
    simp only [nodesExits, Node.exits, elseExits, List.forall_mem_append]
    exact ⟨⟨ihbody _, ihelse _⟩, ih _⟩

/-- The reader has come by every exit in the trees of a source when it had opened the loops whose
bodies hold the exit. -/
theorem ofSource_exits {d : Delimiters} {isFunction : String → Bool} {name source : String}
    {trees : Dict Tree} (h : Tree.ofSource d isFunction name source = .ok trees) :
    ∃ items, Item.ofSource d source = .ok items ∧ ∀ e ∈ trees.entries, ∀ x ∈ e.2.exits,
      ExitRead (.ofSource isFunction source) items x.keyword x.loops x.pos := by
  obtain ⟨items, hitems, hread⟩ := ofSource_read h
  refine ⟨items, hitems, ?_⟩
  intro e he
  obtain ⟨scope, hnodes⟩ := hread e he
  exact hnodes.exits false

end SafeQuery
