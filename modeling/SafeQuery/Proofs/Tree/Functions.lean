import SafeQuery.Proofs.Tree.Walk

/-!
# The functions of a tree

The names of functions that occur in a tree, those in the pipelines of branches, in the arguments of
calls and in parentheses among them. No other functions are called when the tree is executed.
-/

namespace SafeQuery

mutual

def Operand.functions : Operand → List String
  | .identifier _ name        => [name]
  | .chain _ base _           => base.functions
  | .pipeline ⟨_, _, _, cs⟩   => commandsFunctions cs
  | _                         => []

def operandsFunctions : List Operand → List String
  | []      => []
  | o :: os => o.functions ++ operandsFunctions os

def commandsFunctions : List (CommandOf Operand) → List String
  | []            => []
  | ⟨_, os⟩ :: cs => operandsFunctions os ++ commandsFunctions cs

end

def PipelineOf.functions (p : Pipeline) : List String := commandsFunctions p.commands

def Node.functions : Node → List String
  | .action _ p        => p.functions
  | .branch _ _ p _ _  => p.functions
  | .call _ _ (some p) => p.functions
  | _                  => []

def Tree.functions (t : Tree) : List String := t.walk.flatMap Node.functions

lemma Tree.mem_functions {t : Tree} {n : Node} {name : String} (hn : n ∈ t.walk)
    (hname : name ∈ n.functions) : name ∈ t.functions := List.mem_flatMap.mpr ⟨n, hn, hname⟩

end SafeQuery
