import Mathlib.Tactic.Common
import SafeQuery.Tree.Hook

/-!
# Uses of variables

A variable is used where its value is read and where it is given another one. For every use in a
tree there are two sets of variables: those that the reader has in scope there, and those that an
execution has bound whenever it gets there. The two differ because the reader takes a variable into
scope before it reads the commands of its declaration, keeps the variables of a body for the else
part and those of the argument of a call for what follows, and because an execution may leave out
operands of `and` and `or`. `Tree.uses` finds the uses; the calls of the encoder are none.
-/

namespace SafeQuery

/-- The use of a variable. -/
structure Use where
  name : String
  /-- The variables that the reader has in scope. -/
  scope : List String
  /-- The variables that an execution has bound. -/
  bound : List String
deriving DecidableEq, Repr

def Use.IsChecked (u : Use) : Prop := u.name ∈ u.scope

/-- An execution can get to the use when it has not bound the variable. -/
def Use.IsLate (u : Use) : Prop := u.name ∉ u.bound

def newNames (assigns : Bool) (declared : List Variable) : List String :=
  if assigns then [] else (declared.map (·.name)).reverse

/-- The uses of the variables that a pipeline gives another value. -/
def assignedUses (scope bound : List String) (assigns : Bool) (declared : List Variable) :
    List Use :=
  if assigns then declared.map fun v => ⟨v.name, scope, bound⟩ else []

/-- The function evaluates the first operand for sure, and the others where they are needed. -/
def isShort (name : String) : Bool := name = "and" || name = "or"

section Pipelines

mutual

/-- The variables that the reader has in scope behind an operand. -/
def Operand.scopeBehind (scope : List String) : Operand → List String
  | .chain _ o _                               => o.scopeBehind scope
  | .pipeline ⟨_, assigns, declared, commands⟩ =>
    commandsScope (newNames assigns declared ++ scope) commands
  | _                                          => scope

def operandsScope (scope : List String) : List Operand → List String
  | []      => scope
  | o :: os => operandsScope (o.scopeBehind scope) os

def commandsScope (scope : List String) : List (CommandOf Operand) → List String
  | []            => scope
  | ⟨_, os⟩ :: cs => commandsScope (operandsScope scope os) cs

end

mutual

/-- The variables that have been bound when an operand has been evaluated. -/
def Operand.boundBehind (bound : List String) : Operand → List String
  | .chain _ o _                               => o.boundBehind bound
  | .pipeline ⟨_, assigns, declared, commands⟩ =>
    newNames assigns declared ++ commandsBound bound commands
  | _                                          => bound

def operandsBound (bound : List String) : List Operand → List String
  | []      => bound
  | o :: os => operandsBound (o.boundBehind bound) os

/-- The variables that have been bound when a command has been evaluated. A command that is no call
has one operand. -/
def commandBound (bound : List String) : List Operand → List String
  | []                         => bound
  | .identifier _ _ :: []      => bound
  | .identifier _ name :: o :: os =>
    if isShort name then o.boundBehind bound else operandsBound (o.boundBehind bound) os
  | o :: _                     => o.boundBehind bound

def commandsBound (bound : List String) : List (CommandOf Operand) → List String
  | []            => bound
  | ⟨_, os⟩ :: cs => commandsBound (commandBound bound os) cs

end

mutual

/-- The uses of variables in an operand. -/
def Operand.uses (scope bound : List String) : Operand → List Use
  | .var v                                     => [⟨v.name, scope, bound⟩]
  | .chain _ o _                               => o.uses scope bound
  | .pipeline ⟨_, assigns, declared, commands⟩ =>
    commandsUses (newNames assigns declared ++ scope) bound commands ++
      assignedUses scope (commandsBound bound commands) assigns declared
  | _                                          => []

def operandsUses (scope bound : List String) : List Operand → List Use
  | []      => []
  | o :: os => o.uses scope bound ++ operandsUses (o.scopeBehind scope) (o.boundBehind bound) os

def commandsUses (scope bound : List String) : List (CommandOf Operand) → List Use
  | []            => []
  | ⟨_, os⟩ :: cs =>
    operandsUses scope bound os ++ commandsUses (operandsScope scope os) (commandBound bound os) cs

end

end Pipelines

namespace PipelineOf

variable (p : Pipeline) (scope bound : List String)

/-- The variables that the reader has in scope behind a pipeline. -/
def scopeBehind : List String := (Operand.pipeline p).scopeBehind scope

/-- The variables that have been bound when a pipeline has been evaluated. -/
def boundBehind : List String := (Operand.pipeline p).boundBehind bound

def uses : List Use := (Operand.pipeline p).uses scope bound

end PipelineOf

/-! ### Nodes and trees -/

def Node.scopeBehind (scope : List String) : Node → List String
  | .action _ p        => p.scopeBehind scope
  | .call _ _ (some p) => p.scopeBehind scope
  | _                  => scope

def Node.boundBehind (bound : List String) : Node → List String
  | .action _ p => p.boundBehind bound
  | _           => bound

def nodesScope (scope : List String) : List Node → List String
  | []      => scope
  | n :: ns => nodesScope (n.scopeBehind scope) ns

/-- The variables that have been bound where the else part of a branch is executed: those of its
pipeline, except that a loop without items does not bind its own. -/
def Control.elseBound (kind : Control) (bound : List String) (pipe : Pipeline) : List String :=
  match kind with
  | .range => commandsBound bound pipe.commands
  | _      => pipe.boundBehind bound

mutual

def Node.uses (scope bound : List String) : Node → List Use
  | .action _ p        => p.uses scope bound
  | .call _ _ (some p) => p.uses scope bound
  | .branch kind _ pipe ⟨_, body⟩ otherwise =>
    pipe.uses scope bound ++
      (nodesUses (pipe.scopeBehind scope) (pipe.boundBehind bound) body ++
        elseUses (nodesScope (pipe.scopeBehind scope) body) (kind.elseBound bound pipe) otherwise)
  | _                  => []

def nodesUses (scope bound : List String) : List Node → List Use
  | []      => []
  | n :: ns => n.uses scope bound ++ nodesUses (n.scopeBehind scope) (n.boundBehind bound) ns

def elseUses (scope bound : List String) : Option (BlockOf Node) → List Use
  | none         => []
  | some ⟨_, ns⟩ => nodesUses scope bound ns

end

/-- The uses of variables in a tree. At its beginning there is the variable of its data. -/
def Tree.uses (t : Tree) : List Use := nodesUses ["$"] ["$"] t.root.nodes

/-! ### Calls of the encoder -/

section Hooks

variable (scope bound : List String)

lemma commandsScope_hook (cs : List Command) (pos : Position) :
    commandsScope scope (cs ++ [hookAt pos]) = commandsScope scope cs := by
  induction cs generalizing scope with
  | nil => simp [commandsScope, hookAt, operandsScope, Operand.scopeBehind]
  | cons c cs ih => simp only [List.cons_append, commandsScope, ih]

lemma commandsBound_hook (cs : List Command) (pos : Position) :
    commandsBound bound (cs ++ [hookAt pos]) = commandsBound bound cs := by
  induction cs generalizing bound with
  | nil => simp [commandsBound, hookAt, commandBound]
  | cons c cs ih => simp only [List.cons_append, commandsBound, ih]

lemma commandsUses_hook (cs : List Command) (pos : Position) :
    commandsUses scope bound (cs ++ [hookAt pos]) = commandsUses scope bound cs := by
  induction cs generalizing scope bound with
  | nil => simp [commandsUses, hookAt, operandsUses, Operand.uses]
  | cons c cs ih => simp only [List.cons_append, commandsUses, ih]

namespace PipelineOf

variable (p : Pipeline)

/-- The pipeline has no call of the encoder, or one behind its commands. -/
lemma withHook_cases : p.withHook = p ∨
    ∃ pos, p.withHook = ⟨p.pos, p.assigns, p.declared, p.commands ++ [hookAt pos]⟩ := by
  unfold withHook
  split
  · split
    · exact .inl rfl
    · exact .inr ⟨_, rfl⟩
  · exact .inl rfl

@[simp] lemma scopeBehind_withHook : p.withHook.scopeBehind scope = p.scopeBehind scope := by
  obtain h | ⟨pos, h⟩ := p.withHook_cases
  · rw [h]
  · rw [h]
    simp only [scopeBehind, Operand.scopeBehind, commandsScope_hook]

@[simp] lemma boundBehind_withHook : p.withHook.boundBehind bound = p.boundBehind bound := by
  obtain h | ⟨pos, h⟩ := p.withHook_cases
  · rw [h]
  · rw [h]
    simp only [boundBehind, Operand.boundBehind, commandsBound_hook]

@[simp] lemma uses_withHook : p.withHook.uses scope bound = p.uses scope bound := by
  obtain h | ⟨pos, h⟩ := p.withHook_cases
  · rw [h]
  · rw [h]
    simp only [uses, Operand.uses, commandsUses_hook, commandsBound_hook]

end PipelineOf

@[simp] lemma Node.scopeBehind_withHooks (n : Node) :
    n.withHooks.scopeBehind scope = n.scopeBehind scope := by
  unfold Node.withHooks
  split
  · exact PipelineOf.scopeBehind_withHook _ _
  all_goals rfl

@[simp] lemma Node.boundBehind_withHooks (n : Node) :
    n.withHooks.boundBehind bound = n.boundBehind bound := by
  unfold Node.withHooks
  split
  · exact PipelineOf.boundBehind_withHook _ _
  all_goals rfl

@[simp] lemma nodesScope_hookAll (ns : List Node) :
    nodesScope scope (hookAll ns) = nodesScope scope ns := by
  induction ns generalizing scope with
  | nil => rfl
  | cons n ns ih => simp only [hookAll, nodesScope, Node.scopeBehind_withHooks, ih]

mutual

lemma Node.uses_withHooks (scope bound : List String) (n : Node) :
    n.withHooks.uses scope bound = n.uses scope bound := by
  match n with
  | .action pos p => simp only [Node.withHooks, Node.uses, PipelineOf.uses_withHook]
  | .branch kind pos p ⟨at₁, body⟩ none =>
    simp only [Node.withHooks, Node.uses, elseUses, nodesUses_hookAll]
  | .branch kind pos p ⟨at₁, body⟩ (some ⟨at₂, otherwise⟩) =>
    simp only [Node.withHooks, Node.uses, elseUses, nodesUses_hookAll _ _ body,
      nodesUses_hookAll _ _ otherwise, nodesScope_hookAll]
  | .text _ _ | .comment _ _ | .call _ _ _ | .breakLoop _ | .continueLoop _ =>
    simp only [Node.withHooks]

lemma nodesUses_hookAll (scope bound : List String) (ns : List Node) :
    nodesUses scope bound (hookAll ns) = nodesUses scope bound ns := by
  match ns with
  | []      => rw [hookAll]
  | n :: ns =>
    simp only [hookAll, nodesUses, Node.uses_withHooks _ _ n, nodesUses_hookAll _ _ ns,
      Node.scopeBehind_withHooks, Node.boundBehind_withHooks]

end

/-- The calls of the encoder do not use variables. -/
theorem Tree.uses_withHooks (t : Tree) : t.withHooks.uses = t.uses :=
  nodesUses_hookAll _ _ t.root.nodes

end Hooks

end SafeQuery
