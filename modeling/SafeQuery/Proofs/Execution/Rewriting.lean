import Mathlib.Tactic.Common
import SafeQuery.Proofs.Execution.Correspondence
import SafeQuery.Proofs.Execution.Hook
import SafeQuery.Proofs.Execution.Rule
import SafeQuery.Proofs.Execution.Run

/-!
# What the calls of the encoder mean

An execution of trees with their calls of the encoder is the execution of the trees without them by
the rule that makes literals when values are written. `runNode_withHooks` is the induction over
statements; it rests on evaluation, which does not depend on the trees of the environment.
-/

namespace SafeQuery

/-! ### Trees of an environment -/

def Dict.mapValues {α β : Type} (g : α → β) (d : Dict α) : Dict β :=
  ⟨d.entries.map fun e => (e.1, g e.2)⟩

/-- A changed dictionary holds the changed value under the same name. -/
lemma Dict.get?_mapValues {α β : Type} (g : α → β) (d : Dict α) (k : String) :
    (d.mapValues g).get? k = (d.get? k).map g := by
  obtain ⟨es⟩ := d
  induction es with
  | nil => rfl
  | cons e es ih =>
    simp only [Dict.get?, Dict.mapValues, List.map_cons, List.find?_cons] at ih ⊢
    by_cases h : e.1 = k
    · simp [h]
    · simpa [h] using ih

def Environment.withTrees (env : Environment) (trees : Dict Tree) : Environment :=
  { env with trees }

/-- The environment with the missing calls of the encoder in all trees. -/
def Environment.withHooks (env : Environment) : Environment :=
  env.withTrees (env.trees.mapValues Tree.withHooks)

/-! ### Evaluation does not depend on trees -/

namespace Frame

def withTrees (f : Frame) (trees : Dict Tree) : Frame := { f with env := f.env.withTrees trees }

variable (f : Frame) (trees : Dict Tree)

/-- Nothing that evaluations see differs with other trees. -/
lemma corresponds_withTrees :
    f.Corresponds (fun _ e e' => e = e') (fun _ => True) (f.withTrees trees) where
  toCongruence := Eval.congruence_eq
  template := rfl
  dot := rfl
  functions _ := rfl
  encoder := rfl
  field _ _ _ _ := rfl

lemma evalCommands_withTrees (cs : List (CommandOf Operand)) :
    (f.withTrees trees).evalCommands none cs = f.evalCommands none cs :=
  ((f.corresponds_withTrees trees).evalCommands none cs fun _ _ => trivial).symm

/-- A pipeline has the same value with other trees. -/
lemma evalPipeline_withTrees (p : Pipeline) :
    (f.withTrees trees).evalPipeline p = f.evalPipeline p :=
  ((f.corresponds_withTrees trees).evalPipeline p fun _ _ => trivial).symm

end Frame

/-! ### Statements -/

lemma Node.withHooks_branch (kind : Control) (pos : Position) (pipe : Pipeline) (body : Block)
    (otherwise : Option Block) :
    (Node.branch kind pos pipe body otherwise).withHooks =
      .branch kind pos pipe body.withHooks (otherwise.map BlockOf.withHooks) := by
  cases otherwise with
  | none => simp only [Node.withHooks, BlockOf.withHooks, Option.map_none]
  | some b => simp only [Node.withHooks, BlockOf.withHooks, Option.map_some]

namespace Stage

/-- The same place with the missing calls of the encoder in all trees, and with another way to call
templates. -/
def withHooks (s : Stage) (enter : Option (Tree → Value → Output Unit)) : Stage :=
  ⟨s.toFrame.withTrees (s.env.trees.mapValues Tree.withHooks), enter⟩

variable {s : Stage} {enter : Option (Tree → Value → Output Unit)}

/-- Calls of templates with their calls of the encoder are those of the templates without them. -/
def CallsAlike (s : Stage) (enter : Option (Tree → Value → Output Unit)) : Prop :=
  ∀ tree dot, (enter.map fun e => e tree.withHooks dot) = s.enter.map fun e => e tree dot

lemma CallsAlike.withDot (h : s.CallsAlike enter) (dot : Value) :
    (s.withDot dot).CallsAlike enter := h

/-- A call does the same where the trees with their calls are entered alike. -/
lemma callTemplate_withHooks (h : s.CallsAlike enter) (pos : Position) (name : String)
    (argument : Option Pipeline) :
    (s.withHooks enter).callTemplate pos name argument = s.callTemplate pos name argument :=
  @callTemplate_congr s (s.withHooks enter) Tree.withHooks (fun _ _ => rfl)
    (Frame.evalPipeline_withTrees s.toFrame _) (fun _ => Dict.get?_mapValues _ _ _)
    (fun _ tree dot _ => h tree dot) pos name argument

/-- An action with its call of the encoder makes a literal when it writes. -/
lemma runAction_withHooks (s : Stage) (enter : Option (Tree → Value → Output Unit))
    (pos : Position) (pipe : Pipeline) :
    (s.withHooks enter).runNode (.action pos pipe.withHook) = (do
      s.writeLiteral pipe
      return .normal) := by
  have heval : ∀ p, (s.withHooks enter).evalPipeline p = s.evalPipeline p :=
    Frame.evalPipeline_withTrees s.toFrame _
  have hordinary : ∀ p, (s.withHooks enter).runNode (.action pos p) = (do
      s.writeValue p
      return .normal) := by
    intro p
    rw [← runNodeBy_writeValue, runNodeBy, writeValue, heval]
    rfl
  rw [hordinary, writeLiteral]
  split
  · rename_i last hd hlast
    by_cases hb : last.isBare hookName = true
    · have hsame : pipe.withHook = pipe := by simp [PipelineOf.withHook, hd, hlast, hb]
      rw [hsame, if_pos hb]
    · have hdeclared : pipe.withHook.declared = [] := by
        simp [PipelineOf.withHook, hd, hlast, hb]
      have hvalue := Frame.evalPipeline_withHook s.toFrame hd hlast (by simpa using hb)
      rw [if_neg hb, writeValue, hvalue, Run.ofEval_bind]
      simp only [bind_assoc, hdeclared, List.isEmpty_nil, if_true, Run.ofEval_lift, Frame.encode]
      congr 1
      funext value
      cases s.env.encoder value <;> rfl
  · rename_i hne
    have hsame : pipe.withHook = pipe := by
      unfold PipelineOf.withHook
      split
      · rename_i last hd hlast
        exact absurd hlast (hne last hd)
      · rfl
    rw [hsame]

mutual

/-- A statement with its calls of the encoder makes literals when it writes. -/
theorem runNode_withHooks {s : Stage} (h : s.CallsAlike enter) (n : Node) :
    (s.withHooks enter).runNode n.withHooks = runNodeBy writeLiteral s n := by
  have heval : ∀ p, (s.withHooks enter).evalPipeline p = s.evalPipeline p :=
    Frame.evalPipeline_withTrees s.toFrame _
  match n with
  | .text _ _ | .comment _ _ | .breakLoop _ | .continueLoop _ =>
    simp only [Node.withHooks, runNodeBy, runNode]
  | .action pos pipe =>
    rw [Node.withHooks, runNodeBy]
    exact runAction_withHooks s enter pos pipe
  | .call pos name argument =>
    simp only [Node.withHooks, runNodeBy, runNode, callTemplate_withHooks h]
  | .branch .cond pos pipe ⟨at₁, body⟩ otherwise =>
    simp only [Node.withHooks_branch, BlockOf.withHooks, runNodeBy, runNode, heval,
      runNodes_withHooks h body, runElse_withHooks h otherwise]
  | .branch .withValue pos pipe ⟨at₁, body⟩ otherwise =>
    have hbody : ∀ v, ((s.withHooks enter).withDot v).runNodes (hookAll body) =
        runNodesBy writeLiteral (s.withDot v) body := fun v => runNodes_withHooks (h.withDot v) body
    simp only [Node.withHooks_branch, BlockOf.withHooks, runNodeBy, runNode, heval, hbody,
      runElse_withHooks h otherwise]
  | .branch .range pos pipe ⟨at₁, body⟩ otherwise =>
    have hbody : ∀ v, ((s.withHooks enter).withDot v).runNodes (hookAll body) =
        runNodesBy writeLiteral (s.withDot v) body := fun v => runNodes_withHooks (h.withDot v) body
    have hcommands : (s.withHooks enter).evalCommands none pipe.commands =
        s.evalCommands none pipe.commands := Frame.evalCommands_withTrees s.toFrame _ _
    rw [Node.withHooks_branch, BlockOf.withHooks, runNodeBy, runNode, hcommands]
    refine congrArg Run.locally (congrArg _ (funext fun value => ?_))
    cases Items.ofValue? value with
    | none => rfl
    | some items =>
      simp only [hbody, runElse_withHooks h otherwise]
      rfl

/-- Statements with their calls of the encoder run as those without them that write literals. -/
lemma runNodes_withHooks {s : Stage} (h : s.CallsAlike enter) (ns : List Node) :
    (s.withHooks enter).runNodes (hookAll ns) = runNodesBy writeLiteral s ns := by
  match ns with
  | []      => simp only [hookAll, runNodes, runNodesBy]
  | n :: ns =>
    rw [hookAll, runNodes, runNodesBy, runNode_withHooks h n]
    refine congrArg _ (funext fun flow => ?_)
    cases flow with
    | normal => exact runNodes_withHooks h ns
    | breakLoop => rfl
    | continueLoop => rfl

lemma runElse_withHooks {s : Stage} (h : s.CallsAlike enter) (otherwise : Option (BlockOf Node)) :
    (s.withHooks enter).runElse (otherwise.map BlockOf.withHooks) =
      runElseBy writeLiteral s otherwise := by
  match otherwise with
  | none           => simp only [Option.map_none, runElse, runElseBy]
  | some ⟨pos, ns⟩ =>
    simp only [Option.map_some, BlockOf.withHooks, runElse, runElseBy, runNodes_withHooks h ns]

end

end Stage

/-! ### Templates -/

namespace Environment

/-- A tree with its calls of the encoder makes literals when it writes. -/
lemma runTree_withHooks (env : Environment) (d : Nat) (tree : Tree) (dot : Value) :
    env.withHooks.runTree d tree.withHooks dot =
      runTreeBy Stage.writeLiteral env d tree dot := by
  induction d generalizing tree dot with
  | zero =>
    have h : (⟨⟨env, tree.name, dot⟩, none⟩ : Stage).CallsAlike none := fun _ _ => rfl
    have hnodes := Stage.runNodes_withHooks h tree.root.nodes
    rw [runTree, runTreeBy, runTree.enterWith, runTreeBy.enterWithBy, ← hnodes]
    rfl
  | succ d ih =>
    have h : (⟨⟨env, tree.name, dot⟩, some (runTreeBy Stage.writeLiteral env d)⟩ :
        Stage).CallsAlike (some (env.withHooks.runTree d)) := fun tree dot => by simp [ih]
    have hnodes := Stage.runNodes_withHooks h tree.root.nodes
    rw [runTree, runTreeBy, runTree.enterWith, runTreeBy.enterWithBy, ← hnodes]
    rfl

/-- Executing a tree with its calls of the encoder makes literals when values are written. -/
theorem execute_withHooks (env : Environment) (tree : Tree) (data : Value) (room : Option Nat) :
    env.withHooks.execute tree.withHooks data room =
      executeBy Stage.writeLiteral env tree data room := by
  rcases hend : (runTreeBy Stage.writeLiteral env maxCallDepth tree data).run
    (Sink.ofRoom room) with ⟨_ | u, w⟩
  · simp only [execute, executeBy, runTree_withHooks, hend]
  · simp only [execute, executeBy, runTree_withHooks, hend]

end Environment

namespace Template

def withHooks (t : Template) : Template := { t with trees := t.trees.mapValues Tree.withHooks }

/-- A template whose trees have their calls of the encoder is executed as the one without them is by
the rule that makes literals when values are written: it writes the same and fails alike. That
rule takes the place of the ordinary one in an execution that is otherwise the ordinary one. -/
theorem executeNamed_withHooks (t : Template) (name : String) (data : Value) (room : Option Nat) :
    t.withHooks.executeNamed name data room =
        executeNamedBy Stage.writeLiteral t name data room ∧
      t.withHooks.execute data room = executeBy Stage.writeLiteral t data room ∧
      executeNamedBy Stage.writeValue t name data room = t.executeNamed name data room := by
  have hrun : ∀ (k : String) (missing : Error),
      t.withHooks.run (t.withHooks.trees.get? k) missing data room =
        runBy Stage.writeLiteral t (t.trees.get? k) missing data room := by
    intro k missing
    have hget : t.withHooks.trees.get? k = (t.trees.get? k).map Tree.withHooks :=
      Dict.get?_mapValues _ _ _
    rw [hget]
    cases t.trees.get? k with
    | none => rfl
    | some tree =>
      simp only [Option.map_some, run, runBy, ← Environment.execute_withHooks]
      rfl
  exact ⟨hrun name _, hrun t.name _, executeNamedBy_writeValue t name data room⟩

end Template

end SafeQuery
