import Mathlib.Tactic.Common
import SafeQuery.Template

/-!
# Executions with another rule for actions

The execution of templates with the rule for actions left open. `Stage.writeValue` is the ordinary
rule, with which the execution is that of `Environment.execute`, and `Stage.writeLiteral` is the
rule that makes a literal of the value of an action when it is written, so that the templates need
no calls of the encoder.
-/

namespace SafeQuery

/-- How an action with a pipeline is run. -/
abbrev ActionRule := Stage → Pipeline → Run Unit

namespace Stage

/-- Write the value of the pipeline, unless it declares variables. -/
def writeValue : ActionRule := fun s pipe => do
  let value ← Run.ofEval (s.evalPipeline pipe)
  if pipe.declared.isEmpty then Run.emit (.value value)

/-- If the pipeline declares nothing and does not end in a call of the encoder, write the literal of
its value. Where there is none, the last command is to blame. -/
def writeLiteral : ActionRule := fun s pipe =>
  match pipe.declared, pipe.commands.getLast? with
  | [], some last =>
    if last.isBare hookName then s.writeValue pipe
    else do
      let value ← Run.ofEval (s.evalPipeline pipe)
      match s.env.encoder value with
      | .ok sql      => Run.emit (.value (.raw sql))
      | .error cause => throw (.encoding (s.placeAt last.pos last.print) cause)
  | _, _ => s.writeValue pipe

mutual

def runNodeBy (rule : ActionRule) (s : Stage) : Node → Run Flow
  | .text _ t                => do
    Run.emit (.text t)
    return .normal
  | .comment _ _             => return .normal
  | .action _ pipe           => do
    rule s pipe
    return .normal
  | .branch .cond _ pipe ⟨_, body⟩ otherwise => Run.locally do
    let value ← Run.ofEval (s.evalPipeline pipe)
    if value.isTrue then runNodesBy rule s body else runElseBy rule s otherwise
  | .branch .withValue _ pipe ⟨_, body⟩ otherwise => Run.locally do
    let value ← Run.ofEval (s.evalPipeline pipe)
    if value.isTrue then runNodesBy rule (s.withDot value) body else runElseBy rule s otherwise
  | .branch .range pos pipe ⟨_, body⟩ otherwise => Run.locally do
    let value ← Run.ofEval (s.evalCommands none pipe.commands)
    match Items.ofValue? value with
    | none       => throw (.fault (s.placeAt pos pipe.print) (.notIterable value.display))
    | some items =>
      if items.isEmpty then
        let _ ← runElseBy rule s otherwise
      else
        unless pipe.assigns do
          Run.ofEval (pipe.declared.forM fun v => Frame.declare v .null)
        items.forEach fun index value => do
          Run.ofEval (s.bindItem pos index value pipe.declared)
          Run.locally (runNodesBy rule (s.withDot value) body)
      return .normal
  | .call pos name argument  => do
    s.callTemplate pos name argument
    return .normal
  | .breakLoop _             => return .breakLoop
  | .continueLoop _          => return .continueLoop

/-- Run statements one after the other, up to the first one that leaves the sequence. -/
def runNodesBy (rule : ActionRule) (s : Stage) : List Node → Run Flow
  | []      => return .normal
  | n :: ns => do
    match ← runNodeBy rule s n with
    | .normal => runNodesBy rule s ns
    | flow    => return flow

def runElseBy (rule : ActionRule) (s : Stage) : Option (BlockOf Node) → Run Flow
  | none         => return .normal
  | some ⟨_, ns⟩ => runNodesBy rule s ns

end

mutual

/-- With the ordinary rule a statement runs as it does. -/
lemma runNodeBy_writeValue (s : Stage) (n : Node) : runNodeBy writeValue s n = s.runNode n := by
  match n with
  | .text _ _ | .comment _ _ | .call _ _ _ | .breakLoop _ | .continueLoop _ =>
    rw [runNodeBy, runNode]
  | .action pos pipe =>
    rw [runNodeBy, runNode, writeValue, bind_assoc]
    congr 1
    funext value
    cases pipe.declared.isEmpty <;> rfl
  | .branch .cond pos pipe ⟨at₁, body⟩ otherwise =>
    simp only [runNodeBy, runNode, runNodesBy_writeValue s body, runElseBy_writeValue s otherwise]
  | .branch .withValue pos pipe ⟨at₁, body⟩ otherwise =>
    simp only [runNodeBy, runNode, fun v => runNodesBy_writeValue (s.withDot v) body,
      runElseBy_writeValue s otherwise]
  | .branch .range pos pipe ⟨at₁, body⟩ otherwise =>
    rw [runNodeBy, runNode]
    refine congrArg Run.locally (congrArg _ (funext fun value => ?_))
    cases Items.ofValue? value with
    | none => rfl
    | some items =>
      simp only [fun v => runNodesBy_writeValue (s.withDot v) body,
        runElseBy_writeValue s otherwise]

lemma runNodesBy_writeValue (s : Stage) (ns : List Node) :
    runNodesBy writeValue s ns = s.runNodes ns := by
  match ns with
  | []      => rw [runNodesBy, runNodes]
  | n :: ns =>
    rw [runNodesBy, runNodes, runNodeBy_writeValue s n]
    refine congrArg _ (funext fun flow => ?_)
    cases flow with
    | normal => exact runNodesBy_writeValue s ns
    | breakLoop => rfl
    | continueLoop => rfl

lemma runElseBy_writeValue (s : Stage) (otherwise : Option (BlockOf Node)) :
    runElseBy writeValue s otherwise = s.runElse otherwise := by
  match otherwise with
  | none         => rw [runElseBy, runElse]
  | some ⟨_, ns⟩ => rw [runElseBy, runElse, runNodesBy_writeValue s ns]

end

end Stage

namespace Environment

/-- Run a template with its data. Calls can be nested as deep as given. -/
def runTreeBy (rule : ActionRule) (env : Environment) : Nat → Tree → Value → Output Unit
  | 0,     tree, dot => enterWithBy none tree dot
  | d + 1, tree, dot => enterWithBy (some (runTreeBy rule env d)) tree dot
where
  /-- Run the statements of a template. -/
  enterWithBy (enter : Option (Tree → Value → Output Unit)) (tree : Tree) (dot : Value) :
      Output Unit := do
    let _ ← (Stage.runNodesBy rule ⟨⟨env, tree.name, dot⟩, enter⟩ tree.root.nodes).run
      [("$", dot)]

/-- Execute a template with its data, with the given room for its output. -/
def executeBy (rule : ActionRule) (env : Environment) (tree : Tree) (data : Value)
    (room : Option Nat) : Outcome :=
  match (runTreeBy rule env maxCallDepth tree data).run (Sink.ofRoom room) with
  | (.ok _, sink)        => ⟨none, sink⟩
  | (.error cause, sink) => ⟨some cause, sink⟩

/-- With the ordinary rule a template runs as it does. -/
lemma runTreeBy_writeValue (env : Environment) (d : Nat) :
    runTreeBy Stage.writeValue env d = env.runTree d := by
  induction d with
  | zero =>
    funext tree dot
    simp only [runTreeBy, runTree, runTreeBy.enterWithBy, runTree.enterWith,
      Stage.runNodesBy_writeValue]
  | succ d ih =>
    funext tree dot
    simp only [runTreeBy, runTree, runTreeBy.enterWithBy, runTree.enterWith,
      Stage.runNodesBy_writeValue, ih]

/-- With the ordinary rule the execution is the ordinary one. -/
theorem executeBy_writeValue (env : Environment) (tree : Tree) (data : Value)
    (room : Option Nat) :
    executeBy Stage.writeValue env tree data room = env.execute tree data room := by
  rcases hend : (env.runTree maxCallDepth tree data).run (Sink.ofRoom room) with ⟨_ | u, w⟩
  · simp only [executeBy, execute, runTreeBy_writeValue, hend]
  · simp only [executeBy, execute, runTreeBy_writeValue, hend]

end Environment

namespace Template

def runBy (rule : ActionRule) (t : Template) (tree? : Option Tree) (missing : Error) (data : Value)
    (room : Option Nat) : Rendering :=
  match tree? with
  | none      => ⟨some missing, .ofRoom room⟩
  | some tree =>
    let outcome := t.environment.executeBy rule tree data room
    ⟨outcome.failure.map .execution, outcome.sink⟩

def executeBy (rule : ActionRule) (t : Template) (data : Value) (room : Option Nat) : Rendering :=
  runBy rule t t.tree? (.incomplete t.name) data room

def executeNamedBy (rule : ActionRule) (t : Template) (name : String) (data : Value)
    (room : Option Nat) : Rendering :=
  runBy rule t (t.trees.get? name) (.noTemplate name t.name) data room

lemma runBy_writeValue (t : Template) (tree? : Option Tree) (missing : Error) (data : Value)
    (room : Option Nat) :
    runBy Stage.writeValue t tree? missing data room = t.run tree? missing data room := by
  cases tree? with
  | none => rfl
  | some tree => simp only [runBy, run, Environment.executeBy_writeValue]

/-- With the ordinary rule the execution of a template is the ordinary one. -/
theorem executeNamedBy_writeValue (t : Template) (name : String) (data : Value)
    (room : Option Nat) :
    executeNamedBy Stage.writeValue t name data room = t.executeNamed name data room :=
  runBy_writeValue t _ _ data room

end Template

end SafeQuery
