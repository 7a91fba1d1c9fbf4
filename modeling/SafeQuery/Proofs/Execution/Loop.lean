import Mathlib.Tactic.Common
import SafeQuery.Proofs.Execution.Run
import SafeQuery.Proofs.Tree.Exit

/-!
# Executions that name the loop that is left

An execution in which an exit names its loop, by the loops whose bodies hold it: a loop is left or
continued by the exits that name it, and every other exit leaves it towards the loop that it names.
There is one choice, what becomes of an exit that leaves the else part of a loop: by `Way.forward`
it goes on to its loop, and by `Way.drop` it is forgotten. `runNodeTo_within` is the induction over
statements, and `executeTo_eq` says that the ordinary execution is the one that forgets these exits,
and also the one that does not, if no exit stands in the else part of a loop.
-/

namespace SafeQuery

/-- How the statements of a sequence are left, and which loop that is for: it is given with the loops
around it, the innermost first. -/
inductive Way where
  | normal
  | breaks (loops : List Position)
  | continues (loops : List Position)
deriving DecidableEq, Repr

/-- The way of a flow that is for the innermost of the loops. -/
def Flow.within (loops : List Position) : Flow → Way
  | .normal       => .normal
  | .breakLoop    => .breaks loops
  | .continueLoop => .continues loops

/-- What becomes of the way in which the else part of a loop is left. -/
abbrev ElseRule := Way → Way

namespace Way

/-- How a loop is left when its body is left, if it is not continued. -/
def leaving (loops : List Position) : Way → Option Way
  | normal       => none
  | breaks ls    => some (if ls = loops then normal else breaks ls)
  | continues ls => if ls = loops then none else some (continues ls)

/-- The else part of a loop is left as any other statements are. -/
def forward : ElseRule := id

/-- Behind the else part of a loop the execution goes on. -/
def drop : ElseRule := fun _ => normal

end Way

namespace Items

/-- Run a body for pairs, up to the first one that leaves the loop. -/
def forPairsTo (loops : List Position) (body : Value → Value → Run Way) :
    List (Value × Value) → Run Way
  | []           => return .normal
  | (i, v) :: ps => do
    match (← body i v).leaving loops with
    | some way => return way
    | none     => forPairsTo loops body ps

/-- Run a body for as many numbers as given, beginning with `i`, up to the first one that leaves the
loop. -/
def forNumbersTo (loops : List Position) (body : Value → Value → Run Way) (i : Nat) :
    Nat → Run Way
  | 0     => return .normal
  | n + 1 => do
    match (← body (.ofNat i) (.ofNat i)).leaving loops with
    | some way => return way
    | none     => forNumbersTo loops body (i + 1) n

/-- Run a body for every item, up to the first one that leaves the loop. -/
def forEachTo (loops : List Position) (items : Items) (body : Value → Value → Run Way) : Run Way :=
  match items with
  | pairs ps => forPairsTo loops body ps
  | count n  => forNumbersTo loops body 0 n

end Items

/-! ### Statements -/

namespace Stage

/-- Run a statement that has no statements inside it and is no exit. -/
def runLeaf (s : Stage) (n : Node) : Run Way := do
  let _ ← s.runNode n
  return .normal

mutual

/-- Run a statement inside loops. -/
def runNodeTo (rule : ElseRule) (loops : List Position) (s : Stage) : Node → Run Way
  | .text pos t              => s.runLeaf (.text pos t)
  | .comment pos t           => s.runLeaf (.comment pos t)
  | .action pos pipe         => s.runLeaf (.action pos pipe)
  | .call pos name argument  => s.runLeaf (.call pos name argument)
  | .branch .cond _ pipe ⟨_, body⟩ otherwise => Run.locally do
    let value ← Run.ofEval (s.evalPipeline pipe)
    if value.isTrue then runNodesTo rule loops s body else runElseTo rule loops s otherwise
  | .branch .withValue _ pipe ⟨_, body⟩ otherwise => Run.locally do
    let value ← Run.ofEval (s.evalPipeline pipe)
    if value.isTrue then runNodesTo rule loops (s.withDot value) body
    else runElseTo rule loops s otherwise
  | .branch .range pos pipe ⟨_, body⟩ otherwise => Run.locally do
    let value ← Run.ofEval (s.evalCommands none pipe.commands)
    match Items.ofValue? value with
    | none       => throw (.fault (s.placeAt pos pipe.print) (.notIterable value.display))
    | some items =>
      if items.isEmpty then
        let way ← runElseTo rule loops s otherwise
        return rule way
      else
        unless pipe.assigns do
          Run.ofEval (pipe.declared.forM fun v => Frame.declare v .null)
        items.forEachTo (pos :: loops) fun index value => do
          Run.ofEval (s.bindItem pos index value pipe.declared)
          Run.locally (runNodesTo rule (pos :: loops) (s.withDot value) body)
  | .breakLoop _             => return .breaks loops
  | .continueLoop _          => return .continues loops

/-- Run statements inside loops one after the other, up to the first one that leaves the
sequence. -/
def runNodesTo (rule : ElseRule) (loops : List Position) (s : Stage) : List Node → Run Way
  | []      => return .normal
  | n :: ns => do
    match ← runNodeTo rule loops s n with
    | .normal => runNodesTo rule loops s ns
    | way     => return way

/-- Run the statements of an else part inside loops, if there is one. -/
def runElseTo (rule : ElseRule) (loops : List Position) (s : Stage) :
    Option (BlockOf Node) → Run Way
  | none         => return .normal
  | some ⟨_, ns⟩ => runNodesTo rule loops s ns

end

end Stage

namespace Environment

/-- Run a template with its data; no loop is around it. Calls can be nested as deep as given. -/
def runTreeTo (rule : ElseRule) (env : Environment) : Nat → Tree → Value → Output Unit
  | 0,     tree, dot => enterWithTo none tree dot
  | d + 1, tree, dot => enterWithTo (some (runTreeTo rule env d)) tree dot
where
  /-- Run the statements of a template. -/
  enterWithTo (enter : Option (Tree → Value → Output Unit)) (tree : Tree) (dot : Value) :
      Output Unit := do
    let _ ← (Stage.runNodesTo rule [] ⟨⟨env, tree.name, dot⟩, enter⟩ tree.root.nodes).run
      [("$", dot)]

/-- Execute a template with its data, with the given room for its output. -/
def executeTo (rule : ElseRule) (env : Environment) (tree : Tree) (data : Value)
    (room : Option Nat) : Outcome :=
  match (runTreeTo rule env maxCallDepth tree data).run (Sink.ofRoom room) with
  | (.ok _, sink)        => ⟨none, sink⟩
  | (.error cause, sink) => ⟨some cause, sink⟩

end Environment

/-! ### Runs that end normally -/

namespace Run

variable {α β : Type}

/-- If the run has a result, statements are left normally. -/
def IsNormal (act : Run Flow) : Prop := (do let _ ← act; return Flow.normal) = act

lemma isNormal_pure : IsNormal (pure .normal) := rfl

lemma isNormal_throw (e : ExecutionError) : IsNormal (throw e) := rfl

lemma isNormal_bind {act : Run α} {k : α → Run Flow} (h : ∀ a, IsNormal (k a)) :
    IsNormal (act >>= k) := by
  unfold IsNormal
  rw [bind_assoc]
  exact congrArg (act >>= ·) (funext h)

lemma map_locally (f : α → β) (act : Run α) : f <$> locally act = locally (f <$> act) := by
  simp only [locally, map_bind, bind_map_left, map_pure]

lemma isNormal_locally {act : Run Flow} (h : IsNormal act) : IsNormal (locally act) := by
  have hmap : ∀ a : Run Flow, (do let _ ← a; return Flow.normal) = (fun _ => .normal) <$> a :=
    fun a => (map_eq_pure_bind _ a).symm
  unfold IsNormal at h ⊢
  rw [hmap] at h ⊢
  rw [map_locally, h]

/-- What is done behind a run that is left normally. -/
lemma IsNormal.bind {act : Run Flow} (h : IsNormal act) (k : Flow → Run α) :
    act >>= k = act >>= fun _ => k .normal := by
  conv_lhs => rw [← h]
  simp only [bind_assoc, pure_bind]

end Run

namespace Stage

mutual

/-- A statement in the else part of a loop is left normally, if no exit stands there. -/
lemma runNode_isNormal (s : Stage) {loops : List Position} (n : Node)
    (h : ∀ x ∈ n.exits loops true, x.inElse = false) : Run.IsNormal (s.runNode n) := by
  match n with
  | .text _ _ | .comment _ _ | .call _ _ _ =>
    rw [runNode]
    first | exact Run.isNormal_pure | exact Run.isNormal_bind fun _ => Run.isNormal_pure
  | .action _ pipe =>
    rw [runNode]
    refine Run.isNormal_bind fun value => ?_
    split
    · exact Run.isNormal_bind fun _ => Run.isNormal_pure
    · exact Run.isNormal_pure
  | .breakLoop pos | .continueLoop pos => simp [Node.exits] at h
  | .branch .cond pos pipe ⟨at₁, body⟩ otherwise =>
    simp only [Node.exits, List.forall_mem_append] at h
    rw [runNode]
    refine Run.isNormal_locally (Run.isNormal_bind fun value => ?_)
    split
    · exact runNodes_isNormal s body h.1
    · exact runElse_isNormal s otherwise h.2
  | .branch .withValue pos pipe ⟨at₁, body⟩ otherwise =>
    simp only [Node.exits, List.forall_mem_append] at h
    rw [runNode]
    refine Run.isNormal_locally (Run.isNormal_bind fun value => ?_)
    split
    · exact runNodes_isNormal _ body h.1
    · exact runElse_isNormal s otherwise h.2
  | .branch .range pos pipe ⟨at₁, body⟩ otherwise =>
    rw [runNode]
    refine Run.isNormal_locally (Run.isNormal_bind fun value => ?_)
    split
    · exact Run.isNormal_throw _
    · dsimp only
      split
      · exact Run.isNormal_bind fun _ => Run.isNormal_pure
      · split
        · exact Run.isNormal_bind fun _ => Run.isNormal_pure
        · exact Run.isNormal_bind fun _ => Run.isNormal_bind fun _ => Run.isNormal_pure

/-- The statements in the else part of a loop are left normally, if no exit stands there. -/
lemma runNodes_isNormal (s : Stage) {loops : List Position} (ns : List Node)
    (h : ∀ x ∈ nodesExits loops true ns, x.inElse = false) : Run.IsNormal (s.runNodes ns) := by
  match ns with
  | [] =>
    rw [runNodes]
    exact Run.isNormal_pure
  | n :: ns =>
    simp only [nodesExits, List.forall_mem_append] at h
    rw [runNodes, (runNode_isNormal s n h.1).bind]
    exact Run.isNormal_bind fun _ => runNodes_isNormal s ns h.2

/-- An else part without an exit for the loop around it is left normally. -/
lemma runElse_isNormal (s : Stage) {loops : List Position} (otherwise : Option (BlockOf Node))
    (h : ∀ x ∈ elseExits loops true otherwise, x.inElse = false) :
    Run.IsNormal (s.runElse otherwise) := by
  match otherwise with
  | none =>
    rw [runElse]
    exact Run.isNormal_pure
  | some ⟨pos, ns⟩ =>
    rw [runElse]
    exact runNodes_isNormal s ns h

end

end Stage

/-! ### Loops that are named -/

namespace Way

/-- The rule goes on behind the else part of every loop, or it does so where the else part is not
left by an exit, as is the case if no exit stands there. -/
def Suits (rule : ElseRule) (xs : List Exit) : Prop :=
  (∀ way, rule way = normal) ∨ rule normal = normal ∧ ∀ x ∈ xs, x.inElse = false

lemma suits_append {rule : ElseRule} {xs ys : List Exit} :
    Suits rule (xs ++ ys) ↔ Suits rule xs ∧ Suits rule ys := by
  simp only [Suits, List.forall_mem_append]
  tauto

end Way

namespace Items

variable {loops : List Position} {body : Value → Value → Run Flow}

/-- A loop is left by the exits of its body, which name it, and in no other way. -/
lemma forPairsTo_within (ps : List (Value × Value)) :
    forPairsTo loops (fun i v => Flow.within loops <$> body i v) ps =
      (fun _ => .normal) <$> forPairs body ps := by
  induction ps with
  | nil => simp only [forPairsTo, forPairs, map_pure]
  | cons p ps ih =>
    simp only [forPairsTo, forPairs, bind_map_left, map_bind, ih]
    refine congrArg _ (funext fun flow => ?_)
    cases flow <;> simp [Flow.within, Way.leaving]

lemma forNumbersTo_within (i n : Nat) :
    forNumbersTo loops (fun i v => Flow.within loops <$> body i v) i n =
      (fun _ => .normal) <$> forNumbers body i n := by
  induction n generalizing i with
  | zero => simp only [forNumbersTo, forNumbers, map_pure]
  | succ n ih =>
    simp only [forNumbersTo, forNumbers, bind_map_left, map_bind, ih]
    refine congrArg _ (funext fun flow => ?_)
    cases flow <;> simp [Flow.within, Way.leaving]

/-- A loop that is left by its own exits ends normally. -/
lemma forEachTo_within (items : Items) :
    items.forEachTo loops (fun i v => Flow.within loops <$> body i v) =
      (fun _ => .normal) <$> items.forEach body := by
  cases items with
  | pairs ps => exact forPairsTo_within ps
  | count n => exact forNumbersTo_within 0 n

end Items

namespace Stage

variable {rule : ElseRule} {enter : Option (Tree → Value → Output Unit)}

def withEnter (s : Stage) (enter : Option (Tree → Value → Output Unit)) : Stage :=
  ⟨s.toFrame, enter⟩

/-- The templates of the environment are called alike. -/
def CallsSame (s : Stage) (enter : Option (Tree → Value → Output Unit)) : Prop :=
  ∀ name tree dot, s.env.trees.get? name = some tree →
    (enter.map fun e => e tree dot) = s.enter.map fun e => e tree dot

/-- A call does the same where templates are entered alike. -/
lemma callTemplate_withEnter {s : Stage} (h : s.CallsSame enter) (pos : Position) (name : String)
    (argument : Option Pipeline) :
    (s.withEnter enter).callTemplate pos name argument = s.callTemplate pos name argument :=
  @callTemplate_congr s (s.withEnter enter) id (fun _ _ => rfl) (fun _ => rfl)
    (fun _ => Option.map_id.symm ▸ rfl) h pos name argument

/-- A statement that is no exit and has none inside it is left normally. -/
lemma runLeaf_withEnter {s : Stage} {loops : List Position} {n : Node}
    (hsame : (s.withEnter enter).runNode n = s.runNode n) (hn : n.exits [] true = []) :
    (s.withEnter enter).runLeaf n = Flow.within loops <$> s.runNode n := by
  have hexits : ∀ x ∈ n.exits [] true, x.inElse = false := by simp [hn]
  have hnormal : Run.IsNormal (s.runNode n) := runNode_isNormal s n hexits
  rw [runLeaf, hsame, map_eq_pure_bind, hnormal.bind fun flow => pure (flow.within loops)]
  rfl

/-- A loop, if its body and its else part are. Its else part can be left in one way only, or it does
not matter how. -/
lemma runRangeTo_within {s : Stage} {loops : List Position} {pos at₁ : Position} {pipe : Pipeline}
    {body : List Node} {otherwise : Option (BlockOf Node)}
    (hbody : ∀ v, runNodesTo rule (pos :: loops) ((s.withEnter enter).withDot v) body =
      Flow.within (pos :: loops) <$> (s.withDot v).runNodes body)
    (helse : runElseTo rule loops (s.withEnter enter) otherwise =
      Flow.within loops <$> s.runElse otherwise)
    (h : Way.Suits rule (elseExits loops true otherwise)) :
    runNodeTo rule loops (s.withEnter enter) (.branch .range pos pipe ⟨at₁, body⟩ otherwise) =
      Flow.within loops <$> s.runNode (.branch .range pos pipe ⟨at₁, body⟩ otherwise) := by
  rw [runNodeTo, runNode, Run.map_locally, map_bind]
  refine congrArg Run.locally (congrArg _ (funext fun value => ?_))
  cases Items.ofValue? value with
  | none => rfl
  | some items =>
    dsimp only
    split
    · rw [helse, bind_map_left, map_bind]
      rcases h with hdrop | ⟨hnormal, hexits⟩
      · simp only [hdrop, map_pure, Flow.within]
      · rw [(runElse_isNormal s otherwise hexits).bind]
        simp only [Flow.within, hnormal, map_pure]
    · simp only [hbody, ← Run.map_locally, ← map_bind, Items.forEachTo_within]
      split
      all_goals
        simp only [map_eq_pure_bind, bind_assoc, pure_bind]
        rfl

mutual

/-- A statement is run as in the ordinary execution, and its exits name the innermost loop. -/
theorem runNodeTo_within {s : Stage} (hcalls : s.CallsSame enter) (loops : List Position)
    (inElse : Bool) (n : Node) (h : Way.Suits rule (n.exits loops inElse)) :
    runNodeTo rule loops (s.withEnter enter) n = Flow.within loops <$> s.runNode n := by
  match n with
  | .text _ _ | .comment _ _ =>
    rw [runNodeTo]
    refine runLeaf_withEnter ?_ (by simp [Node.exits])
    rw [runNode, runNode]
  | .action _ _ =>
    rw [runNodeTo]
    refine runLeaf_withEnter ?_ (by simp [Node.exits])
    rw [runNode, runNode]
    rfl
  | .call pos name argument =>
    rw [runNodeTo]
    refine runLeaf_withEnter ?_ (by simp [Node.exits])
    rw [runNode, runNode, callTemplate_withEnter hcalls]
  | .breakLoop _ | .continueLoop _ =>
    simp only [runNodeTo, runNode, map_pure, Flow.within]
  | .branch .cond pos pipe ⟨at₁, body⟩ otherwise =>
    rw [Node.exits, Way.suits_append] at h
    rw [runNodeTo, runNode, Run.map_locally, map_bind]
    refine congrArg Run.locally (congrArg _ (funext fun value => ?_))
    split
    · exact runNodesTo_within hcalls loops inElse body h.1
    · exact runElseTo_within hcalls loops inElse otherwise h.2
  | .branch .withValue pos pipe ⟨at₁, body⟩ otherwise =>
    rw [Node.exits, Way.suits_append] at h
    rw [runNodeTo, runNode, Run.map_locally, map_bind]
    refine congrArg Run.locally (congrArg _ (funext fun value => ?_))
    split
    · exact runNodesTo_within (s := s.withDot value) hcalls loops inElse body h.1
    · exact runElseTo_within hcalls loops inElse otherwise h.2
  | .branch .range pos pipe ⟨at₁, body⟩ otherwise =>
    rw [Node.exits, Way.suits_append] at h
    exact runRangeTo_within
      (fun v => runNodesTo_within (s := s.withDot v) hcalls (pos :: loops) false body h.1)
      (runElseTo_within hcalls loops true otherwise h.2) h.2

/-- Statements inside loops leave them as they do when the loops are not named. -/
lemma runNodesTo_within {s : Stage} (hcalls : s.CallsSame enter) (loops : List Position)
    (inElse : Bool) (ns : List Node) (h : Way.Suits rule (nodesExits loops inElse ns)) :
    runNodesTo rule loops (s.withEnter enter) ns = Flow.within loops <$> s.runNodes ns := by
  match ns with
  | []      => simp only [runNodesTo, runNodes, map_pure, Flow.within]
  | n :: ns =>
    rw [nodesExits, Way.suits_append] at h
    rw [runNodesTo, runNodes, runNodeTo_within hcalls loops inElse n h.1, bind_map_left, map_bind]
    refine congrArg _ (funext fun flow => ?_)
    cases flow with
    | normal => exact runNodesTo_within hcalls loops inElse ns h.2
    | breakLoop => simp [Flow.within]
    | continueLoop => simp [Flow.within]

lemma runElseTo_within {s : Stage} (hcalls : s.CallsSame enter) (loops : List Position)
    (inElse : Bool) (otherwise : Option (BlockOf Node))
    (h : Way.Suits rule (elseExits loops inElse otherwise)) :
    runElseTo rule loops (s.withEnter enter) otherwise =
      Flow.within loops <$> s.runElse otherwise := by
  match otherwise with
  | none           => simp only [runElseTo, runElse, map_pure, Flow.within]
  | some ⟨pos, ns⟩ =>
    rw [runElseTo, runElse]
    exact runNodesTo_within hcalls loops inElse ns h

end

end Stage

/-! ### Templates -/

namespace Environment

variable {env : Environment} {rule : ElseRule}

/-- A template whose exits suit the rule is entered alike. -/
lemma enterWithTo_eq {enter enter' : Option (Tree → Value → Output Unit)} {tree : Tree} {dot : Value}
    (hcalls : Stage.CallsSame ⟨⟨env, tree.name, dot⟩, enter⟩ enter')
    (h : Way.Suits rule tree.exits) :
    runTreeTo.enterWithTo rule env enter' tree dot = runTree.enterWith env enter tree dot := by
  have hnodes := Stage.runNodesTo_within hcalls [] false tree.root.nodes h
  rw [runTreeTo.enterWithTo, runTree.enterWith]
  rw [Stage.withEnter] at hnodes
  rw [hnodes, StateT.run_map]
  simp only [bind_map_left]

/-- However deep calls are nested, the templates of the environment are run as in the ordinary
execution. -/
lemma runTreeTo_eq
    (h : ∀ name tree, env.trees.get? name = some tree → Way.Suits rule tree.exits) (d : Nat)
    {name : String} {tree : Tree} (htree : env.trees.get? name = some tree) (dot : Value) :
    runTreeTo rule env d tree dot = env.runTree d tree dot := by
  induction d generalizing name tree dot with
  | zero => exact enterWithTo_eq (fun _ _ _ _ => rfl) (h name tree htree)
  | succ d ih =>
    refine enterWithTo_eq ?_ (h name tree htree)
    intro name' tree' dot' htree'
    exact congrArg some (ih htree' dot')

/-- The execution by a rule that suits the trees is the ordinary one. -/
theorem executeTo_eq
    (h : ∀ name tree, env.trees.get? name = some tree → Way.Suits rule tree.exits)
    {name : String} {tree : Tree} (htree : env.trees.get? name = some tree) (data : Value)
    (room : Option Nat) : executeTo rule env tree data room = env.execute tree data room := by
  rcases hend : (env.runTree maxCallDepth tree data).run (Sink.ofRoom room) with ⟨_ | u, w⟩
  · simp only [executeTo, execute, runTreeTo_eq h maxCallDepth htree, hend]
  · simp only [executeTo, execute, runTreeTo_eq h maxCallDepth htree, hend]

end Environment

end SafeQuery
