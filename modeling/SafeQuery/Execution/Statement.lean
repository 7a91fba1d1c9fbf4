import SafeQuery.Execution.Evaluation
import SafeQuery.Execution.Sink

/-!
# Execution of templates

The statements of a template are run one after the other: text is written, the values of actions are
written, branches choose, and calls run other templates with variables of their own. Every
execution ends, because calls are nested to a limited depth.
-/

namespace SafeQuery

/-- A computation that writes and can fail; what has been written stays. -/
abbrev Output := ExceptT ExecutionError (StateM Sink)

/-- A computation with variables that writes and can fail. -/
abbrev Run := StateT Scope Output

/-- How the statements of a sequence are left. -/
inductive Flow where
  | normal
  | breakLoop
  | continueLoop
deriving DecidableEq, Repr

namespace Run

def emit (p : Piece) : Run Unit := do
  let fits ← modifyGetThe Sink fun s => s.put p
  unless fits do throw .outputFull

/-- An evaluation writes nothing. -/
def ofEval {α : Type} (e : Eval α) : Run α := do
  match e.run (← get) with
  | .ok (value, scope) => do
    set scope
    return value
  | .error cause       => throw cause

/-- The variables that a computation adds are gone behind it. -/
def locally {α : Type} (act : Run α) : Run α := do
  let mark := (← get).length
  let value ← act
  modify (·.outermost mark)
  return value

end Run

/-- What a loop goes through: pairs of an index and a value, or the numbers below a limit. -/
inductive Items where
  | pairs (ps : List (Value × Value))
  | count (n : Nat)

namespace Items

/-- The items of a value, if there is a way to go through it. -/
def ofValue? : Value → Option Items
  | .list vs => some (.pairs (vs.zipIdx.map fun (v, i) => (.ofNat i, v)))
  | .map d   => some (.pairs (d.entries.map fun (k, v) => (.string k, v)))
  | .int n   => some (.count n.toInt.toNat)
  | .null    => some (.pairs [])
  | _        => none

def isEmpty : Items → Bool
  | pairs ps => ps.isEmpty
  | count n  => n = 0

/-- Run a body for pairs, up to the first one that leaves the loop. -/
def forPairs (body : Value → Value → Run Flow) : List (Value × Value) → Run Unit
  | []           => return
  | (i, v) :: ps => do
    match ← body i v with
    | .breakLoop => return
    | _          => forPairs body ps

/-- Run a body for as many numbers as given, beginning with `i`, up to the first one that leaves the
loop. -/
def forNumbers (body : Value → Value → Run Flow) (i : Nat) : Nat → Run Unit
  | 0     => return
  | n + 1 => do
    match ← body (.ofNat i) (.ofNat i) with
    | .breakLoop => return
    | _          => forNumbers body (i + 1) n

/-- Run a body for every item, up to the first one that leaves the loop. -/
def forEach (items : Items) (body : Value → Value → Run Flow) : Run Unit :=
  match items with
  | pairs ps => forPairs body ps
  | count n  => forNumbers body 0 n

end Items

/-- Where statements are run, and how a template is called there, as long as calls are not nested
too deep. -/
structure Stage extends Frame where
  enter : Option (Tree → Value → Output Unit)

namespace Stage

def withDot (s : Stage) (dot : Value) : Stage := { s with dot }

/-- Give index and value of an item to the variables of a loop: the value to the only one, or the
index to the first and the value to the second. -/
def bindItem (s : Stage) (pos : Position) (index value : Value) : List Variable → Eval Unit
  | []          => return
  | [v]         => s.assign pos v value
  | v :: w :: _ => do
    s.assign pos v index
    s.assign pos w value

def callTemplate (s : Stage) (pos : Position) (name : String) (argument : Option Pipeline) :
    Run Unit := do
  let place := s.placeAt pos (callText name argument)
  match s.env.trees.get? name with
  | none      => throw (.fault place (.noTemplate name))
  | some tree =>
    match s.enter with
    | none       => throw (.fault place .tooDeep)
    | some enter => do
      let dot ← match argument with
        | some p => Run.locally (Run.ofEval (s.evalPipeline p))
        | none   => pure .null
      enter tree dot

mutual

def runNode (s : Stage) : Node → Run Flow
  | .text _ t                => do
    Run.emit (.text t)
    return .normal
  | .comment _ _             => return .normal
  | .action _ pipe           => do
    let value ← Run.ofEval (s.evalPipeline pipe)
    if pipe.declared.isEmpty then Run.emit (.value value)
    return .normal
  | .branch .cond _ pipe ⟨_, body⟩ otherwise => Run.locally do
    let value ← Run.ofEval (s.evalPipeline pipe)
    if value.isTrue then s.runNodes body else s.runElse otherwise
  | .branch .withValue _ pipe ⟨_, body⟩ otherwise => Run.locally do
    let value ← Run.ofEval (s.evalPipeline pipe)
    if value.isTrue then (s.withDot value).runNodes body else s.runElse otherwise
  | .branch .range pos pipe ⟨_, body⟩ otherwise => Run.locally do
    let value ← Run.ofEval (s.evalCommands none pipe.commands)
    match Items.ofValue? value with
    | none       => throw (.fault (s.placeAt pos pipe.print) (.notIterable value.display))
    | some items =>
      if items.isEmpty then
        let _ ← s.runElse otherwise
      else
        unless pipe.assigns do
          Run.ofEval (pipe.declared.forM fun v => Frame.declare v .null)
        items.forEach fun index value => do
          Run.ofEval (s.bindItem pos index value pipe.declared)
          Run.locally ((s.withDot value).runNodes body)
      return .normal
  | .call pos name argument  => do
    s.callTemplate pos name argument
    return .normal
  | .breakLoop _             => return .breakLoop
  | .continueLoop _          => return .continueLoop

/-- Run statements one after the other, up to the first one that leaves the sequence. -/
def runNodes (s : Stage) : List Node → Run Flow
  | []      => return .normal
  | n :: ns => do
    match ← s.runNode n with
    | .normal => s.runNodes ns
    | flow    => return flow

def runElse (s : Stage) : Option (BlockOf Node) → Run Flow
  | none         => return .normal
  | some ⟨_, ns⟩ => s.runNodes ns

end

end Stage

namespace Environment

/-- Run a template with its data, which has a variable of its own. Calls can be nested as deep as
given. -/
def runTree (env : Environment) : Nat → Tree → Value → Output Unit
  | 0,     tree, dot => enterWith none tree dot
  | d + 1, tree, dot => enterWith (some (env.runTree d)) tree dot
where
  /-- Run the statements of a template. -/
  enterWith (enter : Option (Tree → Value → Output Unit)) (tree : Tree) (dot : Value) :
      Output Unit := do
    let _ ← (Stage.runNodes ⟨⟨env, tree.name, dot⟩, enter⟩ tree.root.nodes).run [("$", dot)]

/-- What an execution has written, and why it has failed if it has. -/
structure Outcome where
  failure : Option ExecutionError
  sink : Sink

/-- Execute a template with its data, with the given room for its output. -/
def execute (env : Environment) (tree : Tree) (data : Value) (room : Option Nat) : Outcome :=
  match (env.runTree maxCallDepth tree data).run (Sink.ofRoom room) with
  | (.ok _, sink)        => ⟨none, sink⟩
  | (.error cause, sink) => ⟨some cause, sink⟩

end Environment

end SafeQuery
