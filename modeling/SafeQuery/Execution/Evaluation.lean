import SafeQuery.Execution.Fault
import SafeQuery.Execution.Scope
import SafeQuery.Function.Builtin
import SafeQuery.MissingKey
import SafeQuery.Tree.Printer

/-!
# Evaluation of pipelines

The value of a pipeline for the data of the dot and the variables in scope. Evaluation can declare
variables and give them other values, and it can fail; it writes nothing.
-/

namespace SafeQuery

/-- What an execution depends on besides its data. -/
structure Environment where
  trees : Dict Tree
  functions : FunctionTable
  encoder : Encoder
  missingKey : MissingKey

/-- A computation with variables that can fail. -/
abbrev Eval := StateT Scope (Except ExecutionError)

/-- Where an evaluation takes place: in the template of a name, with the data of the dot. -/
structure Frame where
  env : Environment
  template : String
  dot : Value

namespace Frame

/-- The place of a part of the template. -/
def placeAt (f : Frame) (pos : Position) (source : String) : Place :=
  ⟨f.template, pos.line, shortened source⟩

def operandFault (f : Frame) (o : Operand) (cause : ExecutionCause) : ExecutionError :=
  .fault (f.placeAt o.pos o.print) cause

def commandFault (f : Frame) (c : Command) (cause : ExecutionCause) : ExecutionError :=
  .fault (f.placeAt c.pos c.print) cause

def variableValue (f : Frame) (v : Variable) : Eval Value := do
  match (← get).get? v.name with
  | some value => return value
  | none       => throw (.fault (f.placeAt v.pos v.print) (.undefinedVariable v.name))

/-- Give a variable another value; `pos` is where a failure is reported. -/
def assign (f : Frame) (pos : Position) (v : Variable) (value : Value) : Eval Unit := do
  match (← get).set? v.name value with
  | some scope => set scope
  | none       => throw (.fault (f.placeAt pos v.print) (.undefinedVariable v.name))

def declare (v : Variable) (value : Value) : Eval Unit := modify ((v.name, value) :: ·)

/-- Give the value of a pipeline to its variables. -/
def bind (f : Frame) (assigns : Bool) (declared : List Variable) (value : Value) : Eval Unit :=
  declared.forM fun v => if assigns then f.assign v.pos v value else declare v value

/-- The value of a field. Only a map has fields, and none of them takes arguments. -/
def fieldValue (f : Frame) (o : Operand) (hasArguments : Bool) (receiver : Value) (name : String) :
    Except ExecutionError Value :=
  match receiver with
  | .map d =>
    if hasArguments then throw (f.operandFault o (.notAMethod name))
    else match d.get? name, f.env.missingKey with
      | some v, _      => return v
      | none,   .error => throw (f.operandFault o (.missingKey name))
      | none,   _      => return .null
  | .null  => throw (f.operandFault o (.nilData name))
  | v      => throw (f.operandFault o (.noField name v.kind))

/-- The value of fields, one of the other. Arguments can be meant for the last one only. -/
def fieldsValue (f : Frame) (o : Operand) (hasArguments : Bool) (receiver : Value) :
    List String → Except ExecutionError Value
  | []            => throw (f.operandFault o .noFields)
  | [name]        => f.fieldValue o hasArguments receiver name
  | name :: names => do
    let v ← f.fieldValue o false receiver name
    f.fieldsValue o hasArguments v names

def encode (f : Frame) (source : Command) (value : Value) : Except ExecutionError Value :=
  match f.env.encoder value with
  | .ok sql      => .ok (.raw sql)
  | .error cause => .error (.encoding (f.placeAt source.pos source.print) cause)

/-- Evaluate operands up to the first one whose value holds, or does not hold, as `stop` says. If
there is none, the value that was handed over counts, or the value of the last operand. -/
def firstThat (stop : Bool) (last : Option Value) (value : Value) : List (Eval Value) → Eval Value
  | []      => return last.getD value
  | a :: as => do
    let v ← a
    if v.isTrue = stop then return v else firstThat stop last v as

/-- Call a function with operands and the value that is handed over by the command before. The
encoder goes before all functions, and the functions of the environment go before the builtin ones,
of which `and` and `or` evaluate no more operands than they need. -/
def call (f : Frame) (c : Command) (name : String) (operands : List (Eval Value))
    (last : Option Value) : Eval Value :=
  if name = hookName then do
    let args := (← operands.mapM id) ++ last.toList
    match args with
    | [v] => f.encode c v
    | vs  => throw (f.commandFault c (.encoderArguments vs.length))
  else if (name = "and" || name = "or") && !f.env.functions.contains name then
    if operands.isEmpty && last.isNone then throw (f.commandFault c (.noArgument name))
    else firstThat (name = "or") last .null operands
  else
    match (f.env.functions.get? name).or (builtins.get? name) with
    | none          => throw (f.commandFault c (.unknownFunction name))
    | some function => do
      let args := (← operands.mapM id) ++ last.toList
      match function args with
      | .ok v    => return v
      | .error e => throw (f.commandFault c (.callFailed name e))

/-- A command that is no call takes no operands and no value. -/
def checkAlone (f : Frame) (c : Command) (last : Option Value) : Except ExecutionError Unit :=
  match c.operands with
  | o :: os => if os.isEmpty && last.isNone then .ok ()
               else .error (f.commandFault c (.notAFunction o.print))
  | []      => .ok ()

def numberValue (f : Frame) (n : Number) : Except ExecutionError Value :=
  match n.int, n.float with
  | some i, _      => .ok (.int i)
  | none,   some x => .ok (.float x)
  | none,   none   => .error (f.operandFault (.number n) (.illegalNumber n.text))

mutual

def evalOperand (f : Frame) : Operand → Eval Value
  | .dot _             => return f.dot
  | .nil _             => return .null
  | .bool _ b          => return .bool b
  | .number n          => f.numberValue n
  | .string _ _ text   => return .string text
  | .field pos names   => f.fieldsValue (.field pos names) false f.dot names
  | .var v             => do
    let value ← f.variableValue v
    if v.fields.isEmpty then return value else f.fieldsValue (.var v) false value v.fields
  | .chain pos o names => do
    let value ← f.evalOperand o
    f.fieldsValue (.chain pos o names) false value names
  | .pipeline ⟨_, assigns, declared, commands⟩ => do
    let value ← f.evalCommands none commands
    f.bind assigns declared value
    return value
  | .identifier pos name => f.call ⟨pos, [.identifier pos name]⟩ name [] none

def evalOperands (f : Frame) : List Operand → List (Eval Value)
  | []      => []
  | o :: os => f.evalOperand o :: f.evalOperands os

/-- The value of a command, given its operands and the value of the command before. -/
def evalCommand (f : Frame) (c : Command) (last : Option Value) : List Operand → Eval Value
  | [] => throw (f.commandFault c .emptyCommand)
  | .field pos names :: os =>
    f.fieldsValue (.field pos names) (!os.isEmpty || last.isSome) f.dot names
  | .chain pos o names :: os => do
    if let .nil _ := o then
      throw (f.operandFault (.chain pos o names) (.explicitNil (Operand.chain pos o names).print))
    let value ← f.evalOperand o
    f.fieldsValue (.chain pos o names) (!os.isEmpty || last.isSome) value names
  | .identifier _ name :: os => f.call c name (f.evalOperands os) last
  | .var v :: os => do
    let value ← f.variableValue v
    if v.fields.isEmpty then
      f.checkAlone c last
      return value
    else f.fieldsValue (.var v) (!os.isEmpty || last.isSome) value v.fields
  | .nil pos :: _ => throw (f.operandFault (.nil pos) .nilCommand)
  | o :: _ => do
    f.checkAlone c last
    f.evalOperand o

/-- The value of the last of the commands, given the command before them and its value. A command
that only calls the encoder reports a failure at the command before. -/
def evalCommands (f : Frame) (before : Option (Command × Value)) :
    List (CommandOf Operand) → Eval Value
  | []             => return (before.map (·.2)).getD .null
  | ⟨pos, os⟩ :: cs => do
    let c : Command := ⟨pos, os⟩
    let value ←
      if c.isBare hookName then
        match before with
        | some (source, v) => (f.encode source v : Eval Value)
        | none             => throw (f.commandFault c (.encoderArguments 0))
      else f.evalCommand c (before.map (·.2)) os
    f.evalCommands (some (c, value)) cs

end

def evalPipeline (f : Frame) (p : Pipeline) : Eval Value := do
  let value ← f.evalCommands none p.commands
  f.bind p.assigns p.declared value
  return value

end Frame

end SafeQuery
