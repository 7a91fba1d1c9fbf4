import SafeQuery.Decimal.Reading
import SafeQuery.Text.Hex
import SafeQuery.Token.Fault
import SafeQuery.Tree.Printer

/-!
# Reading pipelines

The tokens of an action are read as a pipeline. A pipeline begins with the variables that it
declares, if any, and has commands between bars; a command is a row of operands; a field directly
behind an operand belongs to it. Every reader hands on the variables in scope and the tokens that
are left, and knows that these have become fewer.
-/

namespace SafeQuery

/-- What a pipeline is read with. -/
structure PipelineContext where
  /-- The line of an offset. -/
  lineOf : Nat → Nat
  /-- The name can be called. -/
  isFunction : String → Bool
  /-- The offset of the action, for what lies behind its last token. -/
  action : Nat

namespace PipelineContext

def positionOf (c : PipelineContext) (offset : Nat) : Position := ⟨offset, c.lineOf offset⟩

def nextOffset (c : PipelineContext) : List Token → Nat
  | []     => c.action
  | t :: _ => t.offset

end PipelineContext

/-- A part that has been read, the variables in scope behind it with the innermost first, and the
tokens that are left, of which there are fewer than `n`. -/
structure Reading (n : Nat) (α : Type) where
  value : α
  scope : List String
  rest : List Token
  fewer : rest.length < n

/-! ### Numerals -/

/-- The number that is written in base sixteen behind a sign, if its absolute value is that of a whole
number of sixty-four bits that is not negative. -/
def readHexadecimal? (negative : Bool) (digits : List Char) : Option Int64 :=
  let n := digits.foldl (fun n c => n * 16 + (Text.hexValue? c).getD 0) 0
  if (n : Int) ≤ Int64.maxValue.toInt then
    some (Int64.ofInt (if negative then -(n : Int) else n))
  else none

/-- The number that is written in base ten, if it is a whole number of sixty-four bits. -/
def readInteger? (cs : List Char) : Option Int64 :=
  let (negative, ds) := Decimal.splitSign cs
  let n := if negative then -(Decimal.value ds : Int) else Decimal.value ds
  if ds.isEmpty || !ds.all Decimal.isDigit then none
  else if Int64.minValue.toInt ≤ n ∧ n ≤ Int64.maxValue.toInt then some (Int64.ofInt n)
  else none

/-- The values of a numeral: in base sixteen both or none; with a point or an exponent no whole
number; otherwise a whole number where it is not too large. -/
def Number.ofText (pos : Position) (text : String) : Number :=
  let cs := text.toList
  let (negative, digits) := Decimal.splitSign cs
  match digits with
  | '0' :: 'x' :: hex | '0' :: 'X' :: hex =>
    let n := readHexadecimal? negative hex
    ⟨pos, text, n, n.map (·.toFloat)⟩
  | _ =>
    if cs.any fun c => c = '.' || c = 'e' || c = 'E' then ⟨pos, text, none, Decimal.readFloat? cs⟩
    else ⟨pos, text, readInteger? cs, Decimal.readFloat? cs⟩

/-! ### Declarations -/

/-- The variables that a pipeline gives its value to, and the tokens behind them. -/
structure Declarations where
  assigns : Bool
  declared : List Variable
  rest : List Token

/-- Read what stands before the commands of a pipeline. Two variables are for ranges only. -/
def readDeclarations (c : PipelineContext) (clause : Clause) (ts : List Token) :
    Except SyntaxFault Declarations :=
  let two := match clause with
    | .branch .range => true
    | _              => false
  match ts with
  | ⟨.var x [], at₁, _⟩ :: ⟨.declare, _, _⟩ :: rest =>
    .ok ⟨false, [⟨c.positionOf at₁, x, []⟩], rest⟩
  | ⟨.var x [], at₁, _⟩ :: ⟨.assign, _, _⟩ :: rest =>
    .ok ⟨true, [⟨c.positionOf at₁, x, []⟩], rest⟩
  | ⟨.var x [], at₁, _⟩ :: ⟨.comma, _, _⟩ :: more =>
    if two then
      match more with
      | ⟨.var y [], at₂, _⟩ :: ⟨.declare, _, _⟩ :: rest =>
        .ok ⟨false, [⟨c.positionOf at₁, x, []⟩, ⟨c.positionOf at₂, y, []⟩], rest⟩
      | ⟨.var y [], at₂, _⟩ :: ⟨.assign, _, _⟩ :: rest =>
        .ok ⟨true, [⟨c.positionOf at₁, x, []⟩, ⟨c.positionOf at₂, y, []⟩], rest⟩
      | ⟨.var _ [], at₂, _⟩ :: ⟨.comma, _, _⟩ :: _ => .error ⟨at₂, .tooManyDeclarations clause⟩
      | ⟨.var _ [], at₂, _⟩ :: _                  => .error ⟨at₂, .missingDeclare clause⟩
      | _                                         => .error ⟨at₁, .missingDeclare clause⟩
    else .error ⟨at₁, .tooManyDeclarations clause⟩
  | _ => .ok ⟨false, [], ts⟩

theorem readDeclarations_length {c : PipelineContext} {clause : Clause} {ts : List Token}
    {d : Declarations} (h : readDeclarations c clause ts = .ok d) : d.rest.length ≤ ts.length := by
  unfold readDeclarations at h
  simp only at h
  repeat' split at h
  all_goals first | contradiction | (cases h; simp only [List.length_cons]; omega)

/-- The variable is in scope. -/
def checkVariable (scope : List String) (offset : Nat) (name : String) : Except SyntaxFault Unit :=
  if scope.contains name then .ok () else .error ⟨offset, .undefinedVariable name⟩

/-- The scope behind the declarations of a pipeline: what is declared comes into scope, and what is
assigned has to be there. -/
def declare (d : Declarations) (scope : List String) : Except SyntaxFault (List String) :=
  if d.assigns then do
    d.declared.forM fun v => checkVariable scope v.pos.offset v.name
    return scope
  else return (d.declared.map (·.name)).reverse ++ scope

/-! ### Commands -/

/-- The tokens begin behind the end of a command. -/
def endsCommand : List Token → Bool
  | []                          => true
  | ⟨.bar, _, _⟩ :: _           => true
  | ⟨.rightParen, _, _⟩ :: _    => true
  | _                           => false

/-- The tokens begin behind the end of a pipeline. -/
def endsPipeline : List Token → Bool
  | []                       => true
  | ⟨.rightParen, _, _⟩ :: _ => true
  | _                        => false

/-- The operand is a constant or the data, to which no value can be handed. -/
def Operand.isConstant : Operand → Bool
  | .bool _ _ | .dot _ | .nil _ | .number _ | .string _ _ _ => true
  | _                                                     => false

/-- The first of the commands that cannot take the value of the one before, with its number, where
the commands are counted from `stage`. -/
def firstConstant? (stage : Nat) : List Command → Option (Nat × Position)
  | []      => none
  | c :: cs =>
    if c.operands.head?.any Operand.isConstant then some (stage, c.pos)
    else firstConstant? (stage + 1) cs

/-- Fields directly behind an operand belong to it if it is a call or stands in parentheses. -/
def Operand.withFields (pos : Position) (o : Operand) (offset : Nat) (names : List String) :
    Except SyntaxFault Operand :=
  match o with
  | .identifier _ _ | .pipeline _ | .chain _ _ _ => .ok (.chain pos o names)
  | o                                            => .error ⟨offset, .fieldAfter o.print⟩

/-- Read the fields directly behind an operand. -/
def readFields {n : Nat} (pos : Position) (r : Reading n Operand) :
    Except SyntaxFault (Reading n Operand) :=
  match h : r.rest with
  | ⟨.field names, offset, false⟩ :: rest => do
    let o ← r.value.withFields pos offset names
    return ⟨o, r.scope, rest, by have := r.fewer; simp only [h, List.length_cons] at this; omega⟩
  | _ => .ok r

/-- The operand of a token that makes one alone. -/
def Operand.ofToken (c : PipelineContext) (scope : List String) (t : Token) :
    Except SyntaxFault Operand :=
  let pos := c.positionOf t.offset
  match t.kind with
  | .identifier name =>
    if c.isFunction name then .ok (.identifier pos name)
    else .error ⟨t.offset, .undefinedFunction name⟩
  | .dot                => .ok (.dot pos)
  | .nil                => .ok (.nil pos)
  | .bool b             => .ok (.bool pos b)
  | .number text        =>
    let n := Number.ofText pos text
    if n.int.isNone && n.float.isNone then .error ⟨t.offset, .illegalNumber text⟩
    else .ok (.number n)
  | .string quoted text => .ok (.string pos quoted text)
  | .field names        => .ok (.field pos names)
  | .var name fields    => do
    checkVariable scope t.offset name
    return .var ⟨pos, name, fields⟩
  | kind                => .error ⟨t.offset, .unexpectedToken kind .operand⟩

mutual

/-- Read an operand, the first of whose tokens is given, and the fields directly behind it. -/
def readOperand (c : PipelineContext) (scope : List String) (t : Token) (ts : List Token) :
    Except SyntaxFault (Reading (ts.length + 1) Operand) := do
  if t.kind = .leftParen then
    let p ← readPipeline c .parentheses scope ts
    match h : p.rest with
    | ⟨.rightParen, _, _⟩ :: rest =>
      readFields (c.positionOf t.offset)
        ⟨.pipeline p.value, p.scope, rest, by
          have := p.fewer; simp only [h, List.length_cons] at this; omega⟩
    | _ => throw ⟨t.offset, .unclosedParen⟩
  else
    let o ← Operand.ofToken c scope t
    readFields (c.positionOf t.offset) ⟨o, scope, ts, by omega⟩
termination_by 4 * ts.length + 3

def readOperands (c : PipelineContext) (scope : List String) :
    (ts : List Token) → Except SyntaxFault (Reading (ts.length + 1) (List Operand))
  | []      => .ok ⟨[], scope, [], by simp⟩
  | t :: ts =>
    if endsCommand (t :: ts) then .ok ⟨[], scope, t :: ts, by simp⟩
    else do
      let o ← readOperand c scope t ts
      let os ← readOperands c o.scope o.rest
      return ⟨o.value :: os.value, os.scope, os.rest, by
        have := o.fewer; have := os.fewer; simp only [List.length_cons]; omega⟩
termination_by ts => 4 * ts.length
decreasing_by
  · simp only [List.length_cons]
    omega
  · have := o.fewer
    simp only [List.length_cons]
    omega

def readCommands (c : PipelineContext) (scope : List String) (ts : List Token) :
    Except SyntaxFault (Reading (ts.length + 1) (List Command)) := do
  let os ← readOperands c scope ts
  if os.value.isEmpty then throw ⟨c.nextOffset ts, .emptyCommand⟩
  else
    let command : Command := ⟨c.positionOf (c.nextOffset ts), os.value⟩
    match h : os.rest with
    | ⟨.bar, bar, _⟩ :: rest =>
      if endsPipeline rest then throw ⟨bar, .missingCommand⟩
      else
        let cs ← readCommands c os.scope rest
        return ⟨command :: cs.value, cs.scope, cs.rest, by
          have := os.fewer; have := cs.fewer
          simp only [h, List.length_cons] at *; omega⟩
    | rest => return ⟨[command], os.scope, rest, by have := os.fewer; simpa only [h] using this⟩
termination_by 4 * ts.length + 1
decreasing_by
  · omega
  · have := os.fewer
    simp only [h, List.length_cons] at this
    omega

/-- Read a pipeline, up to a closing parenthesis or the end of the action. -/
def readPipeline (c : PipelineContext) (clause : Clause) (scope : List String) (ts : List Token) :
    Except SyntaxFault (Reading (ts.length + 1) Pipeline) := do
  match h : readDeclarations c clause ts with
  | .error fault => throw fault
  | .ok d        =>
    let scope ← declare d scope
    if endsPipeline d.rest then throw ⟨c.nextOffset ts, .missingValue clause⟩
    else
      let cs ← readCommands c scope d.rest
      match firstConstant? 2 cs.value.tail with
      | some (stage, pos) => throw ⟨pos.offset, .notExecutable stage⟩
      | none              =>
        let pos := c.positionOf (c.nextOffset ts)
        return ⟨⟨pos, d.assigns, d.declared, cs.value⟩, cs.scope, cs.rest, by
          have := readDeclarations_length h; have := cs.fewer; omega⟩
termination_by 4 * ts.length + 2
decreasing_by
  have := readDeclarations_length h
  omega

end

/-- Read tokens that are a pipeline as a whole, and the scope behind it. -/
def PipelineOf.ofTokens (c : PipelineContext) (clause : Clause) (scope : List String)
    (ts : List Token) : Except SyntaxFault (Pipeline × List String) := do
  let p ← readPipeline c clause scope ts
  match p.rest with
  | []     => return (p.value, p.scope)
  | t :: _ => throw ⟨t.offset, .unexpectedToken t.kind clause⟩

end SafeQuery
