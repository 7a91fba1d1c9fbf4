import SafeQuery.Dict
import SafeQuery.Source
import SafeQuery.Tree.Pipeline

/-!
# Nested clauses

The statements of a source nest: definitions, blocks and branches are opened, branches turn to their
else part, and all of them are closed. `Nesting` is the state between two items of a source: the
statements of the main template so far, the open clauses with the innermost first, the variables in
scope, and the trees that have been defined.
-/

namespace SafeQuery

/-! ### Open clauses -/

/-- A branch whose else part is the next branch; both end where the last one of the row ends. -/
structure Link where
  kind : Control
  pos : Position
  pipe : Pipeline
  body : Block

/-- What has been opened. -/
inductive Opening where
  | define (name : String)
  /-- A definition that is called at its own place. -/
  | block (name : String) (argument : Pipeline)
  /-- The body of a branch, and the branches whose else part it is, the nearest first. -/
  | body (kind : Control) (pipe : Pipeline) (before : List Link)
  /-- The else part of a branch. -/
  | otherwise (kind : Control) (pipe : Pipeline) (body : Block) (before : List Link)

/-- A clause that has been opened and not closed. -/
structure OpenClause where
  opening : Opening
  pos : Position
  /-- Where the sequence of statements begins that is being read. -/
  start : Position
  /-- The statements of this sequence, the last first. -/
  nodes : List Node
  /-- The variables in scope behind the clause. -/
  outer : List String

namespace OpenClause

/-- The sequence of statements that has been read. -/
def block (c : OpenClause) : Block := ⟨c.start, c.nodes.reverse⟩

/-- A definition or a block just opened. -/
def isolated (opening : Opening) (pos : Position) (outer : List String) : OpenClause :=
  ⟨opening, pos, pos, [], outer⟩

end OpenClause

/-- A row of branches, from its last branch on. -/
def chain (last : Node) (before : List Link) : Node :=
  before.foldl (fun node l => .branch l.kind l.pos l.pipe l.body (some ⟨node.pos, [node]⟩)) last

/-- A loop can be left or continued here: the body of a loop is open, within the innermost
definition. -/
def inLoop : List OpenClause → Bool
  | []      => false
  | c :: cs =>
    match c.opening with
    | .body .range _ _            => true
    | .define _ | .block _ _      => false
    | .body _ _ _ | .otherwise .. => inLoop cs

/-! ### Definitions -/

/-- Add a definition. One without content does not take the place of another; two with content
cannot have the same name. -/
def addTree (trees : Dict Tree) (t : Tree) : Except SyntaxFault (Dict Tree) :=
  match trees.get? t.name with
  | none     => .ok (trees.insert t.name t)
  | some old =>
    if t.isEmpty then .ok trees
    else if old.isEmpty then .ok (trees.insert t.name t)
    else .error ⟨t.root.pos.offset, .redefined t.name⟩

/-! ### The state between two items -/

/-- What has been read of a source. -/
structure Nesting where
  /-- The statements of the main template, the last first. -/
  main : List Node
  /-- The innermost open clause is the first. -/
  clauses : List OpenClause
  scope : List String
  trees : Dict Tree

namespace Nesting

def start : Nesting := ⟨[], [], ["$"], .empty⟩

/-- Add a statement to the sequence that is being read. -/
def add (n : Nesting) (node : Node) : Nesting :=
  match n.clauses with
  | []      => { n with main := node :: n.main }
  | c :: cs => { n with clauses := { c with nodes := node :: c.nodes } :: cs }

/-- Open a clause in whose body other variables are in scope. -/
def enter (n : Nesting) (c : OpenClause) (scope : List String) : Nesting :=
  { n with clauses := c :: n.clauses, scope }

def close (n : Nesting) (pos : Position) : Except SyntaxFault Nesting :=
  match n.clauses with
  | []      => .error ⟨pos.offset, .strayEnd⟩
  | c :: cs =>
    let n := { n with clauses := cs, scope := c.outer }
    match c.opening with
    | .define name                => do
      return { n with trees := ← addTree n.trees ⟨name, c.block⟩ }
    | .block name argument        => do
      let trees ← addTree n.trees ⟨name, c.block⟩
      return { n with trees }.add (.call c.pos name (some argument))
    | .body kind pipe before      =>
      .ok (n.add (chain (.branch kind c.pos pipe c.block none) before))
    | .otherwise kind pipe body before =>
      .ok (n.add (chain (.branch kind c.pos pipe body (some c.block)) before))

/-- Turn to the else part of the innermost clause. The tokens behind the keyword begin another
branch of the same kind, if there are any. -/
def turn (ctx : PipelineContext) (n : Nesting) (pos : Position) (ts : List Token) :
    Except SyntaxFault Nesting :=
  match n.clauses with
  | []      => .error ⟨pos.offset, .strayElse⟩
  | c :: cs =>
    match c.opening with
    | .define _    => .error ⟨pos.offset, .elseIn .define⟩
    | .block _ _   => .error ⟨pos.offset, .elseIn .block⟩
    | .otherwise .. => .error ⟨pos.offset, .elseAfterElse⟩
    | .body kind pipe before =>
      let next (ts : List Token) := do
        let (pipe', scope) ← PipelineOf.ofTokens ctx (.branch kind) n.scope ts
        let c' := { c with
          opening := .body kind pipe' (⟨kind, c.pos, pipe, c.block⟩ :: before)
          pos, start := pos, nodes := [] }
        return { n with clauses := c' :: cs, scope }
      match ts, kind with
      | [], _ =>
        let c' := { c with
          opening := .otherwise kind pipe c.block before, start := pos, nodes := [] }
        .ok { n with clauses := c' :: cs }
      | ⟨.keyword .cond, _, _⟩ :: ts,      .cond      => next ts
      | ⟨.keyword .withValue, _, _⟩ :: ts, .withValue => next ts
      | t :: _, _ => .error ⟨t.offset, .unexpectedToken t.kind .otherwise⟩

def enterBranch (ctx : PipelineContext) (n : Nesting) (kind : Control) (pos : Position)
    (ts : List Token) : Except SyntaxFault Nesting := do
  let (pipe, scope) ← PipelineOf.ofTokens ctx (.branch kind) n.scope ts
  return n.enter ⟨.body kind pipe [], pos, pos, [], n.scope⟩ scope

/-- The name that begins a clause, and the tokens behind it. -/
def clauseName (clause : Clause) (offset : Nat) :
    List Token → Except SyntaxFault (String × List Token)
  | ⟨.string _ name, _, _⟩ :: ts => .ok (name, ts)
  | t :: _                       => .error ⟨t.offset, .unexpectedToken t.kind clause⟩
  | []                           => .error ⟨offset, .missingName clause⟩

/-- Open a definition, which stands in no other clause. -/
def enterDefinition (n : Nesting) (pos : Position) : List Token → Except SyntaxFault Nesting
  | [⟨.string _ name, _, _⟩]       => .ok (n.enter (.isolated (.define name) pos n.scope) ["$"])
  | ⟨.string _ _, _, _⟩ :: t :: _ => .error ⟨t.offset, .unexpectedToken t.kind .define⟩
  | _                            => .error ⟨pos.offset, .missingDefinitionName⟩

/-- Open a block. The variables that its argument declares are in scope behind it. -/
def enterBlock (ctx : PipelineContext) (n : Nesting) (pos : Position) (ts : List Token) :
    Except SyntaxFault Nesting := do
  let (name, ts) ← clauseName .block pos.offset ts
  let (argument, scope) ← PipelineOf.ofTokens ctx .block n.scope ts
  return n.enter (.isolated (.block name argument) pos scope) ["$"]

/-- Add a call. The variables that its argument declares are in scope behind it. -/
def addCall (ctx : PipelineContext) (n : Nesting) (pos : Position) (ts : List Token) :
    Except SyntaxFault Nesting := do
  let (name, ts) ← clauseName .templateCall pos.offset ts
  if ts.isEmpty then return n.add (.call pos name none)
  else
    let (argument, scope) ← PipelineOf.ofTokens ctx .templateCall n.scope ts
    return { n with scope }.add (.call pos name (some argument))

def checkEnd (clause : Clause) : List Token → Except SyntaxFault Unit
  | []     => .ok ()
  | t :: _ => .error ⟨t.offset, .unexpectedToken t.kind clause⟩

def addLoopExit (n : Nesting) (k : Keyword) (node : Node) (ts : List Token) :
    Except SyntaxFault Nesting := do
  checkEnd (.loopExit k) ts
  if inLoop n.clauses then return n.add node
  else throw ⟨node.pos.offset, .outsideRange k⟩

/-- Add an action that begins with a keyword. -/
def addKeyword (ctx : PipelineContext) (n : Nesting) (pos : Position) (k : Keyword)
    (ts : List Token) : Except SyntaxFault Nesting :=
  match k with
  | .finish       => do checkEnd .finish ts; n.close pos
  | .otherwise    => n.turn ctx pos ts
  | .cond         => n.enterBranch ctx .cond pos ts
  | .range        => n.enterBranch ctx .range pos ts
  | .withValue    => n.enterBranch ctx .withValue pos ts
  | .template     => n.addCall ctx pos ts
  | .block        => n.enterBlock ctx pos ts
  | .breakLoop    => n.addLoopExit k (.breakLoop pos) ts
  | .continueLoop => n.addLoopExit k (.continueLoop pos) ts
  | .define       =>
    if n.clauses.isEmpty then n.enterDefinition pos ts
    else .error ⟨pos.offset, .unexpectedToken (.keyword .define) .command⟩

/-- Add an item of the source. -/
def addItem (ctx : PipelineContext) (n : Nesting) : Item → Except SyntaxFault Nesting
  | .text offset text    => .ok (n.add (.text (ctx.positionOf offset) text))
  | .comment offset text => .ok (n.add (.comment (ctx.positionOf offset) text))
  | .action offset ts    =>
    let ctx := { ctx with action := offset }
    let pos := ctx.positionOf offset
    match ts with
    | ⟨.keyword k, _, _⟩ :: ts => n.addKeyword ctx pos k ts
    | ts                       => do
      let (pipe, scope) ← PipelineOf.ofTokens ctx .command n.scope ts
      return { n with scope }.add (.action pos pipe)

/-- At the end of a source every clause is closed, and the main template is defined. -/
def finish (ctx : PipelineContext) (n : Nesting) (name : String) :
    Except SyntaxFault (Dict Tree) :=
  match n.clauses with
  | []     => addTree n.trees ⟨name, ⟨ctx.positionOf 0, n.main.reverse⟩⟩
  | c :: _ => .error ⟨c.start.offset, .unexpectedEnd⟩

end Nesting

/-! ### The trees of a source -/

/-- The offsets of the line breaks of a text. -/
def lineBreaks (offset : Nat) : List Char → List Nat
  | []      => []
  | c :: cs =>
    let bs := lineBreaks (offset + c.utf8Size) cs
    if c = '\n' then offset :: bs else bs

/-- The line of an offset, given the offsets of the line breaks. -/
def lineAt (breaks : List Nat) (offset : Nat) : Nat := breaks.countP (· < offset) + 1

def lineIn (source : String) (offset : Nat) : Nat := lineAt (lineBreaks 0 source.toList) offset

/-- The trees of a source: what it defines, and its own statements under the given name. -/
def Tree.ofSource (d : Delimiters) (isFunction : String → Bool) (name source : String) :
    Except SyntaxFault (Dict Tree) := do
  let breaks := lineBreaks 0 source.toList
  let ctx : PipelineContext := ⟨lineAt breaks, isFunction, 0⟩
  let items ← Item.ofSource d source
  let n ← items.foldlM (fun n item => n.addItem ctx item) Nesting.start
  n.finish ctx name

end SafeQuery
