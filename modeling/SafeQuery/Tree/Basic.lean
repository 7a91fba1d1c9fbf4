import SafeQuery.Text.Blank

/-!
# Trees of templates

A template is a tree of nodes: text, comments, actions, branches and calls. What an action writes
and what a branch depends on is a pipeline of commands, and a command is made of operands. Every
part knows its position in the source.
-/

namespace SafeQuery

/-- A place in a source: an offset in bytes and a line, counted from one. -/
structure Position where
  offset : Nat
  line : Nat
deriving DecidableEq, Repr, Inhabited

/-- A variable, whose name begins with a dollar sign, and the fields taken from its value. -/
structure Variable where
  pos : Position
  name : String
  fields : List String
deriving DecidableEq, Repr

/-- A numeral, and the values that it has as a whole number and as a floating-point number. -/
structure Number where
  pos : Position
  text : String
  int : Option Int64
  float : Option Float
deriving BEq

/-- One stage of a pipeline. -/
structure CommandOf (α : Type) where
  pos : Position
  operands : List α
deriving BEq

/-- Commands of which each receives the value of the one before, and the variables that the last
value is given to, anew or where they exist already. -/
structure PipelineOf (α : Type) where
  pos : Position
  assigns : Bool
  declared : List Variable
  commands : List (CommandOf α)
deriving BEq

/-- What a command is made of. -/
inductive Operand where
  /-- The name of a function. -/
  | identifier (pos : Position) (name : String)
  | dot (pos : Position)
  | nil (pos : Position)
  | bool (pos : Position) (value : Bool)
  | number (n : Number)
  /-- A string as it is written, and the text that it stands for. -/
  | string (pos : Position) (quoted text : String)
  /-- Fields of the data. -/
  | field (pos : Position) (names : List String)
  | var (v : Variable)
  /-- Fields of the value of an operand. -/
  | chain (pos : Position) (base : Operand) (names : List String)
  /-- A pipeline in parentheses. -/
  | pipeline (p : PipelineOf Operand)
deriving BEq

/-- One stage of a pipeline. -/
abbrev Command := CommandOf Operand

/-- Commands of which each receives the value of the one before. -/
abbrev Pipeline := PipelineOf Operand

namespace Operand

def pos : Operand → Position
  | identifier pos _ => pos
  | dot pos          => pos
  | nil pos          => pos
  | bool pos _       => pos
  | number n         => n.pos
  | string pos _ _   => pos
  | field pos _      => pos
  | var v            => v.pos
  | chain pos _ _    => pos
  | pipeline p       => p.pos

end Operand

/-- The command is the name and nothing else. -/
def CommandOf.isBare (name : String) : Command → Bool
  | ⟨_, [.identifier _ n]⟩ => n = name
  | _                      => false

/-- The branches that a pipeline decides on. -/
inductive Control where
  | cond
  | range
  | withValue
deriving DecidableEq, Repr

def Control.word : Control → String
  | cond      => "if"
  | range     => "range"
  | withValue => "with"

/-- A sequence of nodes. -/
structure BlockOf (α : Type) where
  pos : Position
  nodes : List α
deriving BEq

/-- The statements of a template. -/
inductive Node where
  | text (pos : Position) (text : String)
  | comment (pos : Position) (text : String)
  /-- The value of the pipeline is written, unless it declares variables. -/
  | action (pos : Position) (pipe : Pipeline)
  | branch (kind : Control) (pos : Position) (pipe : Pipeline) (body : BlockOf Node)
      (otherwise : Option (BlockOf Node))
  /-- Another template takes this place. -/
  | call (pos : Position) (name : String) (argument : Option Pipeline)
  | breakLoop (pos : Position)
  | continueLoop (pos : Position)
deriving BEq

abbrev Block := BlockOf Node

def Node.pos : Node → Position
  | text pos _           => pos
  | comment pos _        => pos
  | action pos _         => pos
  | branch _ pos _ _ _   => pos
  | call pos _ _         => pos
  | breakLoop pos        => pos
  | continueLoop pos     => pos

/-- The node is blank text or a comment. -/
def Node.isBlank : Node → Bool
  | text _ t    => t.toList.all Text.isBlank
  | comment _ _ => true
  | _           => false

/-- A named body. -/
structure Tree where
  name : String
  root : Block
deriving BEq

/-- The body holds nothing but blank text and comments. -/
def Tree.isEmpty (t : Tree) : Bool := t.root.nodes.all Node.isBlank

end SafeQuery
