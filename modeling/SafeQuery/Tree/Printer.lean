import SafeQuery.Text.Quoted
import SafeQuery.Tree.Basic

/-!
# Trees as source

Every part of a tree is written back as template source with the delimiters of two braces. Blank
space is written in one way only, and clauses that stand for several nodes are written out.
-/

namespace SafeQuery

/-- Field names, each after a point. -/
def fieldsText (names : List String) : String := String.join (names.map ("." ++ ·))

def Variable.print (v : Variable) : String := v.name ++ fieldsText v.fields

/-- The source of the variables that a pipeline gives its value to. -/
def declarationText (assigns : Bool) : List Variable → String
  | [] => ""
  | vs => ", ".intercalate (vs.map Variable.print) ++ (if assigns then " = " else " := ")

mutual

def Operand.print : Operand → String
  | .identifier _ name   => name
  | .dot _               => "."
  | .nil _               => "nil"
  | .bool _ b            => if b then "true" else "false"
  | .number n            => n.text
  | .string _ quoted _   => quoted
  | .field _ names       => fieldsText names
  | .var v               => v.print
  | .chain _ base names  => base.print ++ fieldsText names
  | .pipeline ⟨_, assigns, declared, commands⟩ =>
    "(" ++ declarationText assigns declared ++ printCommands commands ++ ")"

def printOperands : List Operand → String
  | []      => ""
  | [o]     => o.print
  | o :: os => o.print ++ " " ++ printOperands os

def printCommands : List (CommandOf Operand) → String
  | []                 => ""
  | [⟨_, os⟩]          => printOperands os
  | ⟨_, os⟩ :: cs      => printOperands os ++ " | " ++ printCommands cs

end

def CommandOf.print (c : Command) : String := printOperands c.operands

def PipelineOf.print (p : Pipeline) : String :=
  declarationText p.assigns p.declared ++ printCommands p.commands

/-- Text between the delimiters. -/
def inBraces (s : String) : String := "\x7b\x7b" ++ s ++ "\x7d\x7d"

def callText (name : String) : Option Pipeline → String
  | some p => inBraces ("template " ++ Text.quoteText name ++ " " ++ p.print)
  | none   => inBraces ("template " ++ Text.quoteText name)

mutual

def Node.print : Node → String
  | .text _ t                    => t
  | .comment _ t                 => inBraces ("/*" ++ t ++ "*/")
  | .action _ p                  => inBraces p.print
  | .branch kind _ p body none =>
    inBraces (kind.word ++ " " ++ p.print) ++ printNodes body.nodes ++ inBraces "end"
  | .branch kind _ p body (some otherwise) =>
    inBraces (kind.word ++ " " ++ p.print) ++ printNodes body.nodes ++ inBraces "else"
      ++ printNodes otherwise.nodes ++ inBraces "end"
  | .call _ name argument        => callText name argument
  | .breakLoop _                 => inBraces "break"
  | .continueLoop _              => inBraces "continue"

def printNodes : List Node → String
  | []      => ""
  | n :: ns => n.print ++ printNodes ns

end

def Tree.print (t : Tree) : String := printNodes t.root.nodes

end SafeQuery
