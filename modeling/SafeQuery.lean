import SafeQuery.Calendar
import SafeQuery.CommandLine.Arguments
import SafeQuery.CommandLine.Run
import SafeQuery.Decimal.Binary
import SafeQuery.Decimal.General
import SafeQuery.Decimal.Reading
import SafeQuery.Decimal.Shortest
import SafeQuery.Dict
import SafeQuery.Error
import SafeQuery.Execution.Evaluation
import SafeQuery.Execution.Fault
import SafeQuery.Execution.Scope
import SafeQuery.Execution.Sink
import SafeQuery.Execution.Statement
import SafeQuery.File.Disk
import SafeQuery.File.Path
import SafeQuery.File.Source
import SafeQuery.Format
import SafeQuery.Function.Basic
import SafeQuery.Function.Builtin
import SafeQuery.Function.Comparison
import SafeQuery.Glob.Pattern
import SafeQuery.Glob.Walk
import SafeQuery.Json
import SafeQuery.Literal
import SafeQuery.Main
import SafeQuery.MissingKey
import SafeQuery.Proofs.Calendar.Days
import SafeQuery.Proofs.Calendar.Stamp
import SafeQuery.Proofs.Decimal.Digits
import SafeQuery.Proofs.Decimal.Exact
import SafeQuery.Proofs.Decimal.Layout
import SafeQuery.Proofs.Decimal.Normal
import SafeQuery.Proofs.Dict
import SafeQuery.Proofs.Execution.Agreement
import SafeQuery.Proofs.Execution.Binding
import SafeQuery.Proofs.Execution.Correspondence
import SafeQuery.Proofs.Execution.Counting
import SafeQuery.Proofs.Execution.Depth
import SafeQuery.Proofs.Execution.Emission
import SafeQuery.Proofs.Execution.Hook
import SafeQuery.Proofs.Execution.Integers
import SafeQuery.Proofs.Execution.Keeping
import SafeQuery.Proofs.Execution.Loop
import SafeQuery.Proofs.Execution.Moment
import SafeQuery.Proofs.Execution.Moving
import SafeQuery.Proofs.Execution.Piping
import SafeQuery.Proofs.Execution.Regular
import SafeQuery.Proofs.Execution.Rewriting
import SafeQuery.Proofs.Execution.Room
import SafeQuery.Proofs.Execution.Rule
import SafeQuery.Proofs.Execution.Run
import SafeQuery.Proofs.Execution.ShortCircuit
import SafeQuery.Proofs.Execution.Stack
import SafeQuery.Proofs.Execution.Stepwise
import SafeQuery.Proofs.Execution.Unrelated
import SafeQuery.Proofs.File.Below
import SafeQuery.Proofs.File.Mirror
import SafeQuery.Proofs.File.Path
import SafeQuery.Proofs.File.Root
import SafeQuery.Proofs.File.Tree
import SafeQuery.Proofs.Format.Arguments
import SafeQuery.Proofs.Format.Places
import SafeQuery.Proofs.Format.Quoting
import SafeQuery.Proofs.Function.Builtin
import SafeQuery.Proofs.Function.Comparison
import SafeQuery.Proofs.Function.Ordering
import SafeQuery.Proofs.Glob.Descent
import SafeQuery.Proofs.Glob.Finding
import SafeQuery.Proofs.Glob.Matching
import SafeQuery.Proofs.Glob.Reading
import SafeQuery.Proofs.Glob.Walk
import SafeQuery.Proofs.Literal.Comment
import SafeQuery.Proofs.Literal.Form
import SafeQuery.Proofs.Literal.Scanning
import SafeQuery.Proofs.Source.Actions
import SafeQuery.Proofs.Source.Lexed
import SafeQuery.Proofs.Source.Pieces
import SafeQuery.Proofs.Source.Places
import SafeQuery.Proofs.Template.Built
import SafeQuery.Proofs.Template.Independence
import SafeQuery.Proofs.Template.Injection
import SafeQuery.Proofs.Template.Layers
import SafeQuery.Proofs.Template.Loading
import SafeQuery.Proofs.Template.Loops
import SafeQuery.Proofs.Template.Merging
import SafeQuery.Proofs.Template.Names
import SafeQuery.Proofs.Template.Namespace
import SafeQuery.Proofs.Template.Provenance
import SafeQuery.Proofs.Template.Sources
import SafeQuery.Proofs.Template.Strictness
import SafeQuery.Proofs.Template.Variables
import SafeQuery.Proofs.Template.WellFormed
import SafeQuery.Proofs.Token.Lexeme
import SafeQuery.Proofs.Token.Lexical
import SafeQuery.Proofs.Token.Numeral
import SafeQuery.Proofs.Token.Quoting
import SafeQuery.Proofs.Tree.Acceptance
import SafeQuery.Proofs.Tree.Calls
import SafeQuery.Proofs.Tree.Checking
import SafeQuery.Proofs.Tree.Conservation
import SafeQuery.Proofs.Tree.Definitions
import SafeQuery.Proofs.Tree.Exactness
import SafeQuery.Proofs.Tree.Exit
import SafeQuery.Proofs.Tree.Faults
import SafeQuery.Proofs.Tree.Fragment
import SafeQuery.Proofs.Tree.Functions
import SafeQuery.Proofs.Tree.Grammar
import SafeQuery.Proofs.Tree.Hooking
import SafeQuery.Proofs.Tree.Located
import SafeQuery.Proofs.Tree.Lone
import SafeQuery.Proofs.Tree.Numbers
import SafeQuery.Proofs.Tree.Phrase
import SafeQuery.Proofs.Tree.Placed
import SafeQuery.Proofs.Tree.Positions
import SafeQuery.Proofs.Tree.Readable
import SafeQuery.Proofs.Tree.Reading
import SafeQuery.Proofs.Tree.Reprinting
import SafeQuery.Proofs.Tree.Rereading
import SafeQuery.Proofs.Tree.Scoping
import SafeQuery.Proofs.Tree.Statement
import SafeQuery.Proofs.Tree.Step
import SafeQuery.Proofs.Tree.Walk
import SafeQuery.Proofs.Tree.Words
import SafeQuery.Settings.Basic
import SafeQuery.Settings.Reading
import SafeQuery.Source
import SafeQuery.Template
import SafeQuery.Text.Alphabetic
import SafeQuery.Text.Blank
import SafeQuery.Text.Extending
import SafeQuery.Text.Hex
import SafeQuery.Text.Numeric
import SafeQuery.Text.Quoted
import SafeQuery.Text.Ranges
import SafeQuery.Text.Unprintable
import SafeQuery.Text.Utf8
import SafeQuery.Text.Width
import SafeQuery.Token.Basic
import SafeQuery.Token.Fault
import SafeQuery.Token.Scan
import SafeQuery.Tree.Basic
import SafeQuery.Tree.Hook
import SafeQuery.Tree.Nesting
import SafeQuery.Tree.Pipeline
import SafeQuery.Tree.Printer
import SafeQuery.Value
