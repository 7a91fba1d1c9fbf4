import SafeQuery.Error
import SafeQuery.Execution.Statement
import SafeQuery.File.Source
import SafeQuery.Tree.Nesting

/-!
# Templates

A template is a name in a set of definitions, with the settings that are used for reading and
executing them. Every definition has its calls of the encoder, so that an execution writes nothing
but the text of templates and literals. `Template.parse` and the loading functions add definitions,
`Template.execute` runs them.
-/

namespace SafeQuery

/-- A set of definitions with their settings, and the name of one of them. -/
structure Template where
  name : String
  trees : Dict Tree
  functions : FunctionTable
  delimiters : Delimiters
  missingKey : MissingKey
  encoder : Encoder

/-- A computation that adds definitions and can fail; what it has added before stays. -/
abbrev Load := ExceptT Error (StateM Template)

namespace Template

def new (name : String) : Template :=
  ⟨name, .empty, .empty, .braces, .default, Literal.postgres⟩

def withName (t : Template) (name : String) : Template := { t with name }

/-- Read what follows with other delimiters; empty ones stand for braces. -/
def withDelimiters (t : Template) (left right : String) : Template :=
  { t with delimiters := .ofTexts left right }

/-- Why functions of these names cannot be added, if that is so. -/
def nameFault? : List String → Option Error
  | []      => none
  | n :: ns =>
    if n = hookName then some (.reservedName n)
    else if !isName n then some (.invalidFunctionName n)
    else nameFault? ns

/-- Add functions; functions that have the same name are replaced. -/
def withFunctions (t : Template) (functions : FunctionTable) : Except Error Template :=
  match nameFault? functions.keys with
  | some e => .error e
  | none   => .ok { t with functions := t.functions.insertAll functions.entries }

def withMissingKey (t : Template) (policy : MissingKey) : Template :=
  { t with missingKey := policy }

/-- Set an option that is written as a word. -/
def withOption (t : Template) (option : String) : Except Error Template :=
  match MissingKey.all.find? fun p => option = "missingkey=" ++ p.word with
  | some policy => .ok (t.withMissingKey policy)
  | none        => .error (.unknownOption option)

def withEncoder (t : Template) (encoder : Encoder) : Template := { t with encoder }

/-- A function of this name can be called. -/
def isCallable (t : Template) (name : String) : Bool :=
  name = hookName || t.functions.contains name || builtins.contains name

/-- Add a tree with its calls of the encoder. One without content does not replace another. -/
def install (trees : Dict Tree) (name : String) (tree : Tree) : Dict Tree :=
  if tree.isEmpty && trees.contains name then trees else trees.insert name tree.withHooks

/-- Add the trees of a source. -/
def installAll (trees added : Dict Tree) : Dict Tree :=
  added.entries.foldl (fun ts e => install ts e.1 e.2) trees

/-- The template with the definitions of a source, whose own statements get a name. -/
def withSource (t : Template) (name source : String) : Except Error Template :=
  match Tree.ofSource t.delimiters t.isCallable name source with
  | .ok added    => .ok { t with trees := installAll t.trees added }
  | .error fault => .error (.source name (lineIn source fault.offset) fault.cause)

def parseAs (name source : String) : Load Unit := do
  match (← get).withSource name source with
  | .ok t    => set t
  | .error e => throw e

/-- Read a source as the definition of the template. -/
def parse (source : String) : Load Unit := do parseAs (← get).name source

/-- Add a copy of a tree under a name. -/
def withTree (t : Template) (name : String) (tree : Tree) : Template :=
  { t with trees := t.trees.insert name { tree with name }.withHooks }

def tree? (t : Template) : Option Tree := t.trees.get? t.name

def lookup? (t : Template) (name : String) : Option Template :=
  if t.trees.contains name then some (t.withName name) else none

def templates (t : Template) : List Template := t.trees.keys.map t.withName

/-- The names of the templates that have been defined, for error messages. -/
def definedText (t : Template) : String :=
  if t.trees.isEmpty then ""
  else "; defined templates are: " ++ ", ".intercalate (t.trees.keys.map Text.quoteText)

/-- The template in short, for diagnostics. -/
def summary (t : Template) : String :=
  let quoted (ns : List String) := ", ".intercalate (ns.map Text.quoteText)
  "Template \x7b name: " ++ Text.quoteText t.name ++ ", templates: [" ++ quoted t.trees.keys
    ++ "], funcs: \x7b" ++ quoted t.functions.keys ++ "\x7d, delims: ("
    ++ quoted [t.delimiters.left, t.delimiters.right] ++ "), missing_key: "
    ++ t.missingKey.word.capitalize ++ ", .. \x7d"

/-- Add the definitions of files. Each is named for its file. -/
def parseFiles (disk : Disk) (paths : List String) : Load Unit := do
  if paths.isEmpty then throw .noFiles
  paths.forM fun path =>
    match disk.readText path with
    | .ok text => parseAs ((Path.fileName? path).getD path) text
    | .error f => throw (.file f)

/-- The paths that match a pattern, of which there has to be one. -/
def matchingPaths (disk : Disk) (pattern : String) : Except Error (List String) :=
  match Glob.paths disk pattern with
  | .error f => .error (.pattern f)
  | .ok []   => .error (.noMatch pattern)
  | .ok ps   => .ok ps

/-- Add the definitions of the files whose paths match a pattern. -/
def parseMatching (disk : Disk) (pattern : String) : Load Unit := do
  parseFiles disk (← matchingPaths disk pattern)

/-- The names of a source that match a pattern, of which there has to be one. -/
def matchingNames (source : FileSource) (pattern : String) : Except Error (List String) :=
  match source.find pattern with
  | .error f => .error (.pattern f)
  | .ok []   => .error (.noMatch pattern)
  | .ok ns   => .ok ns

def parseNamed (source : FileSource) (name : String) : Load Unit :=
  match source.read name with
  | .ok text => parseAs (Path.baseName name) text
  | .error f => throw (.file f)

/-- Add the definitions of the texts of a source whose names match patterns. -/
def parseSource (source : FileSource) (patterns : List String) : Load Unit := do
  if patterns.isEmpty then throw .noFiles
  patterns.forM fun pattern => do
    (← matchingNames source pattern).forM (parseNamed source)

/-- Carry out a computation that adds definitions: the template with them, and why it has failed if
it has. -/
def load (t : Template) (act : Load Unit) : Template × Option Error :=
  match act.run t with
  | (.ok _, t)    => (t, none)
  | (.error e, t) => (t, some e)

/-- The result of a computation that adds definitions, unless it fails. -/
def loaded (t : Template) (act : Load Unit) : Except Error Template :=
  match t.load act with
  | (t, none)   => .ok t
  | (_, some e) => .error e

def ofFiles (disk : Disk) (paths : List String) : Except Error Template :=
  match paths with
  | []     => .error .noFiles
  | p :: _ => (new ((Path.fileName? p).getD p)).loaded (parseFiles disk paths)

def ofMatching (disk : Disk) (pattern : String) : Except Error Template := do
  ofFiles disk (← matchingPaths disk pattern)

/-- The template of the texts of a source whose names match patterns, named for the first one. -/
def ofSource (source : FileSource) (patterns : List String) : Except Error Template :=
  match patterns with
  | []     => .error .noPatterns
  | p :: _ => do
    let names ← matchingNames source p
    (new (Path.baseName (names.headD ""))).loaded (parseSource source patterns)

/-- What an execution has written, and why it has failed if it has. -/
structure Rendering where
  failure : Option Error
  sink : Sink

/-- What an execution of the template depends on besides its data. -/
def environment (t : Template) : Environment := ⟨t.trees, t.functions, t.encoder, t.missingKey⟩

/-- Run a definition, or fail if there is none. -/
def run (t : Template) (tree? : Option Tree) (missing : Error) (data : Value) (room : Option Nat) :
    Rendering :=
  match tree? with
  | none      => ⟨some missing, .ofRoom room⟩
  | some tree =>
    let outcome := t.environment.execute tree data room
    ⟨outcome.failure.map .execution, outcome.sink⟩

/-- Execute the template with its data, with the given room for its output. -/
def execute (t : Template) (data : Value) (room : Option Nat) : Rendering :=
  t.run t.tree? (.incomplete t.name) data room

def executeNamed (t : Template) (name : String) (data : Value) (room : Option Nat) : Rendering :=
  t.run (t.trees.get? name) (.noTemplate name t.name) data room

def Rendering.text (r : Rendering) : Except Error String :=
  match r.failure with
  | some e => .error e
  | none   => .ok r.sink.text

def render (t : Template) (data : Value) : Except Error String := (t.execute data none).text

def renderNamed (t : Template) (name : String) (data : Value) : Except Error String :=
  (t.executeNamed name data none).text

end Template

end SafeQuery
