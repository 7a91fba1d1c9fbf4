import SafeQuery.CommandLine.Arguments
import SafeQuery.Json
import SafeQuery.Settings.Reading

/-!
# Commands

What the program writes and the code that it ends with. A failure is told in one line: what was
being done, what has gone wrong, and what is behind it.
-/

namespace SafeQuery.CommandLine

/-- What the program finds around it. -/
structure Surroundings where
  disk : Disk
  /-- What can be read from the standard input. -/
  input : List UInt8
  /-- The directory of settings. -/
  settingsHome : Option String
  /-- The settings file that the environment names. -/
  settingsFile : Option String

structure Report where
  code : Nat
  output : String
  errors : String
deriving DecidableEq, Repr

/-- Why a command has no result. -/
inductive Failure where
  /-- What has gone wrong, from the outermost to the innermost. -/
  | told (wordings : List String)
  /-- The program has stopped on the way. -/
  | stopped

namespace Failure

def ofError (e : Error) : Failure := if e.stops then stopped else told (e.message :: e.causes)

/-- A failure with what was being done. -/
def within (doing : String) : Failure → Failure
  | told wordings => told (doing :: wordings)
  | stopped       => stopped

end Failure

abbrev Step := Except Failure

def step {α : Type} : Except Error α → Step α := Except.mapError Failure.ofError

/-- A step that can fail with a file, which is told with what was being done. -/
def stepWith {α : Type} (doing : List String) : Except FileFault α → Step α :=
  Except.mapError fun f => .told (doing ++ [f.message])

def settingsOf (disk : Disk) (path : String) : Except Error Settings :=
  match disk.readText path with
  | .error f => .error (.file f)
  | .ok text =>
    match Settings.ofText? text with
    | some s => .ok s
    | none   => .error .settings

/-- The settings of the given file, or of the default file if there is one. -/
def settings (s : Surroundings) : Option String → Step Settings
  | some path =>
    (settingsOf s.disk path).mapError fun e => (Failure.ofError e).within ("loading " ++ path)
  | none      =>
    match s.settingsHome with
    | none      => return .empty
    | some home =>
      let path := Path.join (Path.join home "sqltemplate") "config.toml"
      if s.disk.contains path then step (settingsOf s.disk path) else return .empty

/-- The paths of a word: the matching ones if it is a pattern, or the word itself. -/
def expandWord (disk : Disk) (word : String) : Step (List String) :=
  if word.toList.any fun c => c = '*' || c = '?' || c = '[' then
    match Glob.paths disk word with
    | .error f => throw (.told [f.message])
    | .ok []   => throw (.told ["pattern matches no files: \x60" ++ word ++ "\x60"])
    | .ok ps   => return ps
  else return [word]

def expand (disk : Disk) (words : List String) : Step (List String) :=
  return (← words.mapM (expandWord disk)).flatten

/-- The template of files, which is named for the first one. -/
def templateOf (disk : Disk) (s : Settings) (paths : List String) : Step Template :=
  let name := (paths.head?.bind Path.fileName?).getD ""
  step ((s.apply (.new name)).loaded (Template.parseFiles disk paths))

/-- Read a text of JSON. -/
def dataOf (doing text : String) : Step Value :=
  match Value.ofJson? text with
  | some v => return v
  | none   => throw (.told [doing, "no value"])

def readData (s : Surroundings) : Option String → Step Value
  | none      => return .null
  | some "-"  =>
    match Text.ofBytes? s.input with
    | some text => dataOf "parsing JSON data" text
    | none      => throw (.told [FileFault.notText.message])
  | some path => do
    dataOf "parsing JSON data" (← stepWith ["reading data file " ++ path] (s.disk.readText path))

def asLine (s : String) : String := if s.toList.getLast? = some '\n' then s else s ++ "\n"

/-- A template with its calls of the encoder, under its name. -/
def explanation (t : Template) : String :=
  match t.tree? with
  | some tree => "Template: " ++ t.name ++ "\n" ++ tree.print ++ "\n\n"
  | none      => ""

def Command.output (s : Surroundings) : Command → Step String
  | .render files data name left right missingKey config => do
    let settings := (← settings s config).merge ⟨left, right, missingKey⟩
    let template ← templateOf s.disk settings (← expand s.disk files)
    let data ← readData s data
    let text ← step (match name with
      | some name => template.renderNamed name data
      | none      => template.render data)
    return asLine text
  | .explain files => do
    let template ← templateOf s.disk .empty (← expand s.disk files)
    return String.join (template.templates.map explanation)
  | .literal json => do
    match Literal.postgres (← dataOf "parsing JSON value" json) with
    | .ok sql  => return sql ++ "\n"
    | .error e => throw (.told [e.message])

def run (s : Surroundings) (words : List String) : Report :=
  match Command.ofWords? s.settingsFile words with
  | none         => ⟨2, "", "error: see the list of commands and options\n"⟩
  | some command =>
    match command.output s with
    | .ok text              => ⟨0, text, ""⟩
    | .error (.told causes) => ⟨1, "", "Error: " ++ ": ".intercalate causes ++ "\n"⟩
    | .error .stopped       => ⟨101, "", "the program has stopped\n"⟩

end SafeQuery.CommandLine
