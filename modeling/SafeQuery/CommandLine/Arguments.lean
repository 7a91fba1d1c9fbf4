import SafeQuery.MissingKey

/-!
# Arguments of the command line

The words behind the name of the program are read as a command with its options. An option is
written with one letter behind a dash or with its name behind two; a word of two dashes ends the
options. What cannot be read is a misuse of the program.
-/

namespace SafeQuery.CommandLine

/-- The options of commands. -/
inductive OptionName where
  | verbose
  | data
  | name
  | delims
  | missingKey
  | config
deriving DecidableEq, Repr

namespace OptionName

def long : OptionName → String
  | verbose    => "verbose"
  | data       => "data"
  | name       => "name"
  | delims     => "delims"
  | missingKey => "missingkey"
  | config     => "config"

def short? : OptionName → Option Char
  | verbose => some 'v'
  | data    => some 'd'
  | name    => some 'n'
  | _       => none

/-- How many words belong to an option. -/
def arity : OptionName → Nat
  | verbose => 0
  | delims  => 2
  | _       => 1

/-- The option can be given more than once. -/
def isRepeatable : OptionName → Bool
  | delims => true
  | _      => false

end OptionName

structure Given where
  option : OptionName
  words : List String
deriving DecidableEq, Repr

/-- What has been read of the words of a command. -/
structure Words where
  /-- The options are over. -/
  ended : Bool
  /-- An option whose words are not complete, with the words that it has so far. -/
  pending : Option Given
  given : List Given
  /-- The words that belong to no option. -/
  plain : List String
deriving DecidableEq, Repr

namespace Words

def start : Words := ⟨false, none, [], []⟩

/-- Complete an option. -/
def record? (ws : Words) (g : Given) : Option Words :=
  if !g.option.isRepeatable && ws.given.any (·.option = g.option) then none
  else some { ws with pending := none, given := ws.given ++ [g] }

def begin? (ws : Words) (option : OptionName) (attached : Option String) : Option Words :=
  match attached with
  | some w => if option.arity = 1 then ws.record? ⟨option, [w]⟩ else none
  | none  =>
    if option.arity = 0 then ws.record? ⟨option, []⟩
    else some { ws with pending := some ⟨option, []⟩ }

/-- Add an option that is written with its name. -/
def addLong? (options : List OptionName) (ws : Words) (text : List Char) : Option Words := do
  let name := String.ofList (text.takeWhile (· ≠ '='))
  let option ← options.find? fun o => o.long = name
  ws.begin? option ((text.dropWhile (· ≠ '=')).tail? |>.map String.ofList)

/-- Add options that are written with letters; what follows the letter of an option with a word is
this word. -/
def addShort? (options : List OptionName) (ws : Words) : List Char → Option Words
  | []        => some ws
  | c :: rest => do
    let option ← options.find? fun o => o.short? = some c
    if option.arity = 0 then addShort? options (← ws.begin? option none) rest
    else
      match rest with
      | []          => ws.begin? option none
      | '=' :: rest => ws.begin? option (some (String.ofList rest))
      | rest        => ws.begin? option (some (String.ofList rest))

/-- Add a word that is no option: it belongs to the option before it or to the command. -/
def addPlain? (ws : Words) (w : String) : Option Words :=
  match ws.pending with
  | none  => some { ws with plain := ws.plain ++ [w] }
  | some g =>
    let g := { g with words := g.words ++ [w] }
    if g.words.length < g.option.arity then some { ws with pending := some g } else ws.record? g

def add? (options : List OptionName) (ws : Words) (w : String) : Option Words :=
  if ws.ended then some { ws with plain := ws.plain ++ [w] }
  else
    match w.toList with
    | '-' :: c :: cs =>
      if ws.pending.isSome then none
      else if c = '-' then
        if cs.isEmpty then some { ws with ended := true } else ws.addLong? options cs
      else ws.addShort? options (c :: cs)
    | _ => ws.addPlain? w

def read? (options : List OptionName) (words : List String) : Option Words := do
  let ws ← words.foldlM (add? options) start
  if ws.pending.isSome then none else some ws

def wordsOf (ws : Words) (option : OptionName) : List String :=
  (ws.given.filter fun g => g.option = option).flatMap Given.words

def wordOf? (ws : Words) (option : OptionName) : Option String := (ws.wordsOf option).head?

end Words

/-- What the program is asked to do. -/
inductive Command where
  /-- Execute templates with data. -/
  | render (files : List String) (data name left right : Option String)
      (missingKey : Option MissingKey) (config : Option String)
  /-- Show templates with their calls of the encoder. -/
  | explain (files : List String)
  /-- Write a value as a literal. -/
  | literal (json : String)
deriving DecidableEq, Repr

def splitCommas (s : String) : List String := s.splitOn ","

/-- The command to execute templates. Where no settings file is given, the one of the environment is
taken. -/
def renderCommand? (config : Option String) (words : List String) : Option Command := do
  let ws ← Words.read? [.verbose, .data, .name, .delims, .missingKey, .config] words
  let delims := (ws.wordsOf .delims).flatMap splitCommas
  let config := (ws.wordOf? .config).or config
  if ws.plain.isEmpty || config = some "" then none
  let missingKey ← match ws.wordOf? .missingKey with
    | none   => some none
    | some w => (MissingKey.ofWord? w).map some
  return .render ws.plain (ws.wordOf? .data) (ws.wordOf? .name) delims[0]? delims[1]?
    missingKey config

def explainCommand? (words : List String) : Option Command := do
  let ws ← Words.read? [.verbose] words
  if ws.plain.isEmpty then none else some (.explain ws.plain)

def literalCommand? (words : List String) : Option Command := do
  let ws ← Words.read? [.verbose] words
  match ws.plain with
  | [json] => some (.literal json)
  | _      => none

/-- Read the words of the command line; `config` is the settings file of the environment. Before the
command there are the options of the program. -/
def Command.ofWords? (config : Option String) (words : List String) : Option Command := do
  let isOption (w : String) := w.toList.head? = some '-'
  let ws ← Words.read? [.verbose] (words.takeWhile isOption)
  if ws.ended || !ws.plain.isEmpty then none
  match words.dropWhile isOption with
  | "render" :: words  => renderCommand? config words
  | "explain" :: words => explainCommand? words
  | "literal" :: words => literalCommand? words
  | _                  => none

end SafeQuery.CommandLine
