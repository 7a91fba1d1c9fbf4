import SafeQuery.Settings.Basic
import SafeQuery.Text.Hex

/-!
# Reading settings

The notation of settings files is the part of TOML that settings can be written in: comments, keys,
which are bare or quoted, the four kinds of strings, and empty tables and arrays, because a word can
also be written as a table with one empty entry. Any other text is refused.
-/

namespace SafeQuery.Settings

def isLineSpace (c : Char) : Bool := c = ' ' || c = '\t'

def skipSpace (s : List Char) : List Char := s.dropWhile isLineSpace

/-- What follows a line break. -/
def lineBreak? : List Char → Option (List Char)
  | '\n' :: s         => some s
  | '\r' :: '\n' :: s => some s
  | _                 => none

/-- The character may stand in a comment or between quotes. -/
def isPlain (c : Char) : Bool := c = '\t' || (0x20 ≤ c.toNat && c.toNat ≠ 0x7F)

/-- What follows the line, of which nothing is left but blank space and a comment. -/
def restOfLine? (s : List Char) : Option (List Char) :=
  let s := match skipSpace s with
    | '#' :: s => s.dropWhile isPlain
    | s        => s
  if s.isEmpty then some [] else lineBreak? s

/-! ### Strings -/

/-- The character with the code point that hexadecimal digits write. -/
def charOfDigits? (ds : List Char) : Option Char := do
  let n ← ds.foldlM (fun n d => return n * 16 + (← Text.hexValue? d)) 0
  if n.isValidChar then some (Char.ofNat n) else none

/-- The character that a letter stands for behind a backslash. -/
def unescape? : Char → Option Char
  | 'b'  => some '\x08'
  | 't'  => some '\t'
  | 'n'  => some '\n'
  | 'f'  => some '\x0c'
  | 'r'  => some '\r'
  | '"'  => some '"'
  | '\\' => some '\\'
  | _    => none

/-- What has been read of a string, with a character in front of it. -/
def withChar (c : Char) (r : Option (List Char × List Char)) : Option (List Char × List Char) :=
  r.map fun r => (c :: r.1, r.2)

/-- A string of one line with escapes, behind its opening quote, and what follows it. -/
def readBasic? : List Char → Option (List Char × List Char)
  | '"' :: s => some ([], s)
  | '\\' :: 'u' :: a :: b :: c :: d :: s => do
    withChar (← charOfDigits? [a, b, c, d]) (readBasic? s)
  | '\\' :: 'U' :: a :: b :: c :: d :: e :: f :: g :: h :: s => do
    withChar (← charOfDigits? [a, b, c, d, e, f, g, h]) (readBasic? s)
  | '\\' :: c :: s => do withChar (← unescape? c) (readBasic? s)
  | c :: s => if isPlain c then withChar c (readBasic? s) else none
  | [] => none

/-- A string of one line without escapes, behind its opening quote, and what follows it. -/
def readLiteral? : List Char → Option (List Char × List Char)
  | '\'' :: s => some ([], s)
  | c :: s    => if isPlain c then withChar c (readLiteral? s) else none
  | []        => none

/-- A backslash stands at the end of a line. -/
def endsLine (s : List Char) : Bool := (lineBreak? (skipSpace s)).isSome

/-- A string of several lines with escapes, behind its opening quotes, and what follows it. With
`joins` blank space and line breaks are left out, as behind a backslash at the end of a line. Two
quotes may stand before the closing ones. -/
def readLongBasic? (joins : Bool) : List Char → Option (List Char × List Char)
  | '"' :: '"' :: '"' :: '"' :: '"' :: s => some (['"', '"'], s)
  | '"' :: '"' :: '"' :: '"' :: s => some (['"'], s)
  | '"' :: '"' :: '"' :: s => some ([], s)
  | '\\' :: s =>
    if endsLine s then readLongBasic? true s
    else match s with
      | 'u' :: a :: b :: c :: d :: s => do
        withChar (← charOfDigits? [a, b, c, d]) (readLongBasic? false s)
      | 'U' :: a :: b :: c :: d :: e :: f :: g :: h :: s => do
        withChar (← charOfDigits? [a, b, c, d, e, f, g, h]) (readLongBasic? false s)
      | c :: s => do withChar (← unescape? c) (readLongBasic? false s)
      | [] => none
  | '\r' :: '\n' :: s =>
    if joins then readLongBasic? true s else withChar '\n' (readLongBasic? false s)
  | c :: s =>
    if joins && (isLineSpace c || c = '\n') then readLongBasic? true s
    else if isPlain c || c = '\n' then withChar c (readLongBasic? false s)
    else none
  | [] => none

/-- A string of several lines without escapes, behind its opening quotes, and what follows it. -/
def readLongLiteral? : List Char → Option (List Char × List Char)
  | '\'' :: '\'' :: '\'' :: '\'' :: '\'' :: s => some (['\'', '\''], s)
  | '\'' :: '\'' :: '\'' :: '\'' :: s => some (['\''], s)
  | '\'' :: '\'' :: '\'' :: s => some ([], s)
  | '\r' :: '\n' :: s => withChar '\n' (readLongLiteral? s)
  | c :: s => if isPlain c || c = '\n' then withChar c (readLongLiteral? s) else none
  | [] => none

/-- What follows a line break that stands directly behind the opening quotes. -/
def afterBreak (s : List Char) : List Char := (lineBreak? s).getD s

/-- A string of any kind and what follows it. -/
def readString? (s : List Char) : Option (String × List Char) :=
  let r := match s with
    | '"' :: '"' :: '"' :: s    => readLongBasic? false (afterBreak s)
    | '"' :: s                  => readBasic? s
    | '\'' :: '\'' :: '\'' :: s => readLongLiteral? (afterBreak s)
    | '\'' :: s                 => readLiteral? s
    | _                         => none
  r.map fun r => (String.ofList r.1, r.2)

def isKeyChar (c : Char) : Bool := c.isAlphanum || c = '_' || c = '-'

def readKey? (s : List Char) : Option (String × List Char) :=
  match s with
  | '"' :: s  => (readBasic? s).map fun r => (String.ofList r.1, r.2)
  | '\'' :: s => (readLiteral? s).map fun r => (String.ofList r.1, r.2)
  | s         =>
    let name := s.takeWhile isKeyChar
    if name.isEmpty then none else some (String.ofList name, s.dropWhile isKeyChar)

/-- One key, or two with a point between them, and what follows them. No setting lies deeper. -/
def readPath? (s : List Char) : Option (List String × List Char) := do
  let (k, s) ← readKey? s
  match skipSpace s with
  | '.' :: s =>
    let (l, s) ← readKey? (skipSpace s)
    return ([k, l], s)
  | _ => return ([k], s)

/-! ### Values -/

/-- What a key can stand for. -/
inductive Leaf where
  | text (s : String)
  /-- An empty table or array. -/
  | nothing
deriving DecidableEq, Repr

def skipLines (comment : Bool) : List Char → List Char
  | '\r' :: '\n' :: s => skipLines false s
  | c :: s =>
    if c = '\n' then skipLines false s
    else if comment then if isPlain c then skipLines true s else c :: s
    else if c = '#' then skipLines true s
    else if isLineSpace c then skipLines false s
    else c :: s
  | [] => []

/-- A string, or an empty table or array, and what follows it. -/
def readLeaf? (s : List Char) : Option (Leaf × List Char) :=
  match s with
  | '\x7b' :: s =>
    match skipSpace s with
    | '\x7d' :: s => some (.nothing, s)
    | _           => none
  | '[' :: s =>
    match skipLines false s with
    | ']' :: s => some (.nothing, s)
    | _        => none
  | s => (readString? s).map fun r => (.text r.1, r.2)

/-- Keys with a value, and what follows them. -/
def readPair? (s : List Char) : Option ((List String × Leaf) × List Char) := do
  let (path, s) ← readPath? s
  match skipSpace s with
  | '=' :: s =>
    let (leaf, s) ← readLeaf? (skipSpace s)
    return ((path, leaf), s)
  | _ => none

/-- Keys with a value, which can be a table with one entry, and what follows them. -/
def readAssignment? (s : List Char) : Option ((List String × Leaf) × List Char) :=
  (readPair? s).or do
    let (path, s) ← readPath? s
    match skipSpace s with
    | '=' :: s =>
      match skipSpace s with
      | '\x7b' :: s =>
        let ((inner, leaf), s) ← readPair? (skipSpace s)
        match skipSpace s with
        | '\x7d' :: s => return ((path ++ inner, leaf), s)
        | _           => none
      | _ => none
    | _ => none

inductive Statement where
  | blank
  /-- What follows belongs to a table. -/
  | header (path : List String)
  | assignment (path : List String) (leaf : Leaf)
deriving DecidableEq, Repr

def readStatement? (s : List Char) : Option (Statement × List Char) :=
  match skipSpace s with
  | '[' :: s => do
    let (path, s) ← readPath? (skipSpace s)
    match skipSpace s with
    | ']' :: s => return (.header path, ← restOfLine? s)
    | _        => none
  | s =>
    match restOfLine? s with
    | some rest => some (.blank, rest)
    | none      => do
      let ((path, leaf), s) ← readAssignment? s
      return (.assignment path leaf, ← restOfLine? s)

/-- The statements of a text. A statement takes at least one character. -/
def readStatements? (s : List Char) : Option (List Statement) :=
  if s.isEmpty then some []
  else
    match readStatement? s with
    | none           => none
    | some (t, rest) =>
      if rest.length < s.length then (readStatements? rest).map (t :: ·) else none
termination_by s.length

/-! ### Settings of statements -/

/-- The settings of statements so far. -/
structure Progress where
  settings : Settings
  /-- The keys of the table that assignments belong to. -/
  table : List String
  /-- The table of the policy has been opened. -/
  opened : Bool

/-- Set what a key stands for, once. -/
def assign? (s : Settings) (path : List String) (leaf : Leaf) : Option Settings :=
  match path, leaf with
  | ["left_delim"], .text d      =>
    if s.left.isNone then some { s with left := some d } else none
  | ["right_delim"], .text d     =>
    if s.right.isNone then some { s with right := some d } else none
  | ["missing_key"], .text w     => setPolicy w
  | ["missing_key", w], .nothing => setPolicy w
  | _, _                         => none
where
  /-- Set the policy, once. -/
  setPolicy (w : String) : Option Settings :=
    if s.missingKey.isNone then (MissingKey.ofWord? w).map fun p => { s with missingKey := some p }
    else none

/-- Follow a statement. -/
def advance? (p : Progress) : Statement → Option Progress
  | .blank                => some p
  | .header path          =>
    if path = ["missing_key"] then
      if p.opened || p.settings.missingKey.isSome then none
      else some { p with table := path, opened := true }
    else (assign? p.settings path .nothing).map fun settings => { p with settings, table := path }
  | .assignment path leaf => do
    return { p with settings := ← assign? p.settings (p.table ++ path) leaf }

/-- Read the text of a settings file. -/
def ofText? (text : String) : Option Settings := do
  let s := match text.toList with
    | '\ufeff' :: s => s
    | s             => s
  let statements ← readStatements? s
  let p ← statements.foldlM advance? ⟨empty, [], false⟩
  if p.opened && p.settings.missingKey.isNone then none
  return p.settings

end SafeQuery.Settings
