import SafeQuery.Dict
import SafeQuery.File.Path
import SafeQuery.Text.Utf8

/-!
# Files

A disk is a tree of directories and files with a working directory. Paths are resolved from the
root or from the working directory, one segment after the other, and a file is read as text.
-/

namespace SafeQuery

inductive FileFault where
  | notFound
  | notADirectory
  | isADirectory
  | nameTooLong
  | invalidName
  | notText
  /-- A source of texts has no text of the given name. -/
  | absent (name : String)
deriving DecidableEq, Repr

def FileFault.message : FileFault → String
  | notFound      => "No such file or directory (os error 2)"
  | notADirectory => "Not a directory (os error 20)"
  | isADirectory  => "Is a directory (os error 21)"
  | nameTooLong   => "File name too long (os error 36)"
  | invalidName   => "file name contained an unexpected NUL byte"
  | notText       => "stream did not contain valid UTF-8"
  | absent name   => "open " ++ name ++ ": file does not exist"

inductive FileTree where
  | file (content : List UInt8)
  | directory (entries : Dict FileTree)

namespace FileTree

def isDirectory : FileTree → Bool
  | file _      => false
  | directory _ => true

def child : FileTree → String → Except FileFault FileTree
  | file _,      _    => .error .notADirectory
  | directory d, name =>
    if 255 < name.utf8ByteSize then .error .nameTooLong
    else match d.get? name with
      | some t => .ok t
      | none   => .error .notFound

/-- The tree with another one put at the end of a path of names, where directories are made on the
way. -/
def put (t : FileTree) : List String → FileTree → FileTree
  | [],         leaf => leaf
  | name :: ns, leaf =>
    let d := match t with
      | directory d => d
      | file _      => .empty
    directory (d.insert name (put ((d.get? name).getD (directory .empty)) ns leaf))

end FileTree

/-- A tree of directories with the names that lead to the working directory. -/
structure Disk where
  tree : FileTree
  working : List String

namespace Disk

/-- The trees on the way down to a directory, the innermost first. -/
abbrev Descent := List FileTree

/-- Go one segment further down, or up again, or stay. -/
def step (way : Descent × FileTree) (segment : String) : Except FileFault (Descent × FileTree) :=
  if Path.isIdle segment then
    if way.2.isDirectory then .ok way else .error .notADirectory
  else if segment = ".." then
    if way.2.isDirectory then
      match way.1 with
      | t :: ts => .ok (ts, t)
      | []      => .ok way
    else .error .notADirectory
  else return (way.2 :: way.1, ← way.2.child segment)

def resolve (d : Disk) (path : String) : Except FileFault FileTree := do
  if path.toList.contains '\x00' then throw .invalidName
  if path = "" then throw .notFound
  if 4096 ≤ path.utf8ByteSize then throw .nameTooLong
  let names := if Path.isAbsolute path then [] else d.working
  let way ← (names ++ Path.segments path).foldlM step ([], d.tree)
  return way.2

def contains (d : Disk) (path : String) : Bool := (d.resolve path).isOk

def isDirectory (d : Disk) (path : String) : Bool :=
  match d.resolve path with
  | .ok t    => t.isDirectory
  | .error _ => false

def readText (d : Disk) (path : String) : Except FileFault String := do
  match ← d.resolve path with
  | .directory _ => throw .isADirectory
  | .file bs     =>
    match Text.ofBytes? bs with
    | some s => return s
    | none   => throw .notText

end Disk

end SafeQuery
