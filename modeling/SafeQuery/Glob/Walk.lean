import SafeQuery.File.Disk
import SafeQuery.Glob.Pattern

/-!
# Paths that match a pattern

A pattern of paths is a pattern for every segment. It is followed through the directories of a
disk: a segment without wildcards is looked up, and one with wildcards is matched with the names of
a directory in their order.
-/

namespace SafeQuery.Glob

/-- A part of a disk that has been found in a directory. -/
structure Found where
  path : String
  name : String
  tree : FileTree

/-- The path of an entry. What lies in the working directory itself is known by its name alone. -/
def entryPath (directory name : String) : String :=
  if Path.components directory = [.here] then name else Path.join directory name

mutual

/-- Everything below a directory, where each part comes before what lies in it. -/
def descendants (path : String) : FileTree → List Found
  | .file _          => []
  | .directory ⟨es⟩ => descendantsIn path es

def descendantsIn (path : String) : List (String × FileTree) → List Found
  | []              => []
  | (name, t) :: es =>
    let p := entryPath path name
    ⟨p, name, t⟩ :: descendants p t ++ descendantsIn path es

end

def children (path : String) : FileTree → List Found
  | .file _      => []
  | .directory d => d.entries.map fun (name, t) => ⟨entryPath path name, name, t⟩

/-- The paths that are reached from a directory by patterns for segments. With `directories` only
directories count at the end. -/
def follow (disk : Disk) (directories : Bool) : List Pattern → String → List String
  | [],      _    => []
  | p :: ps, path =>
    let goOn (path : String) : List String :=
      if ps.isEmpty then if directories && !disk.isDirectory path then [] else [path]
      else follow disk directories ps path
    match p.literal? with
    | some s =>
      let name := String.ofList s
      let next := entryPath path name
      let found :=
        if name = "." || name = ".." then disk.isDirectory path else disk.contains next
      if found then goOn next else []
    | none =>
      match disk.resolve path with
      | .error _ => []
      | .ok tree =>
        if p = [.deep] then
          (descendants path tree).flatMap fun f =>
            match ps with
            | []      => if f.tree.isDirectory then [f.path] else []
            | q :: qs =>
              if !Pattern.admits q f.name.toList then []
              else if qs.isEmpty then
                if directories && !f.tree.isDirectory then [] else [f.path]
              else follow disk directories qs f.path
        else
          let special :=
            if tree.isDirectory && p.head? = some (.char '.') then
              ["..", "."].filter fun s => Pattern.admits p s.toList
            else []
          special.flatMap (fun s => goOn (Path.join path s))
            ++ (children path tree).flatMap fun f =>
              if Pattern.admits p f.name.toList then goOn f.path else []

/-- Wildcards for segments one behind the other are the same as one of them. -/
def collapse : List Pattern → List Pattern
  | p :: q :: ps =>
    if p = [.deep] && q = [.deep] then collapse (q :: ps) else p :: collapse (q :: ps)
  | ps           => ps

/-- The segments of a path pattern, without the empty one behind a slash at its end. -/
def patternSegments (cs : List Char) : List String :=
  let ss := (Path.split cs).map String.ofList
  if ss.getLast? = some "" then ss.dropLast else ss

/-- The paths of a disk that match a pattern. -/
def paths (disk : Disk) (pattern : String) : Except PatternFault (List String) := do
  let _ ← Pattern.ofText pattern
  let cs := pattern.toList
  let fromRoot := Path.isAbsolute pattern
  let inner := if fromRoot then cs.tail else cs
  let ps ← (patternSegments inner).mapM Pattern.ofText
  let ps := if inner.isEmpty then ps ++ [[]] else ps
  return follow disk (cs.getLast? = some '/') (collapse ps) (if fromRoot then "/" else ".")

end SafeQuery.Glob
