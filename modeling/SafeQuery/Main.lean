import SafeQuery.CommandLine.Run

/-!
# The program

The outermost layer of the command line: it finds out what is around the program, runs the command,
and writes its report.
-/

open SafeQuery

/-- The directories below the working directory are read no deeper than this. -/
def maxDirectoryDepth : Nat := 64

/-- The files and directories of the given entries. What cannot be read is left out. -/
def readEntries : Nat → Array IO.FS.DirEntry → IO (Dict FileTree)
  | 0,         _       => return .empty
  | depth + 1, entries => do
    let mut found : Dict FileTree := .empty
    for e in entries do
      try
        if ← e.path.isDir then
          found := found.insert e.fileName (.directory (← readEntries depth (← e.path.readDir)))
        else
          found := found.insert e.fileName (.file (← IO.FS.readBinFile e.path).data.toList)
      catch _ => pure ()
    return found

def namesOf (path : String) : List String :=
  (Path.segments path).foldl (fun names s =>
    if Path.isIdle s then names
    else if s = ".." then names.dropLast
    else names ++ [s]) []

/-- The tree with a file that is read from outside the working directory, if there is one. -/
def withFile (working : String) (tree : FileTree) (path : String) : IO FileTree := do
  if path.isEmpty then return tree
  let path := Path.join working path
  try
    let content ← IO.FS.readBinFile path
    return tree.put (namesOf path) (.file content.data.toList)
  catch _ => return tree

def settingsHome : IO (Option String) := do
  match ← IO.getEnv "XDG_CONFIG_HOME" with
  | some home => if Path.isAbsolute home then return some home else return none
  | none      => return (← IO.getEnv "HOME").map fun home => Path.join home ".config"

def main (args : List String) : IO UInt32 := do
  let directory ← IO.currentDir
  let working := directory.toString
  let home ← settingsHome
  let settingsFile ← IO.getEnv "SQLTEMPLATE_CONFIG"
  let entries ← readEntries maxDirectoryDepth (← directory.readDir)
  let tree := (FileTree.directory .empty).put (namesOf working) (.directory entries)
  let outside := args ++ settingsFile.toList
    ++ home.toList.map fun home => Path.join (Path.join home "sqltemplate") "config.toml"
  let tree ← outside.foldlM (withFile working) tree
  let input ← if args.contains "-" then (← IO.getStdin).readToEnd else pure ""
  let report :=
    CommandLine.run ⟨⟨tree, namesOf working⟩, Text.bytesOf input, home, settingsFile⟩ args
  (← IO.getStdout).putStr report.output
  (← IO.getStderr).putStr report.errors
  return UInt32.ofNat report.code
