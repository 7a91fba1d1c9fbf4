import SafeQuery.Glob.Walk

/-!
# Sources of template texts

Template texts come from a source that lists the names that match a pattern and reads the text of a
name: texts that are kept under their names, or the files below a directory of a disk.
-/

namespace SafeQuery

/-- Where template texts are found. -/
structure FileSource where
  /-- The names that match a pattern, in order. -/
  find : String → Except Glob.PatternFault (List String)
  /-- The text of a name. -/
  read : String → Except FileFault String

namespace FileSource

def ofTexts (texts : Dict String) : FileSource where
  find pattern := do
    let p ← Glob.Pattern.ofText pattern
    return texts.keys.filter fun name => p.admits name.toList
  read name :=
    match texts.get? name with
    | some text => .ok text
    | none      => .error (.absent name)

/-- The pattern that matches below a directory what the given one matches. -/
def below (root pattern : String) : String :=
  let base := (Glob.escape root).toList
  String.ofList (base.reverse.dropWhile (· = '/')).reverse ++ "/" ++ pattern

def ofDirectory (disk : Disk) (root : String) : FileSource where
  find pattern := do
    let _ ← Glob.Pattern.ofText pattern
    let paths ← Glob.paths disk (below root pattern)
    let names := paths.map fun p => (Path.relative? root p).getD p
    return names.mergeSort fun s t => !decide (t < s)
  read name := disk.readText (Path.join root name)

end FileSource

end SafeQuery
