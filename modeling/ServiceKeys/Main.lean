import ServiceKeys.Command.Run

/-!
# The program

Reads the files that a command may look at into a tree, runs the command on the tree, prints what it
says and puts back what it wrote.  Directories that no scan enters are not read.
-/

namespace ServiceKeys.Main

/-- What has been read of the file system. -/
structure Loaded where
  entries : List (List String × Entry) := []
  unlistable : List (List String) := []
  unreadable : List (List String) := []

/-- A place as an absolute path. -/
def written (place : List String) : String := "/" ++ "/".intercalate place

/-- The kind of what stands at a place, links not followed. -/
def kindAt? (place : List String) : IO (Option IO.FS.FileType) := do
  try
    return some (← ((← IO.currentDir) / written place).symlinkMetadata).type
  catch _ => return none

/-- The names in a directory, unless it refuses to be listed. -/
def namesIn? (place : List String) : IO (Option (List String)) := do
  try
    return some ((← ((← IO.currentDir) / written place).readDir).toList.map (·.fileName))
  catch _ => return none

/-- The bytes of a file, unless it refuses to be read. -/
def bytesAt? (place : List String) : IO (Option (List UInt8)) := do
  try
    return some (← IO.FS.readBinFile (written place)).toList
  catch _ => return none

/-- Adds an entry. -/
def Loaded.add (l : Loaded) (place : List String) (e : Entry) : Loaded :=
  { l with entries := (place, e) :: l.entries }

mutual

/-- Reads what stands at a place; with `whole`, everything below it as well. -/
partial def read (whole : Bool) (l : Loaded) (place : List String) : IO Loaded := do
  match ← kindAt? place with
  | some .dir =>
    let l := if (l.entries.lookup place).isSome then l else l.add place .directory
    if whole then readBelow l place else return l
  | some .file =>
    if (l.entries.lookup place).isSome then return l
    match ← bytesAt? place with
    | some bytes => return l.add place (.file bytes)
    | none => return { l.add place (.file []) with unreadable := place :: l.unreadable }
  | some .symlink =>
    if (l.entries.lookup place).isSome then return l
    try
      let target := (← IO.FS.realPath (written place)).toString
      readPath whole (l.add place (.link target)) target
    catch _ => return l
  | _ => return l

/-- Reads everything below a directory. -/
partial def readBelow (l : Loaded) (place : List String) : IO Loaded := do
  match ← namesIn? place with
  | none => return { l with unlistable := place :: l.unlistable }
  | some names =>
    let fresh := names.filter fun name =>
      !Scan.alwaysExcluded.contains name && (l.entries.lookup (place ++ [name])).isNone
    fresh.foldlM (fun l name => read true l (place ++ [name])) l

/-- Reads the directories on the way of an absolute path and what it leads to. -/
partial def readPath (whole : Bool) (l : Loaded) (path : String) : IO Loaded := do
  let parts := (Path.ofString path).parts
  let l ← (List.range parts.length).foldlM (fun l n =>
    if n == 0 then return l else read false l (parts.take n)) l
  read whole l parts

end

/-- The file of the user's settings. -/
def userFile : IO Path := do
  match ← IO.getEnv "DILINK_HOME" with
  | some home => return (Path.ofString home).child "config.toml"
  | none =>
    let home := (← IO.getEnv "HOME").getD "/"
    return ((Path.ofString home).child ".dilink").child "config.toml"

/-- The files that a command line may be about. -/
def workspace (cwd user : Path) (args : List String) : IO Workspace := do
  let l ← readPath true {} cwd.toString
  let l ← readPath false l (user.normalize cwd).toString
  let l ← args.foldlM (fun l arg => readPath true l ((Path.ofString arg).normalize cwd).toString) l
  return { cwd, tree := { entries := l.entries, unlistable := l.unlistable.contains,
                          unreadable := l.unreadable.contains } }

/-- Puts back the files and directories that differ from those before. -/
def putBack (before after : FileTree) : IO Unit :=
  after.entries.forM fun (place, e) => do
    if before.entries.lookup place != some e then
      match e with
      | .file bytes => IO.FS.writeBinFile (written place) ⟨bytes.toArray⟩
      | .directory => IO.FS.createDirAll (written place)
      | .link _ => return

/-- Prints how a command ended, and gives its code. -/
def report : Command.Ending → IO UInt32
  | .done code output => do
    IO.print output
    return code.toUInt32
  | .wrongSettings message => do
    IO.eprintln message
    return 2
  | .misused usage => do
    IO.eprintln usage.message
    return 2
  | .failed f => do
    IO.eprintln f.message
    return 1

/-- Runs a command line. -/
def run (args : List String) : IO UInt32 := do
  let cwd := Path.ofString (← IO.currentDir).toString
  let user ← userFile
  let w ← workspace cwd user args
  let (ending, after) := Command.run w user args
  putBack w.tree after.tree
  report ending

end ServiceKeys.Main

/-- The program. -/
def main (args : List String) : IO UInt32 := ServiceKeys.Main.run args
