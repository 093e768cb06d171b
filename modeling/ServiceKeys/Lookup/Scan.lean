import ServiceKeys.Lookup.Monad
import ServiceKeys.Settings.Basic
import ServiceKeys.Call.Basic
import ServiceKeys.Text.LowerCase

/-!
# Scanning a tree

The source files below a directory, and the calls in them.  Directories are walked depth first and
their entries in order of name, so the files come in the order of their paths.  Directories of
dependencies, version control and build output are not entered, nor are links to directories; what
cannot be read is passed over with a record in the log.
-/

namespace ServiceKeys

/-- Which files a scan takes. -/
structure Scan where
  extensions : List String
  /-- Names of directories that are not entered, besides the ones that never are. -/
  excluded : List Value := []
  deriving Inhabited

namespace Scan

/-- The directories that are never entered. -/
def alwaysExcluded : List String :=
  ["node_modules", ".git", ".hg", ".svn", "dist", "out", "build", "coverage", ".next"]

/-- The scan that settings ask for. -/
def ofSettings (s : Settings) : Scan := { extensions := s.extensions, excluded := s.excludedDirs }

/-- Whether a directory is entered, by its name. -/
def enters (s : Scan) (name : String) : Bool :=
  !alwaysExcluded.contains name && !s.excluded.any (·.sameMember (.text name))

/-- Whether a file is taken, by its name: its extension is one of those wanted, letter case
disregarded. -/
def accepts (s : Scan) (name : String) : Bool :=
  (s.extensions.map Text.lower).contains
    (Text.lower (String.ofList (Path.extension name.toList)))

/-- Names with their entries, in order of name. -/
def inOrder (names : List (String × Entry)) : List (String × Entry) :=
  names.mergeSort fun a b => decide (a.1 ≤ b.1)

/-- The files that one entry contributes; `descend` walks a directory. -/
def ofEntry (s : Scan) (w : Workspace) (descend : Path → Lookup (List Path)) (p : Path)
    (e : Entry) : Lookup (List Path) := do
  let taken := if s.accepts p.name then [p] else []
  match e with
  | .directory => if s.enters p.name then descend p else return []
  | .file _ => return taken
  | .link _ =>
    match w.reach p with
    | .ok r => return if FileTree.isFileEntry r.entry then taken else []
    | .error ⟨.notFound, _⟩ => return []
    | .error e =>
      Lookup.debug ("Skipping unreadable entry " ++ p.toString ++ ": " ++ e.message)
      return []

/-- The files below a directory; `depth` bounds the descent. -/
def walk (s : Scan) (w : Workspace) : (depth : Nat) → Path → Lookup (List Path)
  | 0, _ => return []
  | depth + 1, dir => do
    Lookup.poll
    match w.list dir with
    | .error e =>
      Lookup.debug ("Skipping unreadable directory " ++ dir.toString ++ ": " ++ e.message)
      return []
    | .ok names =>
      let found ← (inOrder names).mapM fun (name, e) =>
        s.ofEntry w (walk s w depth) (dir.child name) e
      return found.flatten

/-- The files below a directory, in the order of the walk. -/
def files (s : Scan) (w : Workspace) (dir : Path) : Lookup (List Path) := do
  if ← Lookup.accessed (w.isDirectory dir) then s.walk w (w.tree.entries.length + 1) dir
  else
    Lookup.debug ("Scan root " ++ dir.toString ++ " is not a directory")
    return []

end Scan

/-- A call in a file. -/
structure CallSite where
  file : Path
  site : Call.Site
  deriving DecidableEq, Repr, Inhabited

namespace CallSite

/-- What tells two calls apart: the file and the place where the call starts. -/
def key (c : CallSite) : String × Text.Position := (c.file.toString, c.site.start)

/-- The calls of a key in one file.  A file that does not contain the key at all is not searched. -/
def inFile (w : Workspace) (forms : List String) (key : String) (file : Path) :
    Lookup (List CallSite) := do
  Lookup.poll
  match ← w.readSource file with
  | none => return []
  | some content =>
    if content.isEmpty || !Text.contains key.toList content then return []
    let patterns := forms.map fun form => Call.pattern form.toList key.toList
    return (Call.sites content patterns).map (CallSite.mk file)

/-- The calls of a key below a directory, in order of file and place.  There are no calls of a key
that is absent. -/
def below (w : Workspace) (settings : Settings) (dir : Path) (key : Option String) :
    Lookup (List CallSite) := do
  match key with
  | none => throw .absentKey
  | some key =>
    let found ← (Scan.ofSettings settings).files w dir
    let files := Path.sort (found.map w.normalize)
    Lookup.debug ("Scanning " ++ toString files.length ++ " file(s) for key " ++ Text.quoted key)
    let sites ← files.mapM (inFile w settings.callForms key)
    return distinctBy CallSite.key sites.flatten

end CallSite

end ServiceKeys
