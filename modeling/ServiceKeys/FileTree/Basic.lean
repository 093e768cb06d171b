import ServiceKeys.Path.Basic
import ServiceKeys.Text.Utf8

/-!
# File trees

The files that a lookup sees, as a value: a finite set of entries under absolute component lists,
each a file with its bytes, a directory or a symbolic link.  Some directories may refuse to be
listed and some files to be read.  Access follows links, as often as forty times, and fails with one
of a few causes.
-/

namespace ServiceKeys

/-- What stands at a place of a tree. -/
inductive Entry where
  | file (bytes : List UInt8)
  | directory
  | link (target : String)
  deriving DecidableEq, Repr, Inhabited

/-- Why an access fails. -/
inductive AccessCause where
  | notFound
  | permissionDenied
  | exists
  | notDirectory
  | isDirectory
  | nameTooLong
  | linkLoop
  deriving DecidableEq, Repr

/-- A failed access and the path that was asked for. -/
structure AccessError where
  cause : AccessCause
  path : Path
  deriving DecidableEq, Repr

/-- The number and the wording of a cause. -/
def AccessCause.describe : AccessCause → Nat × String
  | .notFound => (2, "No such file or directory")
  | .permissionDenied => (13, "Permission denied")
  | .exists => (17, "File exists")
  | .notDirectory => (20, "Not a directory")
  | .isDirectory => (21, "Is a directory")
  | .nameTooLong => (36, "File name too long")
  | .linkLoop => (40, "Too many levels of symbolic links")

/-- Whether a cause only says that there is nothing at the path. -/
def AccessCause.meansAbsent : AccessCause → Bool
  | .notFound | .notDirectory | .linkLoop => true
  | _ => false

/-- How a cause is reported for a path in its written form. -/
def AccessCause.message (cause : AccessCause) (written : String) : String :=
  let (number, words) := cause.describe
  "[Errno " ++ toString number ++ "] " ++ words ++ ": " ++ Text.quoted written

/-- How a failed access is reported. -/
def AccessError.message (e : AccessError) : String := e.cause.message e.path.toString

/-- A tree of files. -/
structure FileTree where
  /-- The entries by their components; a place has one entry. -/
  entries : List (List String × Entry)
  /-- The directories that refuse to be listed. -/
  unlistable : List String → Bool := fun _ => false
  /-- The files that refuse to be read. -/
  unreadable : List String → Bool := fun _ => false

instance : Inhabited FileTree := ⟨{ entries := [] }⟩

namespace FileTree

/-! ## Places -/

/-- The entry at a place, links not followed.  The root is a directory. -/
def entryAt? (t : FileTree) (place : List String) : Option Entry :=
  if place.isEmpty then some .directory else t.entries.lookup place

/-- The longest component that can exist, in bytes. -/
def nameLimit : Nat := 255

/-- How many links an access follows. -/
def linkLimit : Nat := 40

/-- A place that was reached, and its entry, which is no link. -/
structure Reached where
  place : List String
  entry : Entry
  deriving DecidableEq, Repr

/-- Follows components from a directory; `follow` goes on behind a link. -/
def reachWith (t : FileTree)
    (follow : List String → List String → Except AccessCause Reached) (place : List String) :
    List String → Except AccessCause Reached
  | [] => .ok ⟨place, .directory⟩
  | part :: rest =>
    if part == "." then reachWith t follow place rest
    else if part == ".." then reachWith t follow place.dropLast rest
    else if nameLimit < part.utf8ByteSize then .error .nameTooLong
    else
      let next := place ++ [part]
      match t.entryAt? next with
      | none => .error .notFound
      | some .directory => reachWith t follow next rest
      | some (.file bytes) => if rest.isEmpty then .ok ⟨next, .file bytes⟩ else .error .notDirectory
      | some (.link target) =>
        let target := Path.Given.ofString target
        follow (if target.path.isAbsolute then [] else place) (target.steps ++ rest)

/-- Follows components from a directory and at most the given number of links. -/
def reachFrom (t : FileTree) :
    Nat → List String → List String → Except AccessCause Reached
  | 0 => t.reachWith fun _ _ => .error .linkLoop
  | n + 1 => t.reachWith (reachFrom t n)

/-- What a path leads to. -/
def reach (t : FileTree) (p : Path) : Except AccessError Reached :=
  (t.reachFrom linkLimit [] p.parts).mapError fun cause => ⟨cause, p⟩

/-! ## Questions -/

/-- Asks whether a path leads to an entry of some sort.  That there is nothing is an answer; any
other failure is one. -/
def asks (t : FileTree) (sort : Entry → Bool) (p : Path) : Except AccessError Bool :=
  match t.reach p with
  | .ok r => .ok (sort r.entry)
  | .error e => if e.cause.meansAbsent then .ok false else .error e

/-- A file. -/
def isFileEntry : Entry → Bool
  | .file _ => true
  | _ => false

/-- A directory. -/
def isDirectoryEntry : Entry → Bool
  | .directory => true
  | _ => false

/-- Whether a path leads to a file. -/
def isFile (t : FileTree) (p : Path) : Except AccessError Bool := t.asks isFileEntry p

/-- Whether a path leads to a directory. -/
def isDirectory (t : FileTree) (p : Path) : Except AccessError Bool := t.asks isDirectoryEntry p

/-- Whether a path leads to anything. -/
def exists? (t : FileTree) (p : Path) : Except AccessError Bool := t.asks (fun _ => true) p

/-! ## Reading -/

/-- The bytes of a file. -/
def open? (t : FileTree) (p : Path) : Except AccessError (List UInt8) := do
  match (← t.reach p).entry with
  | .file bytes => return bytes
  | _ => throw ⟨.isDirectory, p⟩

/-- The text of a source file. -/
def readSource (t : FileTree) (p : Path) : Except AccessError (List Char) :=
  if t.unreadable p.parts then .error ⟨.permissionDenied, p⟩
  else (t.open? p).map Text.sourceText

/-- The names in a directory, given by its place, with their entries. -/
def children (t : FileTree) (place : List String) : List (String × Entry) :=
  t.entries.filterMap fun (q, e) =>
    if q.dropLast == place && !q.isEmpty then q.getLast?.map fun name => (name, e) else none

/-- The names in a directory with their entries, in no particular order. -/
def list (t : FileTree) (p : Path) : Except AccessError (List (String × Entry)) := do
  if t.unlistable p.parts then throw ⟨.permissionDenied, p⟩
  let r ← t.reach p
  match r.entry with
  | .directory => return t.children r.place
  | _ => throw ⟨.notDirectory, p⟩

/-! ## Changing -/

/-- Puts an entry at a place. -/
def put (t : FileTree) (place : List String) (e : Entry) : FileTree :=
  { t with entries := t.entries.filter (·.1 != place) ++ [(place, e)] }

/-- Makes the directories above a place that are not there. -/
def makeParents (t : FileTree) (place : List String) : FileTree :=
  (List.range place.length).foldl (fun t n =>
    let dir := place.take n
    if (t.entryAt? dir).isSome then t else t.put dir .directory) t

/-- Puts an entry at a place, making the directories above it. -/
def plant (t : FileTree) (place : List String) (e : Entry) : FileTree :=
  (t.makeParents place).put place e

/-- Removes an entry and everything below it. -/
def prune (t : FileTree) (place : List String) : FileTree :=
  { t with entries := t.entries.filter fun (q, _) => !place.isPrefixOf q }

/-- The place of a file that is about to be written: the end of the links at its path. -/
def writePlace (t : FileTree) (p : Path) : Except AccessError (List String) := do
  match t.reachFrom linkLimit [] p.parts with
  | .ok ⟨place, .file _⟩ => return place
  | .ok _ => throw ⟨.isDirectory, p⟩
  | .error .notFound =>
    match t.reachFrom linkLimit [] p.parent.parts with
    | .ok ⟨dir, .directory⟩ =>
      match t.entryAt? (dir ++ [p.name]) with
      | some (.link target) =>
        let target := Path.ofString target
        let (place, parts) := if target.isAbsolute then ([], target.parts) else (dir, target.parts)
        match t.reachFrom linkLimit place parts.dropLast with
        | .ok ⟨dir, .directory⟩ => return dir ++ [target.name]
        | _ => throw ⟨.notFound, p⟩
      | _ => return dir ++ [p.name]
    | .ok _ => throw ⟨.notDirectory, p⟩
    | .error cause => throw ⟨cause, p⟩
  | .error cause => throw ⟨cause, p⟩

/-- Writes a file into an existing directory. -/
def write (t : FileTree) (p : Path) (bytes : List UInt8) : Except AccessError FileTree := do
  return t.put (← t.writePlace p) (.file bytes)

/-- Makes a directory and those above it; `depth` bounds how many. -/
def makeDirectory (t : FileTree) : Nat → Path → Except AccessError FileTree
  | 0, p => .error ⟨.notFound, p⟩
  | depth + 1, p =>
    match t.reachFrom linkLimit [] p.parts with
    | .ok ⟨_, .directory⟩ => .ok t
    | .ok _ => .error ⟨.exists, p⟩
    | .error .notFound => do
      if p.parts.isEmpty then throw ⟨.notFound, p⟩
      let t ← makeDirectory t depth p.parent
      match t.reachFrom linkLimit [] p.parent.parts with
      | .ok ⟨dir, .directory⟩ =>
        if (t.entryAt? (dir ++ [p.name])).isSome then throw ⟨.exists, p⟩
        return t.put (dir ++ [p.name]) .directory
      | .ok _ => throw ⟨.notDirectory, p⟩
      | .error cause => throw ⟨cause, p⟩
    | .error cause => .error ⟨cause, p⟩

end FileTree

end ServiceKeys
