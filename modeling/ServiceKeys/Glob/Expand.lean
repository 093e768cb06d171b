import ServiceKeys.Glob.Wildcard
import ServiceKeys.FileTree.Basic
import ServiceKeys.Distinct

/-!
# Expanding globs

A glob is a relative path whose components may be wildcards; the component `**` stands for any
number of directories.  Expanding it under a directory gives every path of the tree that it matches.
Literal components need not be listed, so they are found in directories that refuse to be listed; a
wildcard finds nothing there.
-/

namespace ServiceKeys.Glob

/-- A component of a glob. -/
inductive Component where
  /-- A name. -/
  | name (n : String)
  /-- A wildcard for one name. -/
  | wild (pieces : List Piece)
  /-- Any number of directories. -/
  | anyDepth
  deriving DecidableEq, Repr

/-- Why a glob cannot be expanded. -/
inductive Fault where
  | empty
  | absolute
  /-- A component with two stars and something else in it. -/
  | starsInside
  /-- No component at all. -/
  | noComponent
  /-- No component at all, and a slash at the end. -/
  | bareDirectory
  deriving DecidableEq, Repr

/-- A glob, ready to be expanded. -/
structure Pattern where
  components : List Component
  /-- Only directories match, because the glob ends in a slash. -/
  directoriesOnly : Bool
  deriving DecidableEq, Repr

/-- Reads a component. -/
def component (s : String) : Except Fault Component :=
  let cs := s.toList
  if cs == ['*', '*'] then .ok .anyDepth
  else if Text.contains ['*', '*'] cs then .error .starsInside
  else if cs.any fun c => c == '*' || c == '?' || c == '[' then .ok (.wild (pieces cs))
  else .ok (.name s)

/-- Reads a glob. -/
def parse (glob : String) : Except Fault Pattern := do
  if glob.isEmpty then throw .empty
  let p := Path.ofString glob
  if p.isAbsolute then throw .absolute
  let directoriesOnly := glob.toList.getLast? == some '/'
  if p.parts.isEmpty then throw (if directoriesOnly then .bareDirectory else .noComponent)
  return { components := ← p.parts.mapM component, directoriesOnly }

/-! ## Walking the tree -/

/-- Whether an access was refused, which a glob takes for an empty directory. -/
def refused (e : AccessError) : Bool := e.cause == .permissionDenied

/-- The names in a directory with their entries; none if it refuses to be listed. -/
def listed (t : FileTree) (p : Path) : Except AccessError (List (String × Entry)) :=
  match t.list p with
  | .ok names => .ok names
  | .error e => if refused e then .ok [] else .error e

/-- A directory and the directories below it, links not followed; `depth` bounds the descent. -/
def directories (t : FileTree) : (depth : Nat) → Path → Except AccessError (List Path)
  | 0, p => .ok [p]
  | depth + 1, p => do
    let names ← listed t p
    let subs := names.filterMap fun (name, e) => if e == .directory then some (p.child name) else none
    return p :: (← subs.mapM (directories t depth)).flatten

/-- Whether a component may go on with a path: it is not the last one and the path is a directory, or
it is the last one and the path exists. -/
def mayFollow (t : FileTree) (needsDirectory : Bool) (p : Path) : Except AccessError Bool :=
  if needsDirectory then t.isDirectory p else t.exists? p

/-- The paths under a directory that components match. -/
def select (t : FileTree) (directoriesOnly : Bool) :
    List Component → Path → Except AccessError (List Path)
  | [], p => .ok [p]
  | .name n :: rest, p => do
    let next := p.child n
    if ← mayFollow t (directoriesOnly || !rest.isEmpty) next then
      select t directoriesOnly rest next
    else return []
  | .wild ps :: rest, p => do
    let names ← listed t p
    let found ← names.mapM fun (name, _) => do
      let next := p.child name
      let fits ← if directoriesOnly || !rest.isEmpty then t.isDirectory next else pure true
      if fits && matchPieces ps name.toList then select t directoriesOnly rest next else return []
    return found.flatten
  | .anyDepth :: rest, p => do
    let dirs ← directories t (t.entries.length + 1) p
    return distinct (← dirs.mapM (select t directoriesOnly rest)).flatten

/-- The paths under a directory that a glob matches. -/
def expand (t : FileTree) (dir : Path) (g : Pattern) : Except AccessError (List Path) := do
  if ← t.isDirectory dir then select t g.directoriesOnly g.components dir else return []

end ServiceKeys.Glob
