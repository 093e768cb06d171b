import ServiceKeys.Import.Basic
import ServiceKeys.Lookup.Monad
import ServiceKeys.Settings.Basic

/-!
# From a specifier to a file

A specifier with leading dots starts from the importing file.  One that starts with the search root
starts from the project.  Any other is tried from the project first and then from the search root.
Each base that comes out is probed as it stands, with every extension appended, and as a directory
with an index file.
-/

namespace ServiceKeys

/-- How a specifier is meant. -/
inductive Specifier.Kind where
  /-- From the importing file. -/
  | relative
  /-- From the project, through the search root. -/
  | rooted
  /-- From the project, or from the search root. -/
  | workspace
  deriving DecidableEq, Repr

/-- What turns specifiers into files. -/
structure Resolver where
  extensions : List String
  searchRoot : String
  deriving Inhabited

namespace Resolver

/-- The resolver for a search root that may have separators around it. -/
def make (extensions : List String) (searchRoot : String) : Resolver :=
  let isSeparator (c : Char) := c == '/' || c == '\\'
  { extensions
    searchRoot :=
      String.ofList (Text.dropEndWhile isSeparator (searchRoot.toList.dropWhile isSeparator)) }

/-- The resolver that settings ask for. -/
def ofSettings (s : Settings) : Resolver := make s.extensions s.searchRoot

/-- Whether a specifier starts from the importing file. -/
def isRelative (specifier : List Char) : Bool :=
  specifier == ['.'] || specifier == ['.', '.'] ||
    [['.', '/'], ['.', '.', '/'], ['.', '\\'], ['.', '.', '\\']].any (·.isPrefixOf specifier)

/-- How a specifier is meant. -/
def classify (r : Resolver) (specifier : String) : Specifier.Kind :=
  let cs := specifier.toList
  let root := r.searchRoot.toList
  if isRelative cs then .relative
  else if !root.isEmpty && (cs == root || (root ++ ['/']).isPrefixOf cs) then .rooted
  else .workspace

/-- The bases of a specifier, in the order in which they are probed. -/
def bases (r : Resolver) (cwd : Path) (specifier : String) (importer root : Path) : List Path :=
  let target := Path.ofString specifier
  let fromRoot := ((root.normalize cwd).join target).normalize cwd
  match r.classify specifier with
  | .relative => [((importer.normalize cwd).parent.join target).normalize cwd]
  | .rooted => [fromRoot]
  | .workspace =>
    if r.searchRoot.isEmpty then [fromRoot]
    else
      [fromRoot,
       (((root.normalize cwd).join (.ofString r.searchRoot)).join target).normalize cwd]

/-- The candidates of a base: itself, with an extension, and as a directory with an index. -/
def candidates (r : Resolver) (base : Path) : List Path :=
  base :: r.extensions.map (fun e => Path.ofString (base.toString ++ e)) ++
    r.extensions.map (fun e => base.join (.ofString ("index" ++ e)))

/-- The first candidate of a base that is a file. -/
def probe (r : Resolver) (w : Workspace) (base : Path) : Option Path :=
  ((r.candidates base).find? fun p => (w.isFile p).toOption == some true).map w.normalize

/-- The file of a specifier. -/
def resolve? (r : Resolver) (w : Workspace) (specifier : String) (importer root : Path) :
    Option Path :=
  (r.bases w.cwd specifier importer root).findSome? (r.probe w)

/-- The file of a specifier; that there is none is recorded in the log. -/
def resolve (r : Resolver) (w : Workspace) (specifier : String) (importer : Path.Given)
    (root : Path) : Lookup (Option Path) := do
  match r.resolve? w specifier importer.path root with
  | some p => return some p
  | none =>
    Lookup.debug
      ("Could not resolve " ++ Text.quoted specifier ++ " imported by " ++ importer.written)
    return none

/-- The file that an identifier is imported from. -/
def resolveIdentifier (r : Resolver) (w : Workspace) (content : List Char) (file : Path.Given)
    (identifier : String) (root : Path) : Lookup (Option Path) := do
  match Import.find? content identifier with
  | none =>
    Lookup.debug (file.written ++ ": no import found for " ++ Text.quoted identifier)
    return none
  | some b => r.resolve w b.specifier file root

end Resolver

end ServiceKeys
