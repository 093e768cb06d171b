import ServiceKeys.Text.Basic

/-!
# Paths

A path is a root, which may be absent, and a list of components.  Empty components and single dots
carry no meaning and are dropped when a path is read; double dots are kept until the path is
normalised.  Exactly two leading slashes are a root of their own.

Paths are ordered component by component, so `a/x` stands before `a-b/x`.
-/

namespace ServiceKeys

/-- What a path starts from. -/
inductive Path.Root where
  /-- The working directory. -/
  | none
  /-- One slash. -/
  | single
  /-- Two slashes. -/
  | double
  deriving DecidableEq, Repr, Inhabited

/-- A path. -/
structure Path where
  root : Path.Root
  parts : List String
  deriving DecidableEq, Repr, Inhabited

namespace Path

/-- The slashes of a root. -/
def Root.written : Root → String
  | .none => ""
  | .single => "/"
  | .double => "//"

/-- The root that a number of leading slashes stands for. -/
def Root.ofSlashes : Nat → Root
  | 0 => .none
  | 2 => .double
  | _ => .single

/-- The components that carry meaning. -/
def components (cs : List Char) : List String :=
  ((Text.splitOn '/' cs).filter fun part => part != [] && part != ['.']).map String.ofList

/-- Reads a path. -/
def ofString (s : String) : Path :=
  { root := .ofSlashes (s.toList.takeWhile (· == '/')).length, parts := components s.toList }

/-- Writes a path.  The path with nothing in it is written as a dot. -/
def toString (p : Path) : String :=
  if p.root = .none ∧ p.parts = [] then "." else p.root.written ++ "/".intercalate p.parts

/-- Whether a path starts from a root. -/
def isAbsolute (p : Path) : Bool := p.root != .none

/-- One path continued by another; one that starts from a root stands for itself. -/
def join (p q : Path) : Path :=
  if q.isAbsolute then q else { p with parts := p.parts ++ q.parts }

/-- A path continued by one component. -/
def child (p : Path) (name : String) : Path := { p with parts := p.parts ++ [name] }

/-- A path without its last component. -/
def parent (p : Path) : Path := { p with parts := p.parts.dropLast }

/-- The last component, or nothing. -/
def name (p : Path) : String := p.parts.getLast?.getD ""

/-- Takes one component: double dots take the last one back. -/
def climb (done : List String) (part : String) : List String :=
  if part == ".." then done.dropLast else done ++ [part]

/-- The components with every double dot worked off; above the root there is nothing. -/
def resolveDots (parts : List String) : List String := parts.foldl climb []

/-- The absolute form of a path without double dots, seen from a working directory. -/
def normalize (p cwd : Path) : Path :=
  let whole := cwd.join p
  { whole with parts := resolveDots whole.parts }

/-- The components below a directory, if the path is the directory or lies below it. -/
def below? (dir p : Path) : Option (List String) :=
  if p.root = dir.root ∧ dir.parts.isPrefixOf p.parts then some (p.parts.drop dir.parts.length)
  else none

/-- A path as it is displayed: relative to a directory when it lies there, else absolute. -/
def displayed (p cwd dir : Path) : String :=
  let p := p.normalize cwd
  match below? (dir.normalize cwd) p with
  | some parts => toString ⟨.none, parts⟩
  | none => p.toString

/-- A place in a file as it is displayed: lines and columns are counted from zero inside the library
and from one in what is shown. -/
def place (file : String) (line column : Int) : String :=
  file ++ ":" ++ Int.repr (line + 1) ++ ":" ++ Int.repr (column + 1)

/-! ## Paths as they were given -/

/-- A path together with the way in which it was written, which messages keep. -/
structure Given where
  path : Path
  written : String
  deriving DecidableEq, Repr, Inhabited

/-- A path given by its written form. -/
def Given.ofString (s : String) : Given := ⟨.ofString s, s⟩

/-- A path that nobody wrote is written in the ordinary way. -/
def given (p : Path) : Given := ⟨p, p.toString⟩

instance : Coe Path Given := ⟨given⟩

/-- Whether a path is written in such a way that only a directory can stand there: it ends in a
separator or in a component that says the same. -/
def Given.meansDirectory (g : Given) : Bool :=
  match (Text.splitOn '/' g.written.toList).getLast? with
  | some last => last == [] || last == ['.']
  | none => false

/-- The components to follow from the start of a path.  A dot at the end stands for the demand that
a directory be there. -/
def Given.steps (g : Given) : List String :=
  if g.meansDirectory then g.path.parts ++ ["."] else g.path.parts

/-! ## Order -/

/-- Lexicographic order of component lists. -/
def componentsLe : List String → List String → Bool
  | [], _ => true
  | _ :: _, [] => false
  | a :: as, b :: bs => if a == b then componentsLe as bs else a < b

/-- The components in the order of comparison: the root counts as the first of them. -/
def sortKey (p : Path) : List String :=
  match p.root with
  | .none => p.parts
  | r => r.written :: p.parts

/-- The order of paths. -/
def le (p q : Path) : Bool := componentsLe p.sortKey q.sortKey

/-- Paths in order. -/
def sort (ps : List Path) : List Path := ps.mergeSort le

/-! ## Extensions -/

/-- The extension of a file name: from the last dot on, unless nothing but dots stands before it in
the last component. -/
def extension (fileName : List Char) : List Char :=
  let base := (fileName.reverse.takeWhile (· != '/')).reverse
  let tail := (base.reverse.takeWhile (· != '.')).reverse
  let front := base.take (base.length - tail.length - 1)
  if base.contains '.' && front.any (· != '.') then '.' :: tail else []

end Path

end ServiceKeys
