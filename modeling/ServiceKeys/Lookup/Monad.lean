import ServiceKeys.Failure

/-!
# Running a lookup

A lookup reads a tree, keeps a log and polls for cancellation.  All of it is data: the log and the
number of polls are there even when the lookup fails, and cancellation is a budget, the number of
polls that are let through.
-/

namespace ServiceKeys

/-- How much a log record matters. -/
inductive Level where
  | debug
  | info
  deriving DecidableEq, Repr

/-- A log record. -/
structure LogRecord where
  level : Level
  message : String
  deriving DecidableEq, Repr

/-- What a lookup leaves behind besides its result. -/
structure Trace where
  /-- The log, in order. -/
  log : Array LogRecord := #[]
  /-- How often cancellation was polled. -/
  polls : Nat := 0
  /-- How many polls are let through; without a budget the lookup cannot be cancelled. -/
  budget : Option Nat := none
  deriving Repr, Inhabited

/-- A lookup. -/
abbrev Lookup := ExceptT Failure (StateM Trace)

namespace Lookup

/-- Adds a record to the log. -/
def record (level : Level) (message : String) : Lookup Unit :=
  modify fun t => { t with log := t.log.push ⟨level, message⟩ }

/-- Adds a record of detail. -/
def debug (message : String) : Lookup Unit := record .debug message

/-- Adds a record of interest to the user. -/
def info (message : String) : Lookup Unit := record .info message

/-- Polls for cancellation. -/
def poll : Lookup Unit := do
  let t ← get
  if t.budget.any (· ≤ t.polls) then throw .cancelled
  set { t with polls := t.polls + 1 }

/-- An access that has to succeed. -/
def accessed {α : Type} (r : Except AccessError α) : Lookup α :=
  match r with
  | .ok a => return a
  | .error e => throw (.access e)

/-- Runs a lookup: its outcome, and what it leaves behind. -/
def outcome {α : Type} (l : Lookup α) (budget : Option Nat) : Except Failure α × Trace :=
  (ExceptT.run l).run { budget }

end Lookup

/-- What a lookup looks at: a tree of files, seen from a working directory. -/
structure Workspace where
  tree : FileTree
  cwd : Path
  deriving Inhabited

namespace Workspace

/-- The absolute form of a path. -/
def normalize (w : Workspace) (p : Path) : Path := p.normalize w.cwd

/-- A path as it is displayed, seen from a directory. -/
def displayed (w : Workspace) (dir p : Path) : String := p.displayed w.cwd dir

/-- Asks the tree about a path, which may be relative to the working directory; a failure names the
path as it was given. -/
def asking {α : Type} (w : Workspace) (question : FileTree → Path → Except AccessError α)
    (p : Path) : Except AccessError α :=
  (question w.tree (w.cwd.join p)).mapError fun e => { e with path := p }

/-- Whether a path leads to a file. -/
def isFile (w : Workspace) (p : Path) : Except AccessError Bool := w.asking FileTree.isFile p

/-- Whether a path leads to a directory. -/
def isDirectory (w : Workspace) (p : Path) : Except AccessError Bool :=
  w.asking FileTree.isDirectory p

/-- Whether a path leads to anything. -/
def exists? (w : Workspace) (p : Path) : Except AccessError Bool := w.asking FileTree.exists? p

/-- What a path leads to. -/
def reach (w : Workspace) (p : Path) : Except AccessError FileTree.Reached :=
  w.asking FileTree.reach p

/-- The names in a directory with their entries, in no particular order. -/
def list (w : Workspace) (p : Path) : Except AccessError (List (String × Entry)) :=
  w.asking FileTree.list p

/-- The text of a source file.  One that cannot be read is passed over with a record in the log. -/
def readSource (w : Workspace) (file : Path.Given) : Lookup (Option (List Char)) := do
  match w.asking FileTree.readSource file.path with
  | .ok text => return some text
  | .error e =>
    Lookup.debug ("Could not read " ++ file.written ++ ": " ++ e.message)
    return none

end Workspace

end ServiceKeys
