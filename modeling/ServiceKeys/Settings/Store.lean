import ServiceKeys.Settings.Document
import ServiceKeys.Lookup.Monad
import ServiceKeys.Toml.Reader
import ServiceKeys.Toml.Writer

/-!
# Settings in files

A project keeps its settings in a file of its own; without one, the user's file applies, and without
that the built-in settings.  The file is read anew for every lookup.
-/

namespace ServiceKeys.Settings

/-- The name of a project's settings file. -/
def fileName : String := "dilink.toml"

/-- The outcome of reading or writing settings. -/
abbrev Storing := Except Failure

/-- An access that has to succeed. -/
def accessed {α : Type} (r : Except AccessError α) : Storing α := r.mapError .access

/-- The settings file that applies: the project's, if a project is given and has one, or the
user's. -/
def findFile (w : Workspace) (user : Path) (root : Option Path) : Storing (Option Path) := do
  if let some root := root then
    let own := root.child fileName
    if ← accessed (w.isFile own) then return some own
  if ← accessed (w.isFile user) then return some user
  return none

/-- The bytes of a settings file. -/
def readBytes (w : Workspace) (file : Path.Given) : Except AccessCause (List UInt8) :=
  (w.asking FileTree.open? { file.path with parts := file.steps }).mapError AccessError.cause

/-- The document of a settings file; without a file it is empty. -/
def readDocument (w : Workspace) (file : Option Path.Given) : Storing (List (String × Value)) :=
  match file with
  | none => .ok []
  | some file =>
    match readBytes w file with
    | .error cause => .error (.unreadableDocument file.written cause)
    | .ok bytes =>
      match Text.strictText bytes with
      | .error e => .error (.undecodable e)
      | .ok text =>
        match Toml.parse text with
        | none => .error (.malformedDocument file.written)
        | some document => .ok document

/-- The settings that apply to a project. -/
def load (w : Workspace) (user : Path) (root : Option Path) : Storing Settings := do
  let document ← readDocument w ((← findFile w user root).map Path.given)
  (ofDocument document).mapError .settings

/-- Settings as they are written. -/
def written (s : Settings) : Storing String :=
  match Toml.write s.toDocument with
  | some text => .ok text
  | none => .error .unwritable

/-- Puts a text into a file, making its directory. -/
def putText (w : Workspace) (p : Path) (text : String) : Storing Workspace := do
  let tree ← accessed (w.asking (fun t p => t.makeDirectory (p.parts.length + 1) p) p.parent)
  let w := { w with tree }
  let tree ← accessed (w.asking (fun t p => t.write p (Text.encode text.toList)) p)
  return { w with tree }

/-- Writes settings to a file, making its directory.  The file is emptied first, and stays empty when
the settings have no written form. -/
def save (w : Workspace) (s : Settings) (p : Path) : Storing Unit × Workspace :=
  match putText w p "" with
  | .error f => (.error f, w)
  | .ok w =>
    match s.written with
    | .error f => (.error f, w)
    | .ok text =>
      match putText w p text with
      | .error f => (.error f, w)
      | .ok w => (.ok (), w)

end ServiceKeys.Settings
