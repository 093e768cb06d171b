import ServiceKeys.Lookup.Scan
import ServiceKeys.Registration
import ServiceKeys.Import.Resolve
import ServiceKeys.Declaration

/-!
# Lookups

The two directions.  *Forward*: from a key through its registration and the import of its reference
to the declaration.  *Reverse*: from a file through the names that registration files import from it
to its keys, and on to the calls that resolve them.
-/

namespace ServiceKeys

/-- A project with its settings. -/
structure Project where
  workspace : Workspace
  /-- The project's directory, in absolute form. -/
  root : Path
  settings : Settings
  deriving Inhabited

/-- Where the implementation behind a key is declared. -/
structure Definition where
  key : String
  file : Path
  position : Text.Position
  deriving DecidableEq, Repr, Inhabited

namespace Project

/-- A project at a path. -/
def openAt (w : Workspace) (root : Path) (settings : Settings) : Project :=
  { workspace := w, root := w.normalize root, settings }

/-! ## Registration files -/

/-- The files that one glob matches, in order. -/
def globMatches (w : Workspace) (root : Path) (glob : String) : Lookup (List Path) := do
  match Glob.parse glob with
  | .error fault => throw (.glob glob fault)
  | .ok g => return Path.sort (← Lookup.accessed (Glob.expand w.tree root g))

/-- Adds the files among some matches that are not there yet. -/
def addFiles (w : Workspace) (files ps : List Path) : Lookup (List Path) :=
  (ps.map w.normalize).foldlM (fun files p => do
    if files.contains p then return files
    if ← Lookup.accessed (w.isFile p) then return files ++ [p] else return files) files

/-- The files that globs match: glob by glob, each one's matches in order, without duplicates. -/
def locate (w : Workspace) (root : Path) (globs : List String) : Lookup (List Path) := do
  let root := w.normalize root
  let files ← globs.foldlM (fun files glob => do
    let found ← globMatches w root glob
    if found.isEmpty then
      Lookup.debug
        ("DI glob " ++ Text.quoted glob ++ " matched nothing under " ++ root.toString)
    addFiles w files found) []
  Lookup.debug
    ("Located " ++ toString files.length ++ " DI file(s) under " ++ root.toString)
  return files

/-- The registration files of a project. -/
def registryFiles (p : Project) : Lookup (List Path) :=
  locate p.workspace p.root p.settings.registryGlobs

/-- The resolver of a project. -/
def resolver (p : Project) : Resolver := .ofSettings p.settings

/-! ## Forward -/

/-- The registrations of a key in a registration file. -/
def registrations (p : Project) (key : String) (file : Path) (content : List Char) :
    Lookup (List Registration) := do
  match Registration.forward p.settings.templates content key with
  | .error e => throw e
  | .ok found =>
    if !found.isEmpty then
      Lookup.debug (file.toString ++ ": key " ++ Text.quoted key ++ " registered as " ++
        ", ".intercalate (found.map Registration.reference))
    return found

/-- Where a symbol is declared in a file, if it can be read. -/
def locateSymbol (w : Workspace) (file : Path.Given) (symbol : String) (defaultExport : Bool) :
    Lookup (Option Text.Position) := do
  match ← w.readSource file with
  | none => return none
  | some content =>
    match Declaration.locate? content symbol.toList defaultExport with
    | none => return none
    | some found =>
      if let some shape := found.shape then
        Lookup.debug ("Found " ++ shape ++ " " ++ Text.quoted symbol ++ " at " ++
          toString found.position.line ++ ":" ++ toString found.position.column)
      return some found.position

/-- Where the declaration behind a binding stands in its file. -/
def bindingPosition (w : Workspace) (b : Binding) (target : Path) :
    Lookup (Option Text.Position) :=
  match b.exported with
  | .all => return none
  | .default => locateSymbol w target b.localName true
  | .named name => locateSymbol w target name false

/-- The definition behind one registration, if its reference is an imported identifier whose module
is a file. -/
def definitionOf (p : Project) (key : String) (file : Path) (content : List Char)
    (r : Registration) : Lookup (Option Definition) := do
  let reference := Text.quoted r.reference
  if !Text.isIdentifier r.reference.toList then
    Lookup.debug (file.toString ++ ": " ++ reference ++ " is not a bare identifier, skipped")
    return none
  match Import.find? content r.reference with
  | none =>
    Lookup.debug (file.toString ++ ": " ++ reference ++ " is not imported")
    return none
  | some b =>
    match ← p.resolver.resolve p.workspace b.specifier file p.root with
    | none => return none
    | some target =>
      match ← bindingPosition p.workspace b target with
      | some position => return some ⟨key, target, position⟩
      | none =>
        Lookup.debug
          (target.toString ++ ": no declaration of " ++ reference ++ ", pointing at file")
        return some ⟨key, target, ⟨0, 0⟩⟩

/-- The definition behind the first registration that leads to one. -/
def firstDefinition (p : Project) (key : String) (file : Path) (content : List Char) :
    List Registration → Lookup (Option Definition)
  | [] => return none
  | r :: rest => do
    match ← p.definitionOf key file content r with
    | some d => return some d
    | none => p.firstDefinition key file content rest

/-- The definition of a key by one registration file. -/
def definitionIn (p : Project) (key : String) (file : Path) : Lookup (Option Definition) := do
  Lookup.poll
  match ← p.workspace.readSource file with
  | none => return none
  | some content =>
    p.firstDefinition key file content (← p.registrations key file content)

/-- The definitions of a key, at most one for each registration file, without duplicates. -/
def definitions (p : Project) (key : String) : Lookup (List Definition) := do
  if (Text.trim key.toList).isEmpty then return []
  let files ← p.registryFiles
  let found ← files.mapM (p.definitionIn key)
  let results := distinctBy (fun d => (d.file, d.position)) (found.filterMap id)
  if results.isEmpty then Lookup.info ("No definition found for key " ++ Text.quoted key)
  return results

/-- The definitions of the key under a column of a line. -/
def definitionsAt (p : Project) (line : List Char) (column : Int) : Lookup (List Definition) :=
  match Call.keyAt? line column (p.settings.callForms.map String.toList) with
  | none => return []
  | some key => p.definitions (String.ofList key)

/-- The line of a text with a number, if there is one. -/
def lineAt? (content : List Char) (line : Int) : Option (List Char) :=
  if line < 0 then none else (Text.lines content)[line.toNat]?

/-- The definitions of the key under a place of a file. -/
def definitionsUnder (p : Project) (file : Path.Given) (line column : Int) :
    Lookup (List Definition) := do
  match ← p.workspace.readSource file with
  | none => return []
  | some content =>
    match lineAt? content line with
    | none => return []
    | some text => p.definitionsAt text column

/-! ## Reverse -/

/-- Looks a specifier up, once for each specifier. -/
def resolveOnce (p : Project) (file : Path) (known : List (String × Option Path))
    (specifier : String) : Lookup (List (String × Option Path)) := do
  if (known.lookup specifier).isSome then return known
  let target ← p.resolver.resolve p.workspace specifier file p.root
  return known ++ [(specifier, target)]

/-- The names that a registration file imports from a target. -/
def importedNames (p : Project) (file : Path) (content : List Char) (target : Path) :
    Lookup (List String) := do
  let bindings := Import.all content
  let known ← bindings.foldlM (fun known b => p.resolveOnce file known b.specifier) []
  return (bindings.filter fun b => known.lookup b.specifier == some (some target)).map
    Binding.localName

/-- The keys under which one registration file registers a target. -/
def keysIn (p : Project) (target file : Path) : Lookup (List (Option String)) := do
  Lookup.poll
  match ← p.workspace.readSource file with
  | none => return []
  | some content =>
    let names ← p.importedNames file content target
    if names.isEmpty then return []
    match Registration.reverse p.settings.templates content names with
    | .error e => throw e
    | .ok keys => return keys

/-- The keys under which a file is registered, without duplicates. -/
def keys (p : Project) (file : Path) : Lookup (List (Option String)) := do
  let target := p.workspace.normalize file
  let files ← p.registryFiles
  let found ← files.mapM (p.keysIn target)
  return distinct found.flatten

/-- The directory that is searched for calls. -/
def searchDirectory (p : Project) : Path :=
  if p.settings.searchRoot.isEmpty then p.root
  else p.workspace.normalize (p.root.join (.ofString p.settings.searchRoot))

/-- The keys of a file and the calls that resolve them.  Both are empty when the file may not be
registered or is not. -/
def references (p : Project) (file : Path) :
    Lookup (List (Option String) × List CallSite) := do
  let target := p.workspace.normalize file
  if !p.settings.includes (p.workspace.displayed p.root target) then
    Lookup.info (target.toString ++ " is not a registration target (file_include_globs)")
    return ([], [])
  let keys ← p.keys target
  if keys.isEmpty then
    Lookup.info (target.toString ++ " is not registered in any DI file")
    return ([], [])
  let sites ← keys.mapM (CallSite.below p.workspace p.settings p.searchDirectory)
  return (keys, distinctBy CallSite.key sites.flatten)

end Project

end ServiceKeys
