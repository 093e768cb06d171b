import ServiceKeys.Command.Basic
import ServiceKeys.Lookup.Engine
import ServiceKeys.Settings.Store

/-!
# Running commands

What a command prints and the code that it ends with.  Wrong settings that show when the project is
opened end a command with a message of its own; every other failure is passed on.
-/

namespace ServiceKeys.Command

/-- How a command ends. -/
inductive Ending where
  /-- With a code, having printed something. -/
  | done (code : Nat) (output : String)
  /-- With a message about the settings. -/
  | wrongSettings (message : String)
  /-- With a complaint about the command line. -/
  | misused (usage : Usage)
  /-- With a failure. -/
  | failed (f : Failure)
  deriving Repr

/-- The version. -/
def versionText : String := "dilink v0.3.0"

/-- Lines, each with its end. -/
def lines (ls : List String) : String := String.join (ls.map (· ++ "\n"))

/-- Ends successfully with some lines. -/
def printed (ls : List String) : Ending := .done 0 (lines ls)

/-- The result of a lookup without a log. -/
def resultOf {α : Type} (l : Lookup α) : Except Failure α := (l.outcome none).1

/-- Goes on with the result of a lookup. -/
def withResult {α : Type} (l : Lookup α) (next : α → Ending) : Ending :=
  match resultOf l with
  | .ok a => next a
  | .error f => .failed f

/-- How reading the settings ends a command when it fails. -/
def settingsEnding (f : Failure) : Ending :=
  match f.toClass with
  | .fault .configuration => .wrongSettings ("⚠️  Configuration error: " ++ f.message)
  | _ => .failed f

/-- Goes on with a project. -/
def withProject (w : Workspace) (user root : Path) (next : Project → Ending) : Ending :=
  match Settings.load w user (some root) with
  | .error f => settingsEnding f
  | .ok settings => next (Project.openAt w root settings)

/-- A path as a project displays it. -/
def displayed (p : Project) (path : Path) : String := p.workspace.displayed p.root path

/-- A place in a file of a project as it is printed. -/
def place (p : Project) (file : Path) (position : Text.Position) : String :=
  Path.place (displayed p file) position.line position.column

/-- The lines for definitions. -/
def definitionLines (p : Project) (ds : List Definition) : List String :=
  ds.map fun d => d.key ++ " -> " ++ place p d.file d.position

/-- A text on one line, every run of blanks a single one. -/
def onOneLine (s : String) : String :=
  " ".intercalate ((Text.words s.toList).map String.ofList)

/-- The lines for the calls of a file's keys. -/
def referenceLines (p : Project) (keys : List (Option String)) (sites : List CallSite) :
    List String :=
  ("Keys: " ++ ", ".intercalate (keys.map (·.getD ""))) ::
    sites.map (fun c => place p c.file c.site.start ++ "  " ++ onOneLine c.site.text) ++
    ["", toString sites.length ++ " reference(s)."]

/-- The definitions of the key at a place of a file. -/
def lookupEnding (p : Project) (file : Path) (line column : Nat) : Ending :=
  withResult (p.workspace.readSource file) fun content =>
    let ls := Text.lines (content.getD [])
    match ls[line - 1]? with
    | none =>
      .misused (.badParameter (some
        (file.toString ++ " has only " ++ toString ls.length ++ " line(s).")))
    | some text =>
      withResult (p.definitionsAt text ((column : Int) - 1)) fun ds =>
        if ds.isEmpty then printed ["No registration key at that position."]
        else printed (definitionLines p ds)

/-- The settings that apply and where they come from. -/
def showEnding (w : Workspace) (user root : Path) : Ending :=
  match Settings.findFile w user (some root) with
  | .error f => .failed f
  | .ok file =>
    match Settings.load w user (some root) with
    | .error f => settingsEnding f
    | .ok settings =>
      let source := (file.map Path.toString).getD "built-in defaults"
      match settings.written with
      | .error f => .failed f
      | .ok text => printed ["Source: " ++ source, text]

/-- Writes the built-in settings to the project's settings file. -/
def initEnding (w : Workspace) (root : Path) (force : Bool) : Ending × Workspace :=
  let target := root.child Settings.fileName
  match w.exists? target with
  | .error e => (.failed (.access e), w)
  | .ok present =>
    if present && !force then
      (.done 1 (lines ["❌ " ++ target.toString ++
        " already exists (use --force to overwrite)."]), w)
    else
      match Settings.save w Settings.default target with
      | (.error f, w) => (.failed f, w)
      | (.ok (), w) => (printed ["✅ Wrote " ++ target.toString], w)

/-- Runs a request: how it ends, and the files as it leaves them. -/
def Request.run (w : Workspace) (user : Path) (r : Request) : Ending × Workspace :=
  let inProject := fun next => (withProject w user r.root next, w)
  match r.command with
  | .version => (printed [versionText], w)
  | .help => (.done 0 "", w)
  | .definition key => inProject fun p =>
    withResult (p.definitions key) fun ds =>
      if ds.isEmpty then printed ["No definition found for '" ++ key ++ "'."]
      else printed (definitionLines p ds)
  | .lookup file line column => inProject fun p => lookupEnding p file line column
  | .references file => inProject fun p =>
    withResult (p.references file) fun (found, sites) =>
      if sites.isEmpty then printed ["No references found for " ++ displayed p file ++ "."]
      else printed (referenceLines p found sites)
  | .keys file => inProject fun p =>
    withResult (p.keys file) fun found =>
      if found.isEmpty then printed [displayed p file ++ " is not registered in any DI file."]
      else printed (found.map (·.getD ""))
  | .registryFiles => inProject fun p =>
    withResult p.registryFiles fun files =>
      if files.isEmpty then printed ["No DI files found."]
      else printed (files.map (displayed p))
  | .showSettings => (showEnding w user r.root, w)
  | .initSettings force => initEnding w r.root force

/-- Runs a command line: how it ends, and the files as it leaves them. -/
def run (w : Workspace) (user : Path) (args : List String) : Ending × Workspace :=
  match parse w args with
  | .error usage => (.misused usage, w)
  | .ok request => Request.run w user request

end ServiceKeys.Command
