import ServiceKeys.Command.Args
import ServiceKeys.Lookup.Monad
import ServiceKeys.Text.Numeral

/-!
# Commands

What the command line can ask for, and how it is written.  Paths are checked while the command line
is read: a project's directory and the files named must exist and be of the right sort.
-/

namespace ServiceKeys

/-- A command. -/
inductive Command where
  | version
  /-- A page of help. -/
  | help
  /-- Where the implementation behind a key is declared. -/
  | definition (key : String)
  /-- The same, for the key at a line and a column of a file, both counted from one. -/
  | lookup (file : Path) (line column : Nat)
  /-- The calls that resolve a file's keys. -/
  | references (file : Path)
  /-- The keys of a file. -/
  | keys (file : Path)
  /-- The registration files. -/
  | registryFiles
  /-- The settings that apply. -/
  | showSettings
  /-- Writes the built-in settings to the project's settings file. -/
  | initSettings (force : Bool)
  deriving DecidableEq, Repr

/-- A command and the directory of the project that it is for. -/
structure Request where
  command : Command
  root : Path
  deriving DecidableEq, Repr

namespace Command

/-- The option for a page of help. -/
def helpOption : Opt := { long := "--help" }

/-- The option for the project's directory. -/
def rootOption : Opt := { long := "--root", short := some 'r', takesValue := true }

/-- The option for a detailed log. -/
def debugOption : Opt := { long := "--debug" }

/-- The option for overwriting. -/
def forceOption : Opt := { long := "--force", short := some 'f' }

/-- The option for the version. -/
def versionOption : Opt := { long := "--version", short := some 'v' }

/-- A path that has to exist and to be of some sort. -/
def checkedPath (w : Workspace) (sort : Entry → Bool) (written : String) :
    Except Usage Path :=
  let given := Path.Given.ofString written
  if written.isEmpty then .error (.badParameter none)
  else
    match w.tree.reach (w.cwd.join { given.path with parts := given.steps }) with
    | .ok r => if sort r.entry then .ok given.path else .error (.badParameter none)
    | .error _ => .error (.badParameter none)

/-- A file that has to exist. -/
def fileArgument (w : Workspace) (written : String) : Except Usage Path :=
  checkedPath w FileTree.isFileEntry written

/-- A number that has to be at least one. -/
def numberArgument (written : String) : Except Usage Nat :=
  match Text.integer? written.toList with
  | some (.ofNat n) => if 1 ≤ n then .ok n else .error (.badParameter none)
  | _ => .error (.badParameter none)

/-- Arguments that are still to be read. -/
abbrev Arguments := StateT (List String) (Except Usage)

/-- Reads one required argument. -/
def required {α : Type} (read : String → Except Usage α) : Arguments α := do
  match ← get with
  | [] => throw .missingParameter
  | arg :: rest =>
    let value ← (read arg : Except Usage α)
    set rest
    return value

/-- The project's directory. -/
def rootOf (w : Workspace) (p : Parsed) : Except Usage Path :=
  match p.value? "--root" with
  | none => .ok ⟨.none, []⟩
  | some written => checkedPath w FileTree.isDirectoryEntry written

/-- Reads the arguments of a command: the project's directory first if it is given, then the
command's own arguments in order; what is left over is too much. -/
def complete (w : Workspace) (opts : List Opt) (args : List String)
    (read : Parsed → Arguments Command) : Except Usage Request := do
  let p ← scan (helpOption :: rootOption :: opts) true args {}
  if p.has "--help" then return ⟨.help, ⟨.none, []⟩⟩
  let root ← rootOf w p
  let (command, extra) ← (read p).run p.positional
  if !extra.isEmpty then throw .other
  return ⟨command, root⟩

/-- Reads a command about settings. -/
def parseSettings (w : Workspace) (args : List String) : Except Usage Request := do
  let p ← scan [helpOption] false args {}
  if args.isEmpty || p.has "--help" then return ⟨.help, ⟨.none, []⟩⟩
  match p.positional with
  | "show" :: rest => complete w [] rest fun _ => return .showSettings
  | "init" :: rest => complete w [forceOption] rest fun p => return .initSettings (p.has "--force")
  | _ => throw .other

/-- Reads a command line. -/
def parse (w : Workspace) (args : List String) : Except Usage Request := do
  let p ← scan [helpOption, versionOption, { long := "--install-completion" },
    { long := "--show-completion" }] false args {}
  if args.isEmpty then return ⟨.help, ⟨.none, []⟩⟩
  match p.options.find? fun (name, _) => name == "--version" || name == "--help" with
  | some (name, _) => return ⟨if name == "--version" then .version else .help, ⟨.none, []⟩⟩
  | none =>
    match p.positional with
    | "definition" :: rest => complete w [debugOption] rest fun _ =>
      return .definition (← required fun key => .ok key)
    | "lookup" :: rest => complete w [debugOption] rest fun _ => do
      let file ← required (fileArgument w)
      let line ← required numberArgument
      let column ← required numberArgument
      return .lookup file line column
    | "references" :: rest => complete w [debugOption] rest fun _ =>
      return .references (← required (fileArgument w))
    | "keys" :: rest => complete w [debugOption] rest fun _ =>
      return .keys (← required (fileArgument w))
    | "di-files" :: rest => complete w [debugOption] rest fun _ => return .registryFiles
    | "config" :: rest => parseSettings w rest
    | _ => throw .other

end Command

end ServiceKeys
