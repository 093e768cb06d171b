import ServiceKeys.Template.Basic
import ServiceKeys.Value.Basic
import ServiceKeys.Glob.Wildcard

/-!
# Settings

Everything that drives a lookup: which files hold registrations, what a resolving call looks like,
the shapes of registrations, which files may be targets, and where to search.
-/

namespace ServiceKeys

/-- The settings of a lookup. -/
structure Settings where
  /-- Globs of the files that hold registrations, relative to the project. -/
  registryGlobs : List String
  /-- Dotted callees that resolve a key. -/
  callForms : List String
  templates : List Template
  /-- Wildcards of the files that may be registered; none means all. -/
  includeGlobs : List String
  /-- The directory, relative to the project, that is searched for calls. -/
  searchRoot : String
  /-- The extensions of source files, dot included. -/
  extensions : List String
  /-- Names of directories that are not entered.  Only texts can be names; other values are kept as
  they were given. -/
  excludedDirs : List Value
  debug : Bool
  /-- How many files may be scanned at the same time. -/
  workers : Int
  deriving Repr, Inhabited

namespace Settings

/-- The built-in settings. -/
def default : Settings :=
  { registryGlobs := ["src/core/*/_di/index.ts", "src/core/Shared/_di/registerModules.ts"]
    callForms := ["container.resolve"]
    templates := Template.builtin
    includeGlobs := ["*/usecases/*", "*/infrastructure/*"]
    searchRoot := "src"
    extensions := [".ts", ".tsx", ".js", ".jsx"]
    excludedDirs := []
    debug := false
    workers := 4 }

/-- Whether a file, given by its displayed path, may be registered. -/
def includes (s : Settings) (path : String) : Bool :=
  let candidate := '/' :: path.toList.dropWhile (· == '/')
  s.includeGlobs.isEmpty || s.includeGlobs.any fun g => Glob.wildcard g.toList candidate

end Settings

end ServiceKeys
