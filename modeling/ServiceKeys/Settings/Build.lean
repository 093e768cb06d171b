import ServiceKeys.Settings.Basic
import ServiceKeys.Settings.Error
import ServiceKeys.Path.Drive
import ServiceKeys.Distinct

/-!
# Building settings

From loose values to settings.  Collections lose their duplicates and keep the first of each, a
single text stands for a collection of itself, templates may be written as tables or as short lists,
and numbers and switches are converted.  Only then is the meaning checked, in a fixed order, and the
first fault counts.
-/

namespace ServiceKeys

open Text (isIdentifier)

/-- The outcome of building settings. -/
abbrev Building := Except SettingsError

/-- Settings as they were given; what is absent keeps its built-in value. -/
structure Draft where
  registryGlobs : Option Value := none
  callForms : Option Value := none
  templates : Option Value := none
  includeGlobs : Option Value := none
  searchRoot : Option Value := none
  extensions : Option Value := none
  excludedDirs : Option Value := none
  debug : Option Value := none
  workers : Option Value := none
  deriving Repr, Inhabited

namespace Draft

/-- Gives one setting by its name. -/
def assign (d : Draft) (name : String) (v : Value) : Building Draft :=
  match name with
  | "di_file_globs" => .ok { d with registryGlobs := some v }
  | "call_syntaxes" => .ok { d with callForms := some v }
  | "registration_templates" => .ok { d with templates := some v }
  | "file_include_globs" => .ok { d with includeGlobs := some v }
  | "search_root" => .ok { d with searchRoot := some v }
  | "source_extensions" => .ok { d with extensions := some v }
  | "exclude_dirs" => .ok { d with excludedDirs := some v }
  | "debug" => .ok { d with debug := some v }
  | "max_workers" => .ok { d with workers := some v }
  | _ => .error (.unexpectedSetting name)

/-- Settings given by name. -/
def ofEntries (entries : List (String × Value)) : Building Draft :=
  entries.foldlM (fun d (name, v) => d.assign name v) {}

end Draft

/-! ## Converting values -/

namespace Value

/-- Adds a member at the end of a collection unless it is there already. -/
def addMember (members : List Value) (v : Value) : Building (List Value) :=
  if !v.isMember then .error (.notHashable v.kindName)
  else if members.any (·.sameMember v) then .ok members
  else .ok (members ++ [v])

/-- The members of a collection, the first of each kept. -/
def distinct (items : List Value) : Building (List Value) := items.foldlM addMember []

/-- A value as a collection without duplicates. -/
def asCollection : Value → Building (List Value)
  | .text s => .ok [.text s]
  | .list items => distinct items
  | .table entries => .ok (entries.map fun e => .text e.1)
  | v => .error (.notIterable v.kindName)

/-- The digits of a written integer. -/
def digitCount (s : String) : Nat := (s.toList.filter Text.isDecimalDigit).length

/-- A value as an integer. -/
def asInteger : Value → Building Int
  | .bool b => .ok (if b then 1 else 0)
  | .int i => .ok i
  | .float x =>
    match Decimal.parts x with
    | .nan => .error .integerOfNaN
    | .infinite _ => .error .integerOfInfinity
    | p => .ok (p.truncate.getD 0)
  | .text s =>
    match Text.integer? s.toList with
    | none => .error (.notAnInteger s)
    | some i => if 4300 < digitCount s then .error (.tooManyDigits (digitCount s)) else .ok i
  | v => .error (.noInteger v.kindName)

/-- A value as a template. -/
def asTemplate (v : Value) : Building Template :=
  match v with
  | .table entries =>
    match find? entries "template" with
    | none => .error (.entryWithoutTemplate v)
    | some source => .ok ⟨source.asText, ((find? entries "kind").map asText).getD "function"⟩
  | .list [source] => .ok ⟨source.asText, "function"⟩
  | .list [source, kind] => .ok ⟨source.asText, kind.asText⟩
  | _ => .error (.unreadableTemplate v)

/-- The values that may each be a template. -/
def templateItems : Value → Building (List Value)
  | .table entries => .ok [.table entries]
  | .list items => .ok items
  | .text s => .ok (s.toList.map fun c => .text (String.singleton c))
  | v => .error (.notIterable v.kindName)

/-- A value as a collection of templates without duplicates. -/
def asTemplates (v : Value) : Building (List Template) := do
  return ServiceKeys.distinct (← (← v.templateItems).mapM asTemplate)

/-- A value as a directory: a text without blanks around it and without separators at its end. -/
def asDirectory (v : Value) : String :=
  String.ofList (Text.dropEndWhile (fun c => c == '/' || c == '\\') (Text.trim v.asText.toList))

end Value

/-! ## Checking the meaning -/

namespace Settings

/-- The components of a path that may be written with either separator. -/
def looseComponents (cs : List Char) : List (List Char) :=
  Text.splitBy (fun c => c == '/' || c == '\\') cs

/-- Whether a relative path climbs. -/
def climbs (cs : List Char) : Bool := (looseComponents cs).contains ['.', '.']

/-- Checks a glob of registration files. -/
def checkRegistryGlob (v : Value) : Building String :=
  if !v.isTruthy then .error .emptyRegistryGlob
  else
    match v with
    | .text g =>
      if (Text.trim g.toList).isEmpty then .error .emptyRegistryGlob
      else if Path.isAnyAbsolute g.toList then .error (.absoluteRegistryGlob g)
      else if climbs g.toList then .error (.escapingRegistryGlob g)
      else .ok g
    | v => .error (.lacks v.kindName "strip")

/-- Checks a wildcard of target files. -/
def checkIncludeGlob (v : Value) : Building String :=
  if !v.isTruthy then .error .emptyIncludeGlob
  else
    match v with
    | .text g => .ok g
    | v => .error (.noLength v.kindName)

/-- The names of a dotted callee. -/
def callNames (form : List Char) : List (List Char) := (Text.splitOn '.' form).map Text.trim

/-- Checks a dotted callee. -/
def checkCallForm (v : Value) : Building String :=
  match v with
  | .text s => if (callNames s.toList).all isIdentifier then .ok s else .error (.badCallForm s)
  | v => .error (.lacks v.kindName "split")

/-- Checks an extension of source files. -/
def checkExtension (v : Value) : Building String :=
  match v with
  | .text e =>
    if e.toList.head? != some '.' || e.length < 2 then .error (.badExtension e) else .ok e
  | v => .error (.lacks v.kindName "startswith")

/-- Checks a template. -/
def checkTemplate (t : Template) : Building Unit :=
  match t.check with
  | .ok () => .ok ()
  | .error fault => .error (.badTemplate t fault)

/-- Reports a fault when a condition holds. -/
def refuseIf (condition : Bool) (e : SettingsError) : Building Unit :=
  if condition then .error e else .ok ()

/-- A collection given by a value, or its built-in texts. -/
def collection (v : Option Value) (builtin : List String) : Building (List Value) :=
  match v with
  | none => .ok (builtin.map .text)
  | some v => v.asCollection

/-- Settings from what was given. -/
def ofDraft (d : Draft) : Building Settings := do
  let registry ← collection d.registryGlobs default.registryGlobs
  let calls ← collection d.callForms default.callForms
  let includes ← collection d.includeGlobs default.includeGlobs
  let extensions ← collection d.extensions default.extensions
  let excludedDirs ← collection d.excludedDirs []
  let templates ← (d.templates.map Value.asTemplates).getD (.ok default.templates)
  let workers ← (d.workers.map Value.asInteger).getD (.ok default.workers)
  let debug := (d.debug.map Value.isTruthy).getD default.debug
  let searchRoot := (d.searchRoot.map Value.asDirectory).getD default.searchRoot
  refuseIf registry.isEmpty .noRegistryGlob
  let registryGlobs ← registry.mapM checkRegistryGlob
  let includeGlobs ← includes.mapM checkIncludeGlob
  refuseIf calls.isEmpty .noCallForm
  let callForms ← calls.mapM checkCallForm
  refuseIf templates.isEmpty .noTemplate
  let _ ← templates.mapM checkTemplate
  refuseIf (searchRoot != "" &&
    (Path.isAnyAbsolute searchRoot.toList || climbs searchRoot.toList))
    (.searchRootOutside searchRoot)
  let extensions ← extensions.mapM checkExtension
  refuseIf extensions.isEmpty .noExtension
  refuseIf (workers < 1) .tooFewWorkers
  return { registryGlobs, callForms, templates, includeGlobs, searchRoot, extensions,
           excludedDirs, debug, workers }

/-- Settings given by name. -/
def ofEntries (entries : List (String × Value)) : Building Settings := do
  ofDraft (← Draft.ofEntries entries)

end Settings

end ServiceKeys
