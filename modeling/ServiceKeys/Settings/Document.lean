import ServiceKeys.Settings.Build

/-!
# Settings in a document

A configuration document has a table of patterns, which holds every setting but one, and a table
of logging, which holds the debug switch.  A document may leave out anything.  Settings are written
with everything in them.
-/

namespace ServiceKeys.Settings

/-- The settings of the table of patterns that are given under their own names. -/
def documentKeys : List String :=
  ["di_file_globs", "call_syntaxes", "file_include_globs", "search_root", "source_extensions",
   "exclude_dirs", "max_workers"]

/-- Names in order, without duplicates. -/
def sortedNames (names : List String) : List String :=
  (names.mergeSort fun a b => decide (a ≤ b))

/-- The entries of a table under the given keys, in the order of the keys. -/
def pick (keys : List String) (entries : List (String × Value)) : List (String × Value) :=
  keys.filterMap fun k => (Value.find? entries k).map fun v => (k, v)

/-- Reports the faults of values as faults of the document. -/
def inDocument (r : Building Settings) : Building Settings :=
  match r with
  | .ok s => .ok s
  | .error e =>
    match e.toClass with
    | .wrongKind | .wrongValue => .error (.invalidValue e)
    | _ => .error e

/-- The debug switch of a document, if the document has one. -/
def debugEntry (document : List (String × Value)) : List (String × Value) :=
  match Value.find? document "logging" with
  | some (.table logging) =>
    match Value.find? logging "debug" with
    | some v => [("debug", .bool v.isTruthy)]
    | none => []
  | _ => []

/-- The settings of a document. -/
def ofDocument (document : List (String × Value)) : Building Settings :=
  match (Value.find? document "patterns").getD (.table []) with
  | .table entries =>
    let unknown := (entries.map Prod.fst).filter fun k =>
      k != "registration" && !documentKeys.contains k
    if !unknown.isEmpty then .error (.unknownSettings (sortedNames unknown))
    else
      let templates := match Value.find? entries "registration" with
        | some v => [("registration_templates", v)]
        | none => []
      inDocument (ofEntries (pick documentKeys entries ++ templates ++ debugEntry document))
  | _ => .error .sectionNotTable

/-- The table of a template. -/
def templateEntry (t : Template) : Value :=
  .table [("template", .text t.source), ("kind", .text t.kind)]

/-- The document of settings. -/
def toDocument (s : Settings) : List (String × Value) :=
  let texts (ss : List String) : Value := .list (ss.map .text)
  [("patterns", .table [
      ("di_file_globs", texts s.registryGlobs),
      ("call_syntaxes", texts s.callForms),
      ("file_include_globs", texts s.includeGlobs),
      ("search_root", .text s.searchRoot),
      ("source_extensions", texts s.extensions),
      ("exclude_dirs", .list s.excludedDirs),
      ("max_workers", .int s.workers),
      ("registration", .list (s.templates.map templateEntry))]),
   ("logging", .table [("debug", .bool s.debug)])]

end ServiceKeys.Settings
