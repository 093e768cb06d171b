import ServiceKeys.Failure

/-!
# Registrations

What a registration file says: which references a key stands for, and under which keys a symbol is
registered.  Templates are tried in their order, and each finds its matches from left to right.
-/

namespace ServiceKeys

/-- A registration that was found. -/
structure Registration where
  key : String
  reference : String
  kind : String
  deriving DecidableEq, Repr, Inhabited

namespace Registration

/-- What can go wrong is a failure of the lookup. -/
abbrev Extraction := Except Failure

/-- A template's pattern, or the failure that it cannot be read. -/
def compiled (t : Template) (p : Except Template.Fault Regex.Pattern) : Extraction Regex.Pattern :=
  p.mapError fun fault => .settings (.badTemplate t fault)

/-- What a named group of a match remembers; nothing if it took no part. -/
def groupNamed (p : Regex.Pattern) (m : Regex.Match) (name : String) :
    Extraction (Option (List Char)) :=
  match p.groupIndex? name with
  | none => .error .noSuchGroup
  | some index => .ok (m.group? index)

/-- The registration of a match, unless its reference is blank. -/
def ofMatch (t : Template) (key : String) (p : Regex.Pattern) (m : Regex.Match) :
    Extraction (Option Registration) := do
  match ← groupNamed p m "ref" with
  | none => throw .absentReference
  | some text =>
    let reference := Text.trim text
    return if reference.isEmpty then none else some ⟨key, String.ofList reference, t.kind⟩

/-- The registrations of a key that one template finds. -/
def forwardWith (t : Template) (content : List Char) (key : String) :
    Extraction (List Registration) := do
  let p ← compiled t (t.forward key.toList)
  let found ← (Regex.findAll p.body content).mapM (ofMatch t key p)
  return found.filterMap id

/-- The registrations of a key in a text: by template, then by place. -/
def forward (templates : List Template) (content : List Char) (key : String) :
    Extraction (List Registration) := do
  return (← templates.mapM fun t => forwardWith t content key).flatten

/-- The keys under which one template finds a symbol. -/
def reverseWith (t : Template) (content : List Char) (symbol : String) :
    Extraction (List (Option String)) := do
  let p ← compiled t (t.reverse symbol.toList)
  (Regex.findAll p.body content).mapM fun m => do
    return (← groupNamed p m "key").map String.ofList

/-- The keys under which symbols are registered in a text: by template, then by symbol, then by
place, without duplicates.  A key that took no part in the match is absent. -/
def reverse (templates : List Template) (content : List Char) (symbols : List String) :
    Extraction (List (Option String)) := do
  let symbols := distinct symbols
  let found ← templates.mapM fun t => do
    return (← symbols.mapM fun s => reverseWith t content s).flatten
  return distinct found.flatten

end Registration

end ServiceKeys
