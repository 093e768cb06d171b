import ServiceKeys.Value.Shown

/-!
# Writing TOML

The layout in which configurations are saved: the plain entries of a table, then its arrays of
tables, each element under a header of its own and followed by an empty line, then its sub-tables.
Arrays stand on one line with a comma behind every item.
-/

namespace ServiceKeys.Toml

/-! ## Strings -/

/-- How one character of a string is escaped. -/
def escapedChar (c : Char) : List Char :=
  if c == '"' || c == '\\' then ['\\', c]
  else if c == '\t' then ['\\', 't']
  else if c == '\n' then ['\\', 'n']
  else if c == '\r' then ['\\', 'r']
  else if Text.isPrintable c then [c]
  else if c.toNat < 0x100 then '\\' :: 'x' :: Text.hexDigits 2 c.toNat
  else if c.toNat < 0x10000 then '\\' :: 'u' :: Text.hexDigits 4 c.toNat
  else '\\' :: 'U' :: Text.hexDigits 8 c.toNat

/-- The pieces of an escaped text between marks, a mark being a backslash and the letter `x`. -/
def splitMarks : List Char → List (List Char)
  | [] => [[]]
  | '\\' :: 'x' :: rest => [] :: splitMarks rest
  | c :: rest =>
    match splitMarks rest with
    | [] => [[c]]
    | piece :: pieces => (c :: piece) :: pieces

/-- Whether a mark behind a text keeps its letter: so it does behind a text that does not end in a
backslash, and behind an odd number of backslashes, the first character not counted. -/
def keepsLetter (text : List Char) : Bool :=
  text.getLast? != some '\\' ||
    ((text.drop 1).reverse.takeWhile (· == '\\')).length % 2 == 1

/-- One piece and the next with their mark respelled.  The backslash of the mark is gone and pairs of
backslashes before it are single ones. -/
def joinMarked (head piece : List Char) : List Char :=
  let head := Text.replaceAll ['\\', '\\'] ['\\'] head
  head ++ (if keepsLetter head then ['x'] else ['u', '0', '0']) ++ piece

/-- Respells the marks of a text, as the format has no escapes of two digits.  A mark with nothing
before it is dropped, and another piece has to follow then. -/
def respell : List Char → List (List Char) → Option (List Char)
  | head, [] => some head
  | [], [_] => none
  | [], head :: piece :: pieces => respell (joinMarked head piece) pieces
  | head, piece :: pieces => respell (joinMarked head piece) pieces

/-- A string in double quotes.  A few texts have no written form: those with a control character in
front, or another character of the same kind, and no further one. -/
def writtenString (s : String) : Option String :=
  match splitMarks (s.toList.flatMap escapedChar) with
  | [] => none
  | head :: pieces => (respell head pieces).map fun cs => String.ofList ('"' :: cs ++ ['"'])

/-! ## Values -/

/-- Doubles are written as messages show them, with exponents of one digit where that suffices. -/
def writtenFloat (x : Float) : String :=
  let shorten (mark : Char) (cs : List Char) := Text.replaceAll ['e', mark, '0'] ['e', mark] cs
  String.ofList (shorten '-' (shorten '+' (Value.floatStyle.write x).toList))

mutual

/-- A value on one line. -/
def writtenValue : Value → Option String
  | .null => writtenString "None"
  | .bool b => some (if b then "true" else "false")
  | .int i => some (String.ofList (Text.integerDigits i))
  | .float x => some (writtenFloat x)
  | .text s => writtenString s
  | .list items => (writtenItems items).map fun text => "[" ++ text ++ "]"
  | .table entries =>
    (writtenPairs entries).map fun pairs => "\x7b " ++ ", ".intercalate pairs ++ " \x7d"

/-- The items of an array, each with a blank before it and a comma behind it. -/
def writtenItems : List Value → Option String
  | [] => some ""
  | v :: vs => do return " " ++ (← writtenValue v) ++ "," ++ (← writtenItems vs)

/-- The entries of a table in braces. -/
def writtenPairs : List (String × Value) → Option (List String)
  | [] => some []
  | (k, v) :: rest => do return (k ++ " = " ++ (← writtenValue v)) :: (← writtenPairs rest)

end

/-! ## Documents -/

/-- A table. -/
def isTable : Value → Bool
  | .table _ => true
  | _ => false

/-- An array with a table in it. -/
def isArrayOfTables : Value → Bool
  | .list items => items.any isTable
  | _ => false

/-- Entries, each on a line of its own. -/
def writtenEntries (entries : List (String × Value)) : Option String := do
  let ls ← entries.mapM fun (k, v) => do return k ++ " = " ++ (← writtenValue v) ++ "\n"
  return String.join ls

/-- An element of an array of tables. -/
def writtenElement (header : String) (v : Value) : Option String := do
  let body ← match v with
    | .table entries => writtenEntries entries
    | _ => some ""
  return "[[" ++ header ++ "]]\n" ++ body ++ "\n"

/-- The elements of an array of tables. -/
def writtenArray (header : String) (v : Value) : Option String := do
  match v with
  | .list items => return String.join (← items.mapM (writtenElement header))
  | _ => return ""

/-- The plain entries of a section and, behind them, its arrays of tables. -/
def writtenBody (sectionName : String) (entries : List (String × Value)) : Option String := do
  let plain ← writtenEntries (entries.filter fun (_, v) => !isArrayOfTables v && !isTable v)
  let arrays ← (entries.filter fun (_, v) => isArrayOfTables v).mapM fun (k, v) =>
    writtenArray (sectionName ++ "." ++ k) v
  return plain ++ String.join arrays

/-- A document whose entries are sections.  An empty line stands between two sections. -/
def write (document : List (String × Value)) : Option String :=
  document.foldlM (fun text (name, v) =>
    match v with
    | .table entries => do
      let gap := if text.isEmpty || text.endsWith "\n\n" then "" else "\n"
      return text ++ gap ++ "[" ++ name ++ "]\n" ++ (← writtenBody name entries)
    | _ => some text) ""

end ServiceKeys.Toml
