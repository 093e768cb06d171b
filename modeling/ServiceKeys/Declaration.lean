import ServiceKeys.Regex.Search
import ServiceKeys.Text.Basic

/-!
# Declarations

Where a symbol is declared in a source file.  A declaration starts a line; each line is tried
against the shapes in a fixed order, and the first line that fits one of them wins.
-/

namespace ServiceKeys.Declaration

open Regex Text

/-- A symbol that is not followed by a word character or a dollar sign. -/
def nameEnd (symbol : List Char) : Regex := .seq (.literal symbol) (notBefore (.wordOr ['$']))

/-- A symbol as a whole word. -/
def wholeName (symbol : List Char) : Regex := .seq (notAfter (.wordOr ['$'])) (nameEnd symbol)

/-- A given word. -/
def word (w : String) : Regex := .literal w.toList

/-- A given word with blanks behind it, or nothing. -/
def optional (w : String) : Regex := maybe (.seq (word w) blanks1)

/-- The words that declare a variable. -/
def variableWord : Regex := anyOf [word "const", word "let", word "var"]

/-- The word that declares a function, and the star of a generator. -/
def functionWord : List Regex := [word "function", blanks, maybe (.char '*'), blanks]

/-- The shapes of a declaration of a symbol, with the words that describe them, in the order in
which they are tried. -/
def shapes (symbol : List Char) : List (String × Regex) :=
  let name := nameEnd symbol
  let exported := [word "export", blanks1]
  let shape (parts : List Regex) := ofList (.anchor .textStart :: blanks :: parts)
  [("exported const", shape (exported ++ [optional "declare", variableWord, blanks1, name])),
   ("exported function",
     shape (exported ++ [optional "default", optional "declare", optional "async"] ++
       functionWord ++ [name])),
   ("exported class",
     shape (exported ++
       [optional "default", optional "declare", optional "abstract", word "class", blanks1, name])),
   ("default export", shape (exported ++ [word "default", blanks1, name])),
   ("local const", shape [variableWord, blanks1, name]),
   ("local function", shape ([optional "async"] ++ functionWord ++ [name])),
   ("local class", shape [optional "abstract", word "class", blanks1, name]),
   ("export list",
     shape [word "export", blanks, maybe (.seq (word "type") blanks), .char '\x7b',
       .span (.noneOf ['\x7d']) 0 none .greedy, wholeName symbol])]

/-- A default export, whatever its name. -/
def bareDefault : Regex :=
  ofList [.anchor .textStart, blanks, word "export", blanks1, word "default",
    .anchor (.wordEdge false false)]

/-- A declaration that was found: the words for its shape, unless it is a default export taken
without looking at its name, and its place. -/
structure Found where
  shape : Option String
  position : Position
  deriving DecidableEq, Repr

/-- The offset of the first occurrence of a text in a line that has one. -/
def offsetOf (part : List Char) : List Char → Nat
  | [] => 0
  | c :: cs => if part.isPrefixOf (c :: cs) then 0 else offsetOf part cs + 1

/-- The declaration on a line: its shape and its column. -/
def onLine? (symbol : List Char) (defaultExport : Bool) (line : List Char) :
    Option (Option String × Nat) :=
  match (shapes symbol).find? fun (_, r) => (matchStart? r line).isSome with
  | some (label, _) =>
    some (some label, ((search? (wholeName symbol) line).map Match.first).getD 0)
  | none =>
    if defaultExport && (matchStart? bareDefault line).isSome then
      some (none, offsetOf "default".toList line)
    else none

/-- The first line with a declaration, counted from `n`. -/
def firstLine? (symbol : List Char) (defaultExport : Bool) (n : Nat) :
    List (List Char) → Option Found
  | [] => none
  | line :: rest =>
    match onLine? symbol defaultExport line with
    | some (shape, column) => some ⟨shape, ⟨n, column⟩⟩
    | none => firstLine? symbol defaultExport (n + 1) rest

/-- Where a symbol is declared in a text.  With `defaultExport`, a default export counts as well,
whatever its name. -/
def locate? (content symbol : List Char) (defaultExport : Bool) : Option Found :=
  firstLine? symbol defaultExport 0 (lines content)

end ServiceKeys.Declaration
