import ServiceKeys.Regex.Search
import ServiceKeys.Text.Basic
import ServiceKeys.Distinct

/-!
# Resolving calls

A call form is a dotted callee such as `container.resolve`.  A call of it has blanks wherever the
language allows them, possibly optional chaining and type arguments, and a single argument: the key
between quotes.  This module finds calls in a text, and the key under a cursor on a line.
-/

namespace ServiceKeys.Call

open Regex Text

/-! ## Patterns -/

/-- The three kinds of quotes. -/
def quotes : CharSet := .oneOf ['\x27', '"', '`']

/-- The dot between two names of a callee: blanks around it, a question mark before it. -/
def dot : Regex := ofList [blanks, maybe (.char '?'), .char '.', blanks]

/-- Names with dots between them. -/
def dotted : List (List Char) → List Regex
  | [] => []
  | [name] => [.literal name]
  | name :: names => .literal name :: dot :: dotted names

/-- The characters of type arguments between brackets. -/
def typeText : Regex := .span (.noneOf ['<', '>', '(', ')']) 0 none .greedy

/-- Type arguments in angle brackets, nested at most once, or nothing. -/
def typeArguments : Regex :=
  maybe (ofList [blanks, .char '<', typeText,
    .loop (ofList [.char '<', typeText, .char '>', typeText]) 0 none .greedy, .char '>'])

/-- The argument of a call: the key between two equal quotes, alone in parentheses. -/
def argument (key : List Char) : List Regex :=
  [typeArguments, blanks, .char '(', blanks, .group 1 (.one quotes), .literal key,
    .recall 1 .exact, blanks, .char ')']

/-- The names of a call form. -/
def names (form : List Char) : List (List Char) := (splitOn '.' form).map trim

/-- A call of a form with a given key. -/
def pattern (form key : List Char) : Regex :=
  ofList (notAfter (.wordOr ['$']) :: dotted (names form) ++ argument key)

/-- A call whose receiver stands on a line before: the last name of a form, a dot in front of
it. -/
def continuation (form key : List Char) : Regex :=
  ofList ([.anchor .textStart, blanks, maybe (.char '?'), .char '.', blanks,
    .literal ((names form).getLast?.getD [])] ++ argument key)

/-- A key between two equal quotes. -/
def quotedKey : Regex :=
  ofList [.group 1 (.one quotes), .group 2 (.span (.wordOr ['$', '.', ':', '-']) 1 none .greedy),
    .recall 1 .exact]

/-! ## The key under a cursor -/

/-- Whether a literal stands inside of the first match of a pattern on its line. -/
def encloses (r : Regex) (line : List Char) (literal : Match) : Bool :=
  (search? r line).any fun call => call.first ≤ literal.first && literal.stop ≤ call.stop

/-- The key of a literal that is the argument of a call of one of the forms. -/
def keyOf? (line : List Char) (forms : List (List Char)) (literal : Match) : Option (List Char) :=
  (literal.group? 2).filter fun key =>
    forms.any fun form =>
      encloses (pattern form key) line literal || encloses (continuation form key) line literal

/-- The key under a column of a line, if it is the argument of a call of one of the forms. -/
def keyAt? (line : List Char) (column : Int) (forms : List (List Char)) : Option (List Char) :=
  ((findAll quotedKey line).filter fun m =>
    (m.first : Int) ≤ column && column ≤ (m.stop : Int)).findSome? (keyOf? line forms)

/-! ## Calls in a text -/

/-- A call in a text: where it starts, where it ends, and its text. -/
structure Site where
  start : Position
  stop : Position
  text : String
  deriving DecidableEq, Repr, Inhabited

/-- The calls on the single lines, counted from `n`. -/
def lineSites (r : Regex) (n : Nat) : List (List Char) → List Site
  | [] => []
  | line :: rest =>
    (findAll r line).map (fun m =>
      { start := ⟨n, m.first⟩, stop := ⟨n, m.stop⟩, text := String.ofList m.text }) ++
      lineSites r (n + 1) rest

/-- The calls in the whole text, over line ends. -/
def textSites (r : Regex) (content : List Char) : List Site :=
  (findAll r content).map fun m =>
    { start := positionOf content m.first, stop := positionOf content m.stop,
      text := String.ofList m.text }

/-- The order of places. -/
def positionLe (a b : Position) : Bool :=
  a.line < b.line || (a.line == b.line && a.column ≤ b.column)

/-- The calls in a text, each start reported once, in order of their starts. -/
def sites (content : List Char) (patterns : List Regex) : List Site :=
  let found := patterns.flatMap fun r => lineSites r 0 (lines content) ++ textSites r content
  (distinctBy Site.start found).mergeSort fun a b => positionLe a.start b.start

end ServiceKeys.Call
