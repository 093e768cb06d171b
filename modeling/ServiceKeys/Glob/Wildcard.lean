import ServiceKeys.Regex.CharSet

/-!
# Wildcards

A wildcard pattern matches a whole text: `*` stands for any run of characters, `?` for any one
character, and brackets for one character of a set, which an exclamation mark complements.  A
bracket without a partner stands for itself, and there is no way to quote a character other than
putting it into a set.
-/

namespace ServiceKeys.Glob

open ServiceKeys.Regex (CharSet SetItem)

/-- A piece of a wildcard pattern. -/
inductive Piece where
  /-- Any run of characters. -/
  | star
  /-- One character of a set. -/
  | one (s : CharSet)
  deriving DecidableEq, Repr

/-! ## Sets in brackets -/

/-- The content of a set and the number of characters up to its closing bracket, given what follows
the opening one.  A bracket that comes first, or right behind an exclamation mark, is a member. -/
def bracketed? (cs : List Char) : Option (List Char) :=
  let front := match cs with
    | '!' :: ']' :: _ => 2
    | '!' :: _ => 1
    | ']' :: _ => 1
    | _ => 0
  let rest := cs.drop front
  if rest.contains ']' then some (cs.take front ++ rest.takeWhile (· != ']')) else none

/-- Cuts the content of a set at the hyphens that form ranges.  `wait` counts the characters that
are members in any case: the first one, and the one behind each such hyphen with its successor. -/
def chunksGo : (wait : Nat) → (chunk : List Char) → List Char → List (List Char)
  | _, chunk, [] => [chunk.reverse]
  | 0, chunk, '-' :: cs => chunk.reverse :: chunksGo 2 [] cs
  | wait, chunk, c :: cs => chunksGo (wait - 1) (c :: chunk) cs

/-- The chunks of a set between the hyphens that form ranges; a hyphen at the end is a member. -/
def chunks (content : List Char) : List (List Char) :=
  let wait := if content.head? == some '!' then 2 else 1
  let cut := chunksGo wait [] content
  match cut.reverse with
  | [] :: last :: front => ((last ++ ['-']) :: front).reverse
  | _ => cut

/-- Drops the ranges that end before they start, from the right: the two chunks around such a
hyphen are joined without the ends of the range. -/
def dropEmptyRanges : List (List Char) → List (List Char)
  | [] => []
  | chunk :: rest =>
    match dropEmptyRanges rest with
    | [] => [chunk]
    | next :: more =>
      match chunk.getLast?, next.head? with
      | some a, some b => if b < a then (chunk.dropLast ++ next.drop 1) :: more
          else chunk :: next :: more
      | _, _ => chunk :: next :: more

/-- The chunks as one sequence, with `none` for each hyphen between two of them. -/
def marked : List (List Char) → List (Option Char)
  | [] => []
  | [chunk] => chunk.map some
  | chunk :: rest => chunk.map some ++ none :: marked rest

/-- The members of a set.  A hyphen with nothing before it is a member itself. -/
def members : List (Option Char) → List SetItem
  | [] => []
  | some a :: none :: some b :: rest => .range a.toNat b.toNat :: members rest
  | some a :: rest => .char a :: members rest
  | none :: rest => .char '-' :: members rest

/-- The set of a bracketed content. -/
def setOf (content : List Char) : CharSet :=
  match marked (dropEmptyRanges (chunks content)) with
  | some '!' :: rest => { items := members rest, negated := true }
  | all => { items := members all }

/-! ## Patterns -/

/-- Reads a pattern; the first argument counts the characters of a set that are still to be passed
over. -/
def piecesGo : Nat → List Char → List Piece
  | _, [] => []
  | skip + 1, _ :: cs => piecesGo skip cs
  | 0, '*' :: cs => .star :: piecesGo 0 cs
  | 0, '?' :: cs => .one (.noneOf []) :: piecesGo 0 cs
  | 0, '[' :: cs =>
    match bracketed? cs with
    | some content => .one (setOf content) :: piecesGo (content.length + 1) cs
    | none => .one (.single '[') :: piecesGo 0 cs
  | 0, c :: cs => .one (.single c) :: piecesGo 0 cs

/-- The pieces of a pattern. -/
def pieces (pattern : List Char) : List Piece := piecesGo 0 pattern

/-- Whether some tail of a text satisfies `p`. -/
def anyTail (p : List Char → Bool) : List Char → Bool
  | [] => p []
  | c :: cs => p (c :: cs) || anyTail p cs

/-- Whether pieces match a whole text. -/
def matchPieces : List Piece → List Char → Bool
  | [], cs => cs.isEmpty
  | .star :: ps, cs => anyTail (matchPieces ps) cs
  | .one _ :: _, [] => false
  | .one s :: ps, c :: cs => s.accepts c && matchPieces ps cs

/-- Whether a pattern matches a whole text. -/
def wildcard (pattern text : List Char) : Bool := matchPieces (pieces pattern) text

end ServiceKeys.Glob
