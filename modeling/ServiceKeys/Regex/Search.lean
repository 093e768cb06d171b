import ServiceKeys.Regex.Matcher

/-!
# Searching

A search takes the leftmost place at which a pattern matches and, there, its preferred match.  All
matches of a text are found from left to right without overlap: after a match the search goes on
where it ended, and after an empty match it goes on at the same place, where only a match that moves
is then allowed.
-/

namespace ServiceKeys.Regex

/-- A match: where it began, and the matcher's state at its end. -/
structure Match where
  start : Cursor
  final : State
  deriving DecidableEq, Repr

/-- The offset of the first character. -/
def Match.first (m : Match) : Nat := m.start.pos

/-- The offset just after the last character. -/
def Match.stop (m : Match) : Nat := m.final.cursor.pos

/-- The text matched. -/
def Match.text (m : Match) : List Char := m.start.after.take (m.stop - m.first)

/-- The text that a group remembers, if it has taken part. -/
def Match.group? (m : Match) (index : Nat) : Option (List Char) :=
  (m.final.capture? index).map Capture.text

/-- The preferred match at a cursor; with `mustMove`, the preferred one that is not empty. -/
def matchAt (r : Regex) (mustMove : Bool) (cur : Cursor) : Option Match :=
  (run r { cursor := cur } fun st =>
    if mustMove && st.cursor.pos == cur.pos then none else some st).map (Match.mk cur)

/-- Looks for the leftmost match from a place on; `mustMove` concerns that place alone. -/
def searchGo (r : Regex) (mustMove : Bool) (before : List Char) (pos : Nat) :
    List Char → Option Match
  | [] => matchAt r mustMove ⟨before, [], pos⟩
  | c :: after =>
    match matchAt r mustMove ⟨before, c :: after, pos⟩ with
    | some m => some m
    | none => searchGo r false (c :: before) (pos + 1) after

/-- The leftmost match from a cursor on. -/
def searchFrom (r : Regex) (mustMove : Bool) (cur : Cursor) : Option Match :=
  searchGo r mustMove cur.before cur.pos cur.after

/-- The leftmost match in a text. -/
def search? (r : Regex) (text : List Char) : Option Match := searchFrom r false (.start text)

/-- The match at the very start of a text. -/
def matchStart? (r : Regex) (text : List Char) : Option Match := matchAt r false (.start text)

/-- Collects matches from a cursor on, at most as many as the bound says. -/
def findAllGo (r : Regex) : Nat → (mustMove : Bool) → Cursor → List Match
  | 0, _, _ => []
  | bound + 1, mustMove, cur =>
    match searchFrom r mustMove cur with
    | none => []
    | some m => m :: findAllGo r bound (m.stop == m.first) m.final.cursor

/-- All matches in a text.  Every place bears at most one empty match and begins at most one other,
so twice the number of places bounds them. -/
def findAll (r : Regex) (text : List Char) : List Match :=
  findAllGo r (2 * text.length + 2) false (.start text)

/-- A pattern read from its written form, with the names of its groups. -/
structure Pattern where
  body : Regex
  names : List (String × Nat) := []
  deriving DecidableEq, Repr

/-- The number of the group with a given name. -/
def Pattern.groupIndex? (p : Pattern) (name : String) : Option Nat := p.names.lookup name

end ServiceKeys.Regex
