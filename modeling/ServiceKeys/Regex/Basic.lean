import ServiceKeys.Regex.CharSet

/-!
# Patterns

The tree of a regular expression as a backtracking matcher reads it.  The order of alternatives
and the mode of a repetition are part of a pattern's meaning: they decide which of several matches
is found first.
-/

namespace ServiceKeys

/-- How a repetition picks the number of rounds. -/
inductive Regex.Mode where
  /-- As many rounds as possible, fewer if the rest of the pattern asks for it. -/
  | greedy
  /-- As few rounds as possible, more if the rest of the pattern asks for it. -/
  | reluctant
  /-- As many rounds as possible, and never fewer. -/
  | possessive
  deriving DecidableEq, Repr

/-- A condition on a place between two characters. -/
inductive Regex.Anchor where
  /-- The start of the text. -/
  | textStart
  /-- The start of a line. -/
  | lineStart
  /-- The end of the text. -/
  | textEnd
  /-- The end of the text, or the place before a line feed that ends it. -/
  | lastLineEnd
  /-- The end of a line. -/
  | lineEnd
  /-- An edge, or not an edge, of a run of word characters. -/
  | wordEdge (ascii : Bool) (negated : Bool)
  deriving DecidableEq, Repr

/-- A pattern. -/
inductive Regex where
  /-- The empty text. -/
  | empty
  /-- One character of a set. -/
  | one (s : Regex.CharSet)
  /-- A run of characters of a set, at least `lo` and at most `hi` of them. -/
  | span (s : Regex.CharSet) (lo : Nat) (hi : Option Nat) (mode : Regex.Mode)
  /-- One pattern after the other. -/
  | seq (a b : Regex)
  /-- One pattern or, failing that, the other. -/
  | alt (a b : Regex)
  /-- A numbered group: the text of its last round is remembered. -/
  | group (index : Nat) (r : Regex)
  /-- The text remembered by a group, up to a case rule. -/
  | recall (index : Nat) (rule : Regex.CaseRule)
  /-- Rounds of a pattern, at least `lo` and at most `hi` of them. -/
  | loop (r : Regex) (lo : Nat) (hi : Option Nat) (mode : Regex.Mode)
  /-- The first match of a pattern, with no way back into it. -/
  | atomic (r : Regex)
  /-- A condition on the text ahead, or on the `back` characters just passed. -/
  | look (back : Option Nat) (positive : Bool) (r : Regex)
  /-- One of two patterns, by whether a group has taken part so far. -/
  | branch (index : Nat) (yes no : Regex)
  /-- A condition on the place. -/
  | anchor (a : Regex.Anchor)
  deriving DecidableEq, Repr

namespace Regex

/-- The patterns of a list, one after the other. -/
def ofList : List Regex → Regex
  | [] => .empty
  | [r] => r
  | r :: rs => .seq r (ofList rs)

/-- The patterns of a list as alternatives, the first one preferred. -/
def anyOf : List Regex → Regex
  | [] => .empty
  | [r] => r
  | r :: rs => .alt r (anyOf rs)

/-- One given character. -/
def char (c : Char) : Regex := .one (.single c)

/-- A given text. -/
def literal (cs : List Char) : Regex := ofList (cs.map char)

/-- Any number of blanks, as many as possible. -/
def blanks : Regex := .span .blank 0 none .greedy

/-- At least one blank, as many as possible. -/
def blanks1 : Regex := .span .blank 1 none .greedy

/-- A pattern or nothing, the pattern preferred. -/
def maybe (r : Regex) : Regex := .loop r 0 (some 1) .greedy

/-- The character before is not one of the set. -/
def notAfter (s : CharSet) : Regex := .look (some 1) false (.one s)

/-- The character ahead is not one of the set. -/
def notBefore (s : CharSet) : Regex := .look none false (.one s)

/-! ## Width -/

/-- The least and the greatest number of characters that a pattern can match. -/
structure Width where
  least : Nat
  most : Nat
  deriving DecidableEq, Repr, Inhabited

/-- Widths are not told apart beyond this bound. -/
def Width.cap : Nat := Nat.pow 2 64

/-- The greatest count that a written repetition may have. -/
def repeatLimit : Nat := Nat.pow 2 32 - 1

/-- The width of a repetition of something of width `w`. -/
def Width.times (w : Width) (lo : Nat) (hi : Option Nat) : Width :=
  { least := min (w.least * lo) cap
    most := match hi with
      | some h => min (w.most * h) cap
      | none => if w.most = 0 then 0 else cap }

/-- The width of one thing after another. -/
def Width.add (a b : Width) : Width :=
  { least := min (a.least + b.least) cap, most := min (a.most + b.most) cap }

/-- The width of one thing or another. -/
def Width.either (a b : Width) : Width :=
  { least := min a.least b.least, most := max a.most b.most }

/-- The width of a pattern, given the widths of the groups it recalls. -/
def width (groups : Nat → Width) : Regex → Width
  | .empty => ⟨0, 0⟩
  | .one _ => ⟨1, 1⟩
  | .span _ lo hi _ => Width.times ⟨1, 1⟩ lo hi
  | .seq a b => (a.width groups).add (b.width groups)
  | .alt a b => (a.width groups).either (b.width groups)
  | .group _ r => r.width groups
  | .recall i _ => groups i
  | .loop r lo hi _ => (r.width groups).times lo hi
  | .atomic r => r.width groups
  | .look _ _ _ => ⟨0, 0⟩
  | .branch _ yes no => (yes.width groups).either (no.width groups)
  | .anchor _ => ⟨0, 0⟩

end Regex

end ServiceKeys
