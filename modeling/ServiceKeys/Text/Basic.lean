import ServiceKeys.Text.Blank

/-!
# Texts as lists of characters

Every offset, column and length of the library counts characters, so a text under analysis is a
list of characters.  This module holds the cuts that the rest is built from: trimming, splitting,
substring tests, replacement, and the line and column of an offset.
-/

namespace ServiceKeys.Text

/-! ## Trimming and splitting -/

/-- Drops the blanks in front. -/
def trimStart (cs : List Char) : List Char := cs.dropWhile isBlank

/-- Drops the longest tail of characters that satisfy `p`. -/
def dropEndWhile (p : Char → Bool) (cs : List Char) : List Char :=
  (cs.reverse.dropWhile p).reverse

/-- Drops the blanks on both sides. -/
def trim (cs : List Char) : List Char := dropEndWhile isBlank (trimStart cs)

/-- Cuts a text at every character that satisfies `p`; there is always one piece more than there
are cuts. -/
def splitBy (p : Char → Bool) : List Char → List (List Char)
  | [] => [[]]
  | c :: cs =>
    match p c, splitBy p cs with
    | true, pieces => [] :: pieces
    | false, [] => [[c]]
    | false, piece :: pieces => (c :: piece) :: pieces

/-- The pieces of a text between occurrences of one character. -/
def splitOn (sep : Char) (cs : List Char) : List (List Char) := splitBy (· == sep) cs

/-- The lines of a text: the pieces between line feeds. -/
def lines (cs : List Char) : List (List Char) := splitOn '\n' cs

/-- The maximal runs of characters that are not blanks. -/
def words (cs : List Char) : List (List Char) := (splitBy isBlank cs).filter (!·.isEmpty)

/-- Joins pieces with a separator between them. -/
def joinWith (sep : List Char) : List (List Char) → List Char
  | [] => []
  | [piece] => piece
  | piece :: pieces => piece ++ sep ++ joinWith sep pieces

/-- Splitting never yields an empty list of pieces. -/
theorem splitBy_ne_nil (p : Char → Bool) (cs : List Char) : splitBy p cs ≠ [] := by
  cases cs with
  | nil => simp [splitBy]
  | cons c cs =>
    rw [splitBy]
    split <;> simp

/-- Joining the pieces of a split with the separator gives the text back. -/
theorem joinWith_splitOn (sep : Char) (cs : List Char) :
    joinWith [sep] (splitOn sep cs) = cs := by
  unfold splitOn
  induction cs with
  | nil => rfl
  | cons c cs ih =>
    rw [splitBy]
    cases hp : (c == sep) with
    | true =>
      have hc : c = sep := by simpa using hp
      subst hc
      cases hs : splitBy (· == c) cs with
      | nil => exact absurd hs (splitBy_ne_nil _ _)
      | cons piece pieces => rw [hs] at ih; simp [joinWith, ih]
    | false =>
      cases hs : splitBy (· == sep) cs with
      | nil => exact absurd hs (splitBy_ne_nil _ _)
      | cons piece pieces =>
        rw [hs] at ih
        cases pieces <;> simp_all [joinWith]

/-! ## Substrings -/

/-- Whether a text contains another one. -/
def contains (part : List Char) : List Char → Bool
  | [] => part.isEmpty
  | c :: cs => part.isPrefixOf (c :: cs) || contains part cs

/-- A text contains another one exactly when it can be cut around it. -/
theorem contains_iff {part cs : List Char} :
    contains part cs = true ↔ ∃ a b, cs = a ++ part ++ b := by
  induction cs with
  | nil =>
    simp only [contains, List.isEmpty_iff]
    constructor
    · rintro rfl; exact ⟨[], [], rfl⟩
    · rintro ⟨a, b, h⟩; simp_all
  | cons c cs ih =>
    simp only [contains, Bool.or_eq_true, List.isPrefixOf_iff_prefix, ih]
    constructor
    · rintro (⟨b, hb⟩ | ⟨a, b, hab⟩)
      · exact ⟨[], b, by simpa using hb.symm⟩
      · exact ⟨c :: a, b, by simp [hab]⟩
    · rintro ⟨a, b, hab⟩
      cases a with
      | nil => exact Or.inl ⟨b, by simpa using hab.symm⟩
      | cons d a => simp only [List.cons_append, List.cons.injEq] at hab; exact Or.inr ⟨a, b, hab.2⟩

/-- Replaces occurrences of `part` from left to right; the first argument counts the characters of
an occurrence that are still to be passed over. -/
def replaceGo (part new : List Char) : Nat → List Char → List Char
  | _, [] => []
  | k + 1, _ :: cs => replaceGo part new k cs
  | 0, c :: cs =>
    if part.isPrefixOf (c :: cs) then new ++ replaceGo part new (part.length - 1) cs
    else c :: replaceGo part new 0 cs

/-- Replaces every occurrence of the non-empty `part`, from left to right and without overlap. -/
def replaceAll (part new cs : List Char) : List Char := replaceGo part new 0 cs

/-! ## Positions -/

/-- A place in a text: line and column, both counted from zero. -/
structure Position where
  line : Nat
  column : Nat
  deriving DecidableEq, Repr, Inhabited

/-- The line and column of an offset: how many line feeds stand before it, and how far it is from
the last of them. -/
def positionOf (cs : List Char) (offset : Nat) : Position :=
  let seen := cs.take offset
  { line := seen.count '\n', column := (seen.reverse.takeWhile (· != '\n')).length }

end ServiceKeys.Text
