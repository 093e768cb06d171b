import ServiceKeys.Text.Letter
import ServiceKeys.Text.Digit
import ServiceKeys.Text.Blank
import ServiceKeys.Text.LowerCase

/-!
# Character sets

The leaf of every pattern is a test on one character: a union of code-point ranges and categories,
possibly complemented, possibly up to letter case.  Case is disregarded by lowering the character
under test, so a set that disregards case lists the lower-case form of each of its members and
every further lower-case character with the same upper-case form.
-/

namespace ServiceKeys.Regex

open ServiceKeys.Text

/-- The categories that a pattern can name. -/
inductive Category where
  | digit
  | blank
  | word
  deriving DecidableEq, Repr

/-- Membership in a category, in all of Unicode or in ASCII only. -/
def Category.holds : Category → (ascii : Bool) → Char → Bool
  | .digit, false, c => isDecimalDigit c
  | .digit, true, c => c.isDigit
  | .blank, false, c => isBlank c
  | .blank, true, c => isAsciiBlank c
  | .word, false, c => isWord c
  | .word, true, c => isAsciiWord c

/-- A member of a character set. -/
inductive SetItem where
  /-- The code points from `lo` to `hi`. -/
  | range (lo hi : Nat)
  /-- The characters inside, or outside, of a category. -/
  | category (k : Category) (ascii : Bool) (negated : Bool)
  deriving DecidableEq, Repr

/-- The item of a single code point. -/
def SetItem.code (n : Nat) : SetItem := .range n n

/-- The item of a single character. -/
def SetItem.char (c : Char) : SetItem := .code c.toNat

/-- Whether a character belongs to an item. -/
def SetItem.holds : SetItem → Char → Bool
  | .range lo hi, c => lo ≤ c.toNat && c.toNat ≤ hi
  | .category k ascii negated, c => k.holds ascii c != negated

/-- How far letter case is disregarded. -/
inductive CaseRule where
  | exact
  | asciiFold
  | unicodeFold
  deriving DecidableEq, Repr, Inhabited

/-- The form of a character that is compared under a case rule. -/
def CaseRule.fold : CaseRule → Char → Char
  | .exact, c => c
  | .asciiFold, c => c.toLower
  | .unicodeFold, c => lowerChar c

/-- A set of characters. -/
structure CharSet where
  items : List SetItem
  negated : Bool := false
  rule : CaseRule := .exact
  deriving DecidableEq, Repr

/-- Whether a character belongs to a set. -/
def CharSet.accepts (s : CharSet) (c : Char) : Bool :=
  s.items.any (·.holds (s.rule.fold c)) != s.negated

/-! ## Sets that disregard case -/

/-- The lower-case characters that share their upper-case form with another lower-case
character. -/
def sharedUpper : List (Nat × List Nat) := [
  (0x69, [0x131]), (0x73, [0x17F]), (0xB5, [0x3BC]), (0x131, [0x69]), (0x17F, [0x73]),
  (0x345, [0x3B9, 0x1FBE]), (0x390, [0x1FD3]), (0x3B0, [0x1FE3]), (0x3B2, [0x3D0]),
  (0x3B5, [0x3F5]), (0x3B8, [0x3D1]), (0x3B9, [0x345, 0x1FBE]), (0x3BA, [0x3F0]),
  (0x3BC, [0xB5]), (0x3C0, [0x3D6]), (0x3C1, [0x3F1]), (0x3C2, [0x3C3]), (0x3C3, [0x3C2]),
  (0x3C6, [0x3D5]), (0x3D0, [0x3B2]), (0x3D1, [0x3B8]), (0x3D5, [0x3C6]), (0x3D6, [0x3C0]),
  (0x3F0, [0x3BA]), (0x3F1, [0x3C1]), (0x3F5, [0x3B5]), (0x432, [0x1C80]), (0x434, [0x1C81]),
  (0x43E, [0x1C82]), (0x441, [0x1C83]), (0x442, [0x1C84, 0x1C85]), (0x44A, [0x1C86]),
  (0x463, [0x1C87]), (0x1C80, [0x432]), (0x1C81, [0x434]), (0x1C82, [0x43E]), (0x1C83, [0x441]),
  (0x1C84, [0x442, 0x1C85]), (0x1C85, [0x442, 0x1C84]), (0x1C86, [0x44A]), (0x1C87, [0x463]),
  (0x1C88, [0xA64B]), (0x1E61, [0x1E9B]), (0x1E9B, [0x1E61]), (0x1FBE, [0x345, 0x3B9]),
  (0x1FD3, [0x390]), (0x1FE3, [0x3B0]), (0xA64B, [0x1C88]), (0xFB05, [0xFB06]),
  (0xFB06, [0xFB05])]

/-- The lower-case forms of the members of a run that lie between `lo` and `hi`. -/
def loweredRun (lo hi : Nat) (r : CaseRun) : List Nat :=
  if hi < r.first || r.last < lo then []
  else
    ((List.range ((r.last - r.first) / r.step + 1)).map (r.first + r.step * ·)).filterMap fun n =>
      if lo ≤ n && n ≤ hi then some (n + r.shift).toNat else none

/-- The lower-case forms of the upper-case characters between `lo` and `hi`. -/
def loweredCodes (lo hi : Nat) : List Nat := caseRuns.flatMap (loweredRun lo hi)

/-- The further items that a range needs when case is disregarded. -/
def caseClosure (rule : CaseRule) (lo hi : Nat) : List SetItem :=
  match rule with
  | .exact => []
  | .asciiFold =>
    if hi < 0x41 || 0x5A < lo then [] else [.range (max lo 0x41 + 0x20) (min hi 0x5A + 0x20)]
  | .unicodeFold =>
    let low := loweredCodes lo hi
    let shared := sharedUpper.flatMap fun (k, others) =>
      if (lo ≤ k && k ≤ hi) || low.contains k then others else []
    (low ++ shared).map .code

/-- The set of the given items under a case rule. -/
def CharSet.ofItems (rule : CaseRule) (negated : Bool) (items : List SetItem) : CharSet :=
  { items := items.flatMap fun
      | .range lo hi => .range lo hi :: caseClosure rule lo hi
      | item => [item]
    negated, rule }

/-! ## Common sets -/

/-- The set of one character. -/
def CharSet.single (c : Char) : CharSet := { items := [.char c] }

/-- The set of the characters listed. -/
def CharSet.oneOf (cs : List Char) : CharSet := { items := cs.map .char }

/-- The set of the characters not listed. -/
def CharSet.noneOf (cs : List Char) : CharSet := { items := cs.map .char, negated := true }

/-- The blanks. -/
def CharSet.blank : CharSet := { items := [.category .blank false false] }

/-- The word characters and the characters listed. -/
def CharSet.wordOr (cs : List Char) : CharSet :=
  { items := .category .word false false :: cs.map .char }

/-- A character belongs to a single-character set when it is that character. -/
theorem CharSet.accepts_single (c d : Char) : (CharSet.single c).accepts d = (d == c) := by
  have key : (CharSet.single c).accepts d = decide (c.toNat ≤ d.toNat ∧ d.toNat ≤ c.toNat) := by
    simp [CharSet.accepts, CharSet.single, CaseRule.fold, SetItem.char, SetItem.code,
      SetItem.holds]
  rw [key]
  by_cases h : d = c
  · subst h; simp
  · have : d.toNat ≠ c.toNat := fun e => h (Char.toNat_inj.mp e)
    rw [beq_eq_false_iff_ne.mpr h, decide_eq_false_iff_not]
    omega

/-- A character is a blank of the set exactly when it is a blank. -/
theorem CharSet.accepts_blank (c : Char) : CharSet.blank.accepts c = isBlank c := by
  simp [CharSet.accepts, CharSet.blank, CaseRule.fold, SetItem.holds, Category.holds]

end ServiceKeys.Regex
