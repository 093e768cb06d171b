import ServiceKeys.Regex.CharSet
import ServiceKeys.Text.Identifier
import Mathlib

/-!
# Character classes

How the classes that patterns are made of lie to each other: blanks, the characters of names, the
characters of keys, and the few signs that stand between them.  Blanks and word characters are tables
of a standard, so that they do not meet is checked on the tables.
-/

namespace ServiceKeys

namespace Text

/-- A statement about the characters of a text is checked on them, and not on all characters there
are. -/
instance (priority := high) decidableForallMem (p : Char → Prop) [DecidablePred p] (cs : List Char) :
    Decidable (∀ c ∈ cs, p c) := List.decidableBAll p cs

/-- The code points of the blanks. -/
def blankCodes : List Nat := blankRanges.flatMap fun r => List.range' r.1 (r.2 + 1 - r.1)

theorem isWord_blankCodes : ∀ n ∈ blankCodes, isWord (Char.ofNat n) = false := by decide +kernel

/-- No blank is a word character. -/
theorem isWord_of_isBlank {c : Char} (h : isBlank c = true) : isWord c = false := by
  rw [← Char.ofNat_toNat c]
  refine isWord_blankCodes c.toNat ?_
  obtain ⟨r, hr, hlo, hhi⟩ := inRanges_iff.1 h
  refine List.mem_flatMap.2 ⟨r, hr, List.mem_range'_1.2 ?_⟩
  omega

/-- The letters, digits and the underscore of the ASCII range are word characters. -/
theorem isWord_of_isAsciiWord {c : Char} (h : isAsciiWord c = true) : isWord c = true := by
  have hascii : c.toNat < 0x80 := by
    simp only [isAsciiWord, Char.isAlphanum, Char.isAlpha, Char.isUpper, Char.isLower, Char.isDigit,
      Bool.or_eq_true, Bool.and_eq_true, decide_eq_true_eq, UInt32.le_iff_toNat_le, beq_iff_eq] at h
    have hn : c.toNat = c.val.toNat := rfl
    have hZ : 'Z'.val.toNat = 90 := rfl
    have hz : 'z'.val.toNat = 122 := rfl
    have h9 : '9'.val.toNat = 57 := rfl
    rcases h with ((h | h) | h) | rfl
    · omega
    · omega
    · omega
    · decide
  rw [isWord_eq_isAsciiWord hascii, h]

/-- A text of blanks. -/
def Blanks (cs : List Char) : Prop := ∀ c ∈ cs, isBlank c = true

theorem Blanks.append {xs ys : List Char} (hx : Blanks xs) (hy : Blanks ys) : Blanks (xs ++ ys) :=
  fun c hc => (List.mem_append.1 hc).elim (hx c) (hy c)

theorem blanks_append_iff {xs ys : List Char} : Blanks (xs ++ ys) ↔ Blanks xs ∧ Blanks ys := by
  simp only [Blanks, List.forall_mem_append]

/-- The separators that may stand inside of a key. -/
def keySeparators : List Char := ['.', ':', '-']

/-- A character of a key: a name character or a separator. -/
def isKeyChar (c : Char) : Bool := isWord c || ('$' :: keySeparators).contains c

theorem isIdentifierContinue_of_start {c : Char} (h : isIdentifierStart c = true) :
    isIdentifierContinue c = true := by
  simp only [isIdentifierStart, Bool.or_eq_true] at h
  rcases h with (h | h) | h
  · have hascii : c.toNat < 0x80 := by
      simp only [Char.isAlpha, Char.isUpper, Char.isLower, Bool.or_eq_true, Bool.and_eq_true,
        decide_eq_true_eq, UInt32.le_iff_toNat_le] at h
      have hn : c.toNat = c.val.toNat := rfl
      have hZ : 'Z'.val.toNat = 90 := rfl
      have hz : 'z'.val.toNat = 122 := rfl
      omega
    simp [isIdentifierContinue, isWord, isLetter, hascii, h]
  · simp [isIdentifierContinue, isWord, h]
  · simp [isIdentifierContinue, h]

theorem isKeyChar_of_continue {c : Char} (h : isIdentifierContinue c = true) :
    isKeyChar c = true := by
  simp only [isIdentifierContinue, Bool.or_eq_true, beq_iff_eq] at h
  rcases h with h | rfl
  · simp [isKeyChar, h]
  · simp [isKeyChar]

theorem not_blank_of_key {c : Char} (h : isKeyChar c = true) : isBlank c = false := by
  by_contra hb
  rw [Bool.not_eq_false] at hb
  simp only [isKeyChar, isWord_of_isBlank hb, Bool.false_or, List.contains_iff_mem, keySeparators,
    List.mem_cons, List.not_mem_nil, or_false] at h
  have hsigns : ∀ d ∈ '$' :: keySeparators, isBlank d = false := by decide
  rw [hsigns c (by simpa [keySeparators] using h)] at hb
  exact Bool.false_ne_true hb

theorem not_blank_of_continue {c : Char} (h : isIdentifierContinue c = true) :
    isBlank c = false := not_blank_of_key (isKeyChar_of_continue h)

theorem not_continue_of_blank {c : Char} (h : isBlank c = true) : isIdentifierContinue c = false := by
  by_contra hc
  rw [not_blank_of_continue (by simpa using hc)] at h
  exact Bool.false_ne_true h

theorem isIdentifierContinue_of_isWord {c : Char} (h : isWord c = true) :
    isIdentifierContinue c = true := by
  rw [isIdentifierContinue, h]
  rfl

end Text

namespace Regex.CharSet

open Text

theorem any_char_holds (cs : List Char) (c : Char) :
    (cs.map SetItem.char).any (·.holds c) = cs.contains c := by
  induction cs with
  | nil => rfl
  | cons d cs ih =>
      have hd : (SetItem.char d).holds c = (c == d) := by
        rw [← accepts_single d c]
        simp [accepts, single, CaseRule.fold]
      rw [List.map_cons, List.any_cons, ih, hd, List.contains_cons]

theorem accepts_oneOf (cs : List Char) (c : Char) : (oneOf cs).accepts c = cs.contains c := by
  simp only [accepts, oneOf, CaseRule.fold, any_char_holds, Bool.bne_false]

theorem accepts_noneOf (cs : List Char) (c : Char) : (noneOf cs).accepts c = !cs.contains c := by
  simp only [accepts, noneOf, CaseRule.fold, any_char_holds, Bool.bne_true]

theorem accepts_wordOr (cs : List Char) (c : Char) :
    (wordOr cs).accepts c = (isWord c || cs.contains c) := by
  have hword : (SetItem.category .word false false).holds c = isWord c := by
    simp [SetItem.holds, Category.holds]
  simp only [accepts, wordOr, CaseRule.fold, List.any_cons, any_char_holds, Bool.bne_false, hword]

theorem accepts_nameChar (c : Char) : (wordOr ['$']).accepts c = isIdentifierContinue c := by
  rw [accepts_wordOr, isIdentifierContinue, List.contains_cons, List.contains_nil, Bool.or_false]

/-- The set of the characters that may start a bare identifier. -/
theorem accepts_identifierStart (c : Char) :
    accepts ⟨[.range 65 90, .range 97 122, .char '_', .char '$'], false, .exact⟩ c =
      isIdentifierStart c := by
  have hsigns : (oneOf ['_', '$']).accepts c = (c == '_' || c == '$') := by
    rw [accepts_oneOf, List.contains_cons, List.contains_cons, List.contains_nil, Bool.or_false]
  have hletter : c.isAlpha = (SetItem.holds (.range 65 90) c || SetItem.holds (.range 97 122) c) := by
    rw [Bool.eq_iff_iff]
    simp only [Char.isAlpha, Char.isUpper, Char.isLower, SetItem.holds, Bool.or_eq_true,
      Bool.and_eq_true, decide_eq_true_eq, UInt32.le_iff_toNat_le]
    rfl
  rw [isIdentifierStart, hletter, Bool.or_assoc, Bool.or_assoc, ← hsigns]
  simp [accepts, oneOf, CaseRule.fold]

theorem accepts_keyChar (c : Char) : (wordOr ('$' :: keySeparators)).accepts c = isKeyChar c :=
  accepts_wordOr _ c

end Regex.CharSet

end ServiceKeys
