import ServiceKeys.Proofs.Text.CharClass

/-!
# Letter case and the characters of keys

A set that disregards case tests the lower-case form of a character.  This lets nothing new into the sets
that keys are made of: a character with another lower-case form is a word character, or it is a circled
letter, and then its lower-case form is a circled letter as well (`Text.lowerChar_cases`).  The tables of a
standard are checked run by run.
-/

namespace ServiceKeys

namespace Text

/-- The code points of the small circled letters. -/
def circledCodes : List Nat := List.range' 0x24D0 26

/-- A table covers a run of upper-case characters. -/
def covers (table : List (Nat × Nat)) (r : CaseRun) : Bool :=
  table.any fun t => Nat.ble t.1 r.first && Nat.ble r.last t.2

theorem inRanges_of_covers {table : List (Nat × Nat)} {r : CaseRun} {n : Nat} (h : covers table r = true)
    (hfirst : r.first ≤ n) (hlast : n ≤ r.last) : inRanges table n = true := by
  obtain ⟨t, ht, hcovers⟩ := List.any_eq_true.1 h
  obtain ⟨hlo, hhi⟩ := Bool.and_eq_true_iff.1 hcovers
  exact inRanges_iff.2 ⟨t, ht, (Nat.le_of_ble_eq_true hlo).trans hfirst, hlast.trans (Nat.le_of_ble_eq_true hhi)⟩

/-- A run of upper-case characters consists of letters or of numerals, but for few that are looked at one by
one. -/
theorem caseRuns_covered : (caseRuns.all fun r => covers letterRanges r || covers numeralRanges r ||
    (List.range' r.first (r.last + 1 - r.first)).all fun n =>
      (r.lower? n).all fun m => circledCodes.contains m || isWord (Char.ofNat n)) = true := by
  decide +kernel

theorem circledCodes_apart : ((letterRanges ++ numeralRanges).all fun t =>
    Nat.blt t.2 0x24D0 || Nat.blt 0x24E9 t.1) = true := by
  decide +kernel

/-- Circled letters are no word characters. -/
theorem isWord_circled {n : Nat} (h : n ∈ circledCodes) : isWord (Char.ofNat n) = false := by
  have hcode : ∀ n ∈ circledCodes, (Char.ofNat n).toNat = n ∧ Char.ofNat n ≠ '_' := by decide
  obtain ⟨hn, hne⟩ := hcode n h
  have hapart : ∀ t ∈ letterRanges ++ numeralRanges, ¬ (t.1 ≤ n ∧ n ≤ t.2) := by
    intro t ht
    have hout := List.all_eq_true.1 circledCodes_apart t ht
    simp only [Nat.blt_eq, Bool.or_eq_true] at hout
    have hrange := List.mem_range'_1.1 h
    omega
  have hletter : inRanges letterRanges n = false := by
    rw [← Bool.not_eq_true, inRanges_iff]
    exact fun ⟨t, ht, hin⟩ => hapart t (List.mem_append_left _ ht) hin
  have hnumeral : inRanges numeralRanges n = false := by
    rw [← Bool.not_eq_true, inRanges_iff]
    exact fun ⟨t, ht, hin⟩ => hapart t (List.mem_append_right _ ht) hin
  have hascii : ¬ n < 0x80 := by
    have hrange := List.mem_range'_1.1 h
    omega
  simp [isWord, isLetter, isNumeral, hn, hascii, hletter, hnumeral, hne]

theorem isWord_of_isUpper {c : Char} (h : c.isUpper = true) : isWord c = true :=
  isWord_of_isAsciiWord (by simp [isAsciiWord, Char.isAlphanum, Char.isAlpha, h])

/-- **What another lower-case form says of a character**: it is a word character or circled. -/
theorem lowerChar_cases (c : Char) :
    lowerChar c = c ∨ isWord c = true ∨ ∃ n ∈ circledCodes, lowerChar c = Char.ofNat n := by
  by_cases hascii : c.toNat < 0x80
  · by_cases hupper : c.isUpper = true
    · exact Or.inr (Or.inl (isWord_of_isUpper hupper))
    · have hrange : ¬ (0x41 ≤ c.toNat ∧ c.toNat ≤ 0x5A) := by
        simpa [Char.isUpper, UInt32.le_iff_toNat_le] using hupper
      refine Or.inl ?_
      rw [lowerChar, lowerCode, if_pos hascii, if_neg (by simpa using hrange), Char.ofNat_toNat]
  · cases hrun : caseRuns.findSome? (·.lower? c.toNat) with
    | none =>
        refine Or.inl ?_
        rw [lowerChar, lowerCode, if_neg hascii, hrun, Option.getD_none, Char.ofNat_toNat]
    | some m =>
        refine Or.inr ?_
        obtain ⟨r, hr, hm⟩ := List.exists_of_findSome?_eq_some hrun
        have hin : r.first ≤ c.toNat ∧ c.toNat ≤ r.last := by
          rw [CaseRun.lower?] at hm
          split at hm
          · rename_i h
            simp only [Bool.and_eq_true, decide_eq_true_eq] at h
            exact h.1
          · cases hm
        have hcovered := List.all_eq_true.1 caseRuns_covered r hr
        rw [Bool.or_eq_true, Bool.or_eq_true] at hcovered
        rcases hcovered with (hletter | hnumeral) | hsingle
        · have h := inRanges_of_covers hletter hin.1 hin.2
          exact Or.inl (by simp [isWord, isLetter, hascii, h])
        · have h := inRanges_of_covers hnumeral hin.1 hin.2
          exact Or.inl (by simp [isWord, isNumeral, hascii, h])
        · have h := List.all_eq_true.1 hsingle c.toNat (List.mem_range'_1.2 (by omega))
          rw [hm, Option.all_some, Bool.or_eq_true, List.contains_iff_mem, Char.ofNat_toNat] at h
          refine h.symm.imp_right fun hcircled => ⟨m, hcircled, ?_⟩
          rw [lowerChar, lowerCode, if_neg hascii, hrun, Option.getD_some]

end Text

namespace Regex

open Text

/-- The same for every case rule. -/
theorem CaseRule.fold_cases (rule : CaseRule) (c : Char) :
    rule.fold c = c ∨ isWord c = true ∨ ∃ n ∈ circledCodes, rule.fold c = Char.ofNat n := by
  cases rule with
  | exact => exact Or.inl rfl
  | asciiFold =>
      by_cases hupper : c.isUpper = true
      · exact Or.inr (Or.inl (isWord_of_isUpper hupper))
      · refine Or.inl ?_
        have hrange : ¬ (c.val ≥ 'A'.val ∧ c.val ≤ 'Z'.val) := by
          simpa [Char.isUpper] using hupper
        rw [fold, Char.toLower, dif_neg hrange]
  | unicodeFold => exact lowerChar_cases c

/-- **A set of word characters and signs lets in nothing else**, whether or not case is disregarded. -/
theorem CharSet.of_accepts_wordOr {rule : CaseRule} {ascii : Bool} {signs : List Char} {c : Char}
    (hsigns : ∀ d ∈ signs, d.toNat < 0x80)
    (h : CharSet.accepts ⟨.category .word ascii false :: signs.map .char, false, rule⟩ c = true) :
    isWord c = true ∨ c ∈ signs := by
  have hword : ∀ d, Category.word.holds ascii d = true → isWord d = true := by
    intro d hd
    cases ascii with
    | false => exact hd
    | true => exact isWord_of_isAsciiWord hd
  have hin : Category.word.holds ascii (rule.fold c) = true ∨ rule.fold c ∈ signs := by
    rw [accepts, List.any_cons, any_char_holds, SetItem.holds, Bool.bne_false, Bool.bne_false, Bool.or_eq_true,
      List.contains_iff_mem] at h
    exact h
  rcases rule.fold_cases c with hsame | hc | ⟨n, hn, hcircled⟩
  · rw [hsame] at hin
    exact hin.imp_left (hword c)
  · exact Or.inl hc
  · rw [hcircled] at hin
    rcases hin with hn' | hn'
    · have hword' := hword _ hn'
      rw [isWord_circled hn] at hword'
      cases hword'
    · have hcode : ∀ n ∈ circledCodes, 0x80 ≤ (Char.ofNat n).toNat := by decide
      exact absurd (hsigns _ hn') (Nat.not_lt.2 (hcode n hn))

end Regex

end ServiceKeys
