import ServiceKeys.Proofs.Regex.Between
import ServiceKeys.Proofs.Regex.Leftmost
import ServiceKeys.Proofs.Template.Written

/-!
# The search for a whole word

A key or a symbol of any characters is searched for as a whole word: neither of its neighbours may make a
longer word of it.  What is written for it is read as the text itself between two conditions
(`parse_wholeWord`).  Every match is the text, so all of them have one size, and the search reports the
leftmost places at which the text stands alone, without overlap.  Main statement: `wholeWord_exact`.
-/

namespace ServiceKeys

namespace Regex

/-! ## Words in a subject -/

/-- The pattern of a text with conditions on what stands around it. -/
def bounded (before : CharSet) (text : List Char) (after : CharSet) : Regex :=
  ofList (notAfter before :: (text.map .char ++ [notBefore after]))

/-- A text stands at an offset of a subject between neighbours that are of neither set. -/
def StandsBetween (before : CharSet) (text : List Char) (after : CharSet) (subject : List Char) (i : Nat) : Prop :=
  ∃ front rest, subject = front ++ (text ++ rest) ∧ front.length = i ∧
    (∀ c ∈ front.getLast?, before.accepts c = false) ∧ ∀ c ∈ rest.head?, after.accepts c = false

section

variable {before after : CharSet} {text subject front : List Char} {st : State} {i : Nat} {m : Match}

theorem mem_ends_bounded : st ∈ ends (bounded before text after) ⟨.between front subject, []⟩ ↔
    (∀ c ∈ front.getLast?, before.accepts c = false) ∧
      ∃ rest, subject = text ++ rest ∧ st = ⟨.between (front ++ text) rest, []⟩ ∧
        ∀ c ∈ rest.head?, after.accepts c = false := by
  rw [bounded, mem_ends_word, clear_between]
  refine and_congr_right fun _ => ?_
  constructor
  · rintro ⟨⟨hover, hcaps⟩, hafter⟩
    rcases st with ⟨cur, caps⟩
    obtain ⟨rest, hsubject, hcursor⟩ := Cursor.over_between_iff.1 hover
    obtain rfl : caps = [] := hcaps
    obtain rfl : cur = _ := hcursor
    exact ⟨rest, hsubject, rfl, hafter⟩
  · rintro ⟨rest, hsubject, rfl, hafter⟩
    exact ⟨⟨Cursor.over_between_iff.2 ⟨rest, hsubject, rfl⟩, rfl⟩, hafter⟩

/-- A word matches where it stands between the right neighbours. -/
theorem isSome_matchInside_bounded :
    (i ≤ subject.length ∧ (matchInside (bounded before text after) subject i).isSome = true) ↔
      StandsBetween before text after subject i := by
  constructor
  · rintro ⟨hi, hsome⟩
    obtain ⟨m, hm⟩ := Option.isSome_iff_exists.1 hsome
    have hend := (of_matchInside hm).1
    rw [Cursor.inside_eq_between hi, mem_ends_bounded] at hend
    obtain ⟨hbefore, rest, hrest, -, hafter⟩ := hend
    refine ⟨subject.take i, rest, ?_, ?_, hbefore, hafter⟩
    · rw [← hrest, List.take_append_drop]
    · rw [List.length_take, Nat.min_eq_left hi]
  · rintro ⟨front, rest, rfl, rfl, hbefore, hafter⟩
    have hend : ⟨.between (front ++ text) rest, []⟩ ∈ ends (bounded before text after)
        ⟨.inside (front ++ (text ++ rest)) front.length, []⟩ := by
      rw [Cursor.inside_append]
      exact mem_ends_bounded.2 ⟨hbefore, rest, rfl, rfl, hafter⟩
    exact ⟨by simp, Option.isSome_iff_exists.2 (exists_matchInside hend)⟩

theorem stop_of_matchInside_bounded (hm : matchInside (bounded before text after) subject i = some m) :
    m.stop = i + text.length := by
  obtain ⟨-, hover, -⟩ := mem_ends_word.1 (of_matchInside hm).1
  exact hover.1.pos_eq

theorem advances_bounded (htext : text ≠ []) : Advances (bounded before text after) := by
  intro st st' hst'
  obtain ⟨-, hover, -⟩ := mem_ends_word.1 hst'
  have hpos := List.length_pos_iff.2 htext
  have := hover.1.pos_eq
  omega

/-- **What the search for a word reports**: the leftmost places where it stands between the right neighbours. -/
theorem findAll_bounded (htext : text ≠ []) (subject : List Char) :
    ∃ offsets, Leftmost (StandsBetween before text after subject) text.length offsets ∧
      (findAll (bounded before text after) subject).map (fun m => (m.first, m.stop)) =
        offsets.map fun i => (i, i + text.length) := by
  obtain ⟨hleftmost, hspans⟩ :=
    leftmost_findAll (advances_bounded htext) subject fun _ _ => stop_of_matchInside_bounded
  exact ⟨_, (Leftmost.congr fun _ => isSome_matchInside_bounded).1 hleftmost, hspans⟩

end

/-! ## Reading a word -/

/-- What is written for a word is read as the word. -/
theorem parse_word {pre post : List Char} {before after : CharSet} (hstray : .dangling ∉ tokens pre)
    (hpre : pre.head? = some '(') (hpost : post.head? = some '(')
    (hbefore : ReadsAs { flags := {}, top := true } { rest := [] } (tokens pre) { rest := [] }
      [⟨notAfter before, .other⟩])
    (hafter : ReadsAs { flags := {}, top := true } { rest := [] } (tokens post) { rest := [] }
      [⟨notBefore after, .other⟩]) (text : List Char) :
    parse (pre ++ (escape text ++ post)) = .ok { body := bounded before text after } := by
  have hwhole : Whole (tokens (pre ++ (escape text ++ post))) := by
    rw [tokens_append hstray]
    exact (calm_group hpre _).1
  rw [parse_of_readsAs hwhole (readsAs_word ⟨rfl, rfl⟩ hstray (calm_group hpost) hbefore hafter text) rfl rfl rfl]
  simp only [bounded, List.map_cons, List.map_nil, List.map_append, List.map_map]
  rfl

end Regex

namespace Template

open Text Regex

theorem parse_keyWord (key : List Char) :
    parse (wholeWord key ".:-".toList ".-".toList) = .ok { body := bounded keyChars key keyTailChars } := by
  rw [wholeWord_key]
  exact parse_word (by decide) rfl rfl (readsAs_notAfter_keyChars ⟨rfl, rfl⟩)
    (readsAs_notBefore_keyTailChars ⟨rfl, rfl⟩) key

theorem parse_symbolWord (symbol : List Char) :
    parse (wholeWord symbol [] []) = .ok { body := bounded nameChars symbol nameChars } := by
  rw [wholeWord_symbol]
  exact parse_word (by decide) rfl rfl (readsAs_notAfter_nameChars ⟨rfl, rfl⟩)
    (readsAs_notBefore_nameChars ⟨rfl, rfl⟩) symbol

/-! ## Whole words -/

/-- The characters that make a longer word of a text that they touch: those of words, dollar signs and some
more. -/
def Extends (extra : List Char) (c : Char) : Prop := isWord c = true ∨ c = '$' ∨ c ∈ extra

/-- A text stands at an offset of a subject and neither neighbour makes a longer word of it. -/
def StandsAlone (text before after subject : List Char) (i : Nat) : Prop :=
  ∃ front rest, subject = front ++ (text ++ rest) ∧ front.length = i ∧
    (∀ c ∈ front.getLast?, ¬ Extends before c) ∧ ∀ c ∈ rest.head?, ¬ Extends after c

/-- The characters that are given for the sides of a whole word, those of symbols and those of keys. -/
def wordSides : List (List Char × List Char) := [([], []), (".:-".toList, ".-".toList)]

theorem accepts_eq_false_iff {extra : List Char} {c : Char} :
    (CharSet.wordOr ('$' :: extra)).accepts c = false ↔ ¬ Extends extra c := by
  rw [CharSet.accepts_wordOr, ← Bool.not_eq_true, Bool.or_eq_true, List.contains_iff_mem, List.mem_cons, Extends]

theorem standsBetween_iff {text before after subject : List Char} {i : Nat} :
    StandsBetween (.wordOr ('$' :: before)) text (.wordOr ('$' :: after)) subject i ↔
      StandsAlone text before after subject i := by
  simp only [StandsBetween, StandsAlone, accepts_eq_false_iff]

/-- The pattern of a whole word can be read, whatever its text. -/
theorem parse_wholeWord {before after : List Char} (hsides : (before, after) ∈ wordSides) (text : List Char) :
    parse (wholeWord text before after) =
      .ok { body := bounded (.wordOr ('$' :: before)) text (.wordOr ('$' :: after)) } := by
  rw [wordSides, List.mem_pair, Prod.mk.injEq, Prod.mk.injEq] at hsides
  rcases hsides with ⟨rfl, rfl⟩ | ⟨rfl, rfl⟩
  · exact parse_symbolWord text
  · exact parse_keyWord text

/-- **The search for a whole word is exact**: whatever characters the text has, what is written for it can be
read, and in any subject the search reports the leftmost places where the text stands alone, of which there
is only one choice without overlap. -/
theorem wholeWord_exact {text before after : List Char} (htext : text ≠ [])
    (hsides : (before, after) ∈ wordSides) :
    ∃ p, parse (wholeWord text before after) = .ok p ∧ ∀ subject, ∃ offsets,
      (findAll p.body subject).map (fun m => (m.first, m.stop)) =
          offsets.map (fun i => (i, i + text.length)) ∧
        ∀ others, Leftmost (StandsAlone text before after subject) text.length others ↔ others = offsets := by
  refine ⟨_, parse_wholeWord hsides text, fun subject => ?_⟩
  obtain ⟨offsets, hleftmost, hspans⟩ := findAll_bounded htext subject
  rw [Leftmost.congr fun _ => standsBetween_iff] at hleftmost
  refine ⟨offsets, hspans, fun others => ⟨fun hothers => ?_, ?_⟩⟩
  · exact hothers.unique (List.length_pos_iff.2 htext) hleftmost
  · rintro rfl
    exact hleftmost

/-- A text of special characters that overlaps itself is found once. -/
theorem wholeWord_exact_overlapping :
    ∃ p, parse (wholeWord "( (".toList [] []) = .ok p ∧
      (findAll p.body "( ( (".toList).map (fun m => (m.first, m.stop)) = [(0, 3)] := by
  have htext : "( (".toList ≠ [] := by decide
  have hsides : ([], []) ∈ wordSides := by decide
  obtain ⟨p, hp, hexact⟩ := wholeWord_exact htext hsides
  obtain ⟨offsets, hspans, hunique⟩ := hexact "( ( (".toList
  have hleftmost : Leftmost (StandsAlone "( (".toList [] [] "( ( (".toList) 3 [0] := by
    refine ⟨?_, List.pairwise_singleton _ _, ?_⟩
    · intro i hi
      obtain rfl := List.mem_singleton.1 hi
      exact ⟨[], " (".toList, rfl, rfl, by simp, by simp [Extends]; decide⟩
    · rintro i ⟨front, rest, hsubject, rfl, -, -⟩
      have hlength := congrArg List.length hsubject
      simp at hlength
      exact ⟨0, List.mem_singleton_self 0, Nat.zero_le _, by omega⟩
  obtain rfl := (hunique [0]).1 hleftmost
  exact ⟨p, hp, hspans⟩

end Template

end ServiceKeys
