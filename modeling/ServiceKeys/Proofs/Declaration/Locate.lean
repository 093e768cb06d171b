import ServiceKeys.Proofs.Declaration.Opening
import ServiceKeys.Proofs.Text.Lines

/-!
# Where a declaration is found

The line of a declaration is decided by the shapes and its column by a search of its own, which takes
the first place where the symbol stands as a whole word.  The two agree on every line that declares the
symbol, unless the symbol is glued to the word `function`: such a line is taken although the symbol may
stand nowhere on it as a word, and then the column is 0 (`locate?_points_at_word`).  Conversely a name
that is declared behind an opening is found at its own column, because no name but a keyword stands in
an opening (`locate?_declared`).
-/

namespace ServiceKeys.Declaration

open Text Regex
open Import (Space Gap Loose loose_cons)

/-! ## Words on a line -/

section Words

variable {symbol line : List Char}

/-- A symbol stands at a column of a line as a whole word. -/
def WordAt (symbol line : List Char) (column : Nat) : Prop :=
  ∃ front text, line = front ++ text ∧ front.length = column ∧ WordBetween symbol front text

/-- A symbol stands at a column of a line as a whole word, and nowhere further left. -/
def FirstWordAt (symbol line : List Char) (column : Nat) : Prop :=
  WordAt symbol line column ∧ ∀ j < column, ¬ WordAt symbol line j

theorem WordAt.le_length {column : Nat} (h : WordAt symbol line column) : column ≤ line.length := by
  obtain ⟨front, text, rfl, rfl, -⟩ := h
  simp

/-- The places where a symbol stands as a whole word are those where its pattern matches. -/
theorem wordAt_iff {column : Nat} (hcolumn : column ≤ line.length) :
    WordAt symbol line column ↔ (matchInside (wholeName symbol) line column).isSome = true := by
  constructor
  · rintro ⟨front, text, rfl, rfl, hword⟩
    obtain ⟨st, -, hst⟩ := (fits_wholeName_iff.2 hword).exists_matchInside
    rw [hst]
    rfl
  · intro hsome
    by_contra hword
    rw [matchInside_eq_none hcolumn] at hsome
    · simp at hsome
    · intro front text hcut hlength hfits
      exact hword ⟨front, text, hcut, hlength, fits_wholeName_iff.1 hfits⟩

instance (column : Nat) : Decidable (WordAt symbol line column) :=
  decidable_of_iff (column ≤ line.length ∧
    (matchInside (wholeName symbol) line column).isSome = true) (by
    constructor
    · rintro ⟨hcolumn, hsome⟩
      exact (wordAt_iff hcolumn).2 hsome
    · intro hword
      exact ⟨hword.le_length, (wordAt_iff hword.le_length).1 hword⟩)

theorem matchInside_of_not_wordAt {column : Nat} (hcolumn : column ≤ line.length)
    (h : ¬ WordAt symbol line column) : matchInside (wholeName symbol) line column = none := by
  rwa [wordAt_iff hcolumn, Bool.not_eq_true, Option.isSome_eq_false_iff, Option.isNone_iff_eq_none] at h

/-- The column that a search for a symbol gives. -/
def columnOf (symbol line : List Char) : Nat :=
  ((search? (wholeName symbol) line).map Match.first).getD 0

theorem columnOf_eq {column : Nat} (h : FirstWordAt symbol line column) :
    columnOf symbol line = column := by
  obtain ⟨hword, hfirst⟩ := h
  obtain ⟨m, hm⟩ := Option.isSome_iff_exists.1 ((wordAt_iff hword.le_length).1 hword)
  have hsearch : search? (wholeName symbol) line = some m := by
    refine search?_eq_some hword.le_length hm fun l hl => ?_
    exact matchInside_of_not_wordAt (hl.le.trans hword.le_length) (hfirst l hl)
  rw [columnOf, hsearch]
  exact (of_matchInside hm).2.1

theorem columnOf_eq_zero (h : ∀ column, ¬ WordAt symbol line column) : columnOf symbol line = 0 := by
  have hsearch : search? (wholeName symbol) line = none :=
    search?_eq_none fun l hl => matchInside_of_not_wordAt hl (h l)
  rw [columnOf, hsearch]
  rfl

/-- **The column of a symbol** is that of its first whole word, if it has any on the line. -/
theorem firstWordAt_columnOf (h : ∃ column, WordAt symbol line column) :
    FirstWordAt symbol line (columnOf symbol line) := by
  classical
  have hfirst : FirstWordAt symbol line (Nat.find h) :=
    ⟨Nat.find_spec h, fun j hj => Nat.find_min h hj⟩
  rw [columnOf_eq hfirst]
  exact hfirst

theorem columnOf_le_length (symbol line : List Char) : columnOf symbol line ≤ line.length := by
  by_cases hword : ∃ column, WordAt symbol line column
  · exact (firstWordAt_columnOf hword).1.le_length
  · rw [columnOf_eq_zero fun column hat => hword ⟨column, hat⟩]
    exact Nat.zero_le _

end Words

/-! ## Separators -/

/-- A text that sets names apart: there is something, and no character of it goes on with a name. -/
def Separates (sep : List Char) : Prop := sep ≠ [] ∧ ∀ c ∈ sep, isIdentifierContinue c = false

/-- A text behind which a name begins anew, whatever stands in front of it. -/
def Apart (text : List Char) : Prop :=
  ∀ front, ∀ c ∈ (front ++ text).getLast?, isIdentifierContinue c = false

theorem Apart.prepend {text : List Char} (h : Apart text) (xs : List Char) : Apart (xs ++ text) := by
  intro front
  rw [← List.append_assoc]
  exact h (front ++ xs)

namespace Separates

variable {sep : List Char}

theorem loose (h : Separates sep) (rest : List Char) : Loose (sep ++ rest) := by
  obtain ⟨c, cs, rfl⟩ := List.exists_cons_of_ne_nil h.1
  exact loose_cons (h.2 c List.mem_cons_self)

theorem apart (h : Separates sep) : Apart sep := by
  intro front c hc
  rw [List.getLast?_append_of_ne_nil _ h.1] at hc
  exact h.2 c (List.mem_of_getLast? hc)

end Separates

theorem separates_gap (gap : Gap) : Separates gap.text :=
  ⟨gap.ne_nil, fun c hc => not_continue_of_blank (gap.blanks c hc)⟩

theorem FunctionGap.separates {gap : FunctionGap} (h : gap.text ≠ []) : Separates gap.text := by
  have hstar : ∀ c ∈ starText gap.star, isIdentifierContinue c = false := by
    cases gap.star <;> decide
  refine ⟨h, fun c hc => ?_⟩
  rw [text, List.mem_append, List.mem_append] at hc
  rcases hc with hc | hc | hc
  · exact not_continue_of_blank (gap.before.blanks c hc)
  · exact hstar c hc
  · exact not_continue_of_blank (gap.after.blanks c hc)

/-- An opening that is not glued to the symbol sets it apart. -/
theorem Opening.apart (o : Opening) (h : ¬ o.Glued) : Apart o.text := by
  cases o with
  | exportedVariable gap declare kind last =>
      exact ((((separates_gap last).apart.prepend _).prepend _).prepend _).prepend _
  | exportedFunction gap default declare async last =>
      have hlast := (FunctionGap.separates h).apart.prepend "function".toList
      exact ((((hlast.prepend _).prepend _).prepend _).prepend _).prepend _
  | exportedClass gap default declare abstract last =>
      have hlast := (separates_gap last).apart.prepend "class".toList
      exact ((((hlast.prepend _).prepend _).prepend _).prepend _).prepend _
  | exportedDefault gap last =>
      exact (((separates_gap last).apart.prepend _).prepend _).prepend _
  | localVariable kind last => exact (separates_gap last).apart.prepend _
  | localFunction async last => exact ((FunctionGap.separates h).apart.prepend _).prepend _
  | localClass abstract last => exact ((separates_gap last).apart.prepend _).prepend _

/-! ## Lines and columns agree -/

section Agree

variable {symbol line : List Char}

/-- The symbol is glued to the word `function` on a line. -/
def GluedOn (symbol line : List Char) : Prop :=
  ∃ (indent : Space) (o : Opening) (rest : List Char), o.Glued ∧ Loose rest ∧
    line = indent.text ++ (o.text ++ (symbol ++ rest))

/-- A symbol behind an opening that is not glued to it is a whole word. -/
theorem wordAt_opening (indent : Space) {o : Opening} (ho : ¬ o.Glued) {rest : List Char}
    (hrest : Loose rest) :
    WordAt symbol (indent.text ++ (o.text ++ (symbol ++ rest))) (indent.text ++ o.text).length :=
  ⟨_, _, (List.append_assoc _ _ _).symm, rfl, o.apart ho indent.text, rest, rfl, hrest⟩

theorem wordAt_listing (indent : Space) (l : Listing) {rest : List Char} (hrest : Loose rest) :
    WordAt symbol (indent.text ++ (l.text ++ (symbol ++ rest))) (indent.text ++ l.text).length :=
  ⟨_, _, (List.append_assoc _ _ _).symm, rfl,
    (clear_listing_iff indent l.before l.typed l.names).2 l.clear, rest, rfl, hrest⟩

/-- A line that declares a symbol has it as a whole word, unless the symbol is glued. -/
theorem Declares.exists_wordAt (h : Declares symbol line) (hglued : ¬ GluedOn symbol line) :
    ∃ column, WordAt symbol line column := by
  obtain ⟨indent, rest, hrest, ⟨o, rfl⟩ | ⟨l, rfl⟩⟩ := h
  · have ho : ¬ o.Glued := fun ho => hglued ⟨indent, o, rest, ho, hrest, rfl⟩
    exact ⟨_, wordAt_opening indent ho hrest⟩
  · exact ⟨_, wordAt_listing indent l hrest⟩

/-- **The column of a line that declares a symbol** is that of its first whole word.  Only a line with
the symbol glued to the word `function` can be without any, and then the column is 0. -/
theorem Declares.columnOf (h : Declares symbol line) :
    FirstWordAt symbol line (columnOf symbol line) ∨
      (columnOf symbol line = 0 ∧ GluedOn symbol line ∧ ∀ column, ¬ WordAt symbol line column) := by
  by_cases hword : ∃ column, WordAt symbol line column
  · exact Or.inl (firstWordAt_columnOf hword)
  · have hglued : GluedOn symbol line := by
      by_contra hglued
      exact hword (h.exists_wordAt hglued)
    have hnone : ∀ column, ¬ WordAt symbol line column := fun column hat => hword ⟨column, hat⟩
    exact Or.inr ⟨columnOf_eq_zero hnone, hglued, hnone⟩

end Agree

/-! ## The line of a declaration -/

section Lines

variable {symbol line : List Char} {defaultExport : Bool}

theorem exists_shape_iff :
    ((shapes symbol).find? fun (_, r) => (matchStart? r line).isSome).isSome = true ↔
      Declares symbol line := by
  rw [declares_iff, FitsShape, List.find?_isSome]
  simp only [isSome_matchStart?_iff]

/-- A line that declares the symbol is taken, with the column of the search. -/
theorem onLine?_of_declares (defaultExport : Bool) (h : Declares symbol line) :
    ∃ label, onLine? symbol defaultExport line = some (some label, columnOf symbol line) := by
  obtain ⟨⟨label, r⟩, hfind⟩ := Option.isSome_iff_exists.1 (exists_shape_iff.2 h)
  refine ⟨label, ?_⟩
  rw [onLine?, hfind]
  rfl

theorem onLine?_of_not_declares (h : ¬ Declares symbol line) :
    onLine? symbol defaultExport line =
      if defaultExport = true ∧ OpensDefault line then some (none, offsetOf "default".toList line)
      else none := by
  have hfind : (shapes symbol).find? (fun (_, r) => (matchStart? r line).isSome) = none := by
    rwa [← exists_shape_iff, Bool.not_eq_true, Option.isSome_eq_false_iff,
      Option.isNone_iff_eq_none] at h
  have hopens : (defaultExport && (matchStart? bareDefault line).isSome) = true ↔
      defaultExport = true ∧ OpensDefault line := by
    rw [Bool.and_eq_true, isSome_matchStart?_iff, opensDefault_iff]
  rw [onLine?, hfind]
  exact if_congr hopens rfl rfl

/-- Without the rule for default exports, only lines that declare the symbol are taken. -/
theorem of_onLine?_false {shape : Option String} {column : Nat}
    (h : onLine? symbol false line = some (shape, column)) :
    Declares symbol line ∧ column = columnOf symbol line := by
  by_cases hdecl : Declares symbol line
  · obtain ⟨label, hlabel⟩ := onLine?_of_declares false hdecl
    rw [hlabel, Option.some.injEq, Prod.mk.injEq] at h
    exact ⟨hdecl, h.2.symm⟩
  · rw [onLine?_of_not_declares hdecl] at h
    simp at h

theorem offsetOf_le_length (part line : List Char) : offsetOf part line ≤ line.length := by
  induction line with
  | nil => exact le_rfl
  | cons c line ih =>
      rw [offsetOf]
      split
      · exact Nat.zero_le _
      · exact Nat.succ_le_succ ih

/-- A line is taken with one of its columns. -/
theorem column_le_of_onLine? {shape : Option String} {column : Nat}
    (h : onLine? symbol defaultExport line = some (shape, column)) : column ≤ line.length := by
  by_cases hdeclares : Declares symbol line
  · obtain ⟨label, hlabel⟩ := onLine?_of_declares defaultExport hdeclares
    obtain ⟨-, rfl⟩ := Prod.mk.inj (Option.some.inj (hlabel.symm.trans h))
    exact columnOf_le_length symbol line
  · rw [onLine?_of_not_declares hdeclares] at h
    split at h
    · obtain ⟨-, rfl⟩ := Prod.mk.inj (Option.some.inj h)
      exact offsetOf_le_length _ line
    · simp at h

/-- What is found is on a line that is taken, at its number. -/
theorem of_firstLine? {n : Nat} {rows : List (List Char)} {found : Found}
    (h : firstLine? symbol defaultExport n rows = some found) :
    ∃ k row, found.position.line = n + k ∧ rows[k]? = some row ∧
      onLine? symbol defaultExport row = some (found.shape, found.position.column) := by
  induction rows generalizing n with
  | nil => simp [firstLine?] at h
  | cons row rows ih =>
      rw [firstLine?] at h
      cases hrow : onLine? symbol defaultExport row with
      | some taken =>
          rw [hrow] at h
          obtain rfl := Option.some.inj h
          exact ⟨0, row, rfl, rfl, hrow⟩
      | none =>
          rw [hrow] at h
          obtain ⟨k, row', hline, hrow', htaken⟩ := ih h
          exact ⟨k + 1, row', by omega, hrow', htaken⟩

/-- The first line that is taken is found. -/
theorem firstLine?_append {n : Nat} {above : List (List Char)} {row : List Char}
    {below : List (List Char)} {shape : Option String} {column : Nat}
    (habove : ∀ r ∈ above, onLine? symbol defaultExport r = none)
    (hrow : onLine? symbol defaultExport row = some (shape, column)) :
    firstLine? symbol defaultExport n (above ++ row :: below) =
      some ⟨shape, ⟨n + above.length, column⟩⟩ := by
  induction above generalizing n with
  | nil =>
      rw [List.nil_append, firstLine?, hrow]
      rfl
  | cons r above ih =>
      obtain ⟨hr, habove⟩ := List.forall_mem_cons.1 habove
      rw [List.cons_append, firstLine?, hr]
      show firstLine? symbol defaultExport (n + 1) (above ++ row :: below) = _
      rw [ih habove, List.length_cons, Nat.add_assoc, Nat.add_comm 1]

end Lines

/-- What is located is a place inside of the text. -/
theorem locate?_inside {content symbol : List Char} {defaultExport : Bool} {found : Found}
    (h : locate? content symbol defaultExport = some found) : found.position.Inside content := by
  obtain ⟨k, line, hnumber, hline, htaken⟩ := of_firstLine? h
  rw [Nat.zero_add] at hnumber
  exact ⟨line, by rw [hnumber, hline], column_le_of_onLine? htaken⟩

/-- **What is located points at the symbol.**  Without the rule for default exports, the line of what
is found has the symbol as a whole word, first at its column; or it has none, because the symbol is
glued to the word `function`, and the column is 0. -/
theorem locate?_points_at_word {content symbol : List Char} {found : Found}
    (h : locate? content symbol false = some found) :
    ∃ line, (lines content)[found.position.line]? = some line ∧
      (FirstWordAt symbol line found.position.column ∨
        (found.position.column = 0 ∧ GluedOn symbol line ∧
          ∀ column, ¬ WordAt symbol line column)) := by
  obtain ⟨k, line, hnumber, hline, htaken⟩ := of_firstLine? h
  obtain ⟨hdeclares, hcolumn⟩ := of_onLine?_false htaken
  rw [Nat.zero_add] at hnumber
  refine ⟨line, by rw [hnumber, hline], ?_⟩
  rw [hcolumn]
  exact hdeclares.columnOf

theorem locate?_points_at_word_sample :
    ∃ line, (lines "class chargeCardV2 {}\nclass chargeCard {}".toList)[1]? = some line ∧
      FirstWordAt "chargeCard".toList line 6 := by
  have hfound : locate? "class chargeCardV2 {}\nclass chargeCard {}".toList "chargeCard".toList
      false = some ⟨some "local class", ⟨1, 6⟩⟩ := by decide +kernel
  obtain ⟨line, hline, hfirst | ⟨hzero, -⟩⟩ := locate?_points_at_word hfound
  · exact ⟨line, hline, hfirst⟩
  · exact absurd hzero (by decide)

/-- A symbol that ends a longer word behind the word `function` is taken for the function's name, on a
line where it stands nowhere as a word. -/
theorem locate?_glued_sample :
    BareName "foo".toList ∧
      locate? "functionfoo() {}\n".toList "foo".toList false = some ⟨some "local function", ⟨0, 0⟩⟩ ∧
      (lines "functionfoo() {}\n".toList)[0]? = some "functionfoo() {}".toList ∧
      ∀ column, ¬ WordAt "foo".toList "functionfoo() {}".toList column := by
  refine ⟨⟨'f', "oo".toList, by decide, by decide, by decide⟩, by decide +kernel, by decide, ?_⟩
  have hnone : ∀ column ≤ 16, ¬ WordAt "foo".toList "functionfoo() {}".toList column := by
    decide +kernel
  intro column hword
  exact hnone column hword.le_length hword

/-! ## Names that no opening has -/

section Free

variable {name : List Char}

/-- The words that openings are made of. -/
def keywords : List (List Char) :=
  ["export", "default", "declare", "async", "abstract", "const", "let", "var", "function",
    "class"].map String.toList

theorem continue_of_mem_keywords : ∀ w ∈ keywords, ∀ c ∈ w, isIdentifierContinue c = true := by
  decide

variable (hname : BareName name)
include hname

/-- A name stands nowhere in a text without characters of names. -/
theorem nowhere_of_notName {text rest : List Char}
    (h : ∀ c ∈ text, isIdentifierContinue c = false) : Nowhere (WordBetween name) text rest := by
  rintro front a b rfl hne ⟨-, more, hmore, -⟩
  obtain ⟨c, name, rfl, hc, -⟩ := hname
  obtain ⟨d, b, rfl⟩ := List.exists_cons_of_ne_nil hne
  obtain rfl : d = c := (List.cons.inj hmore).1
  have hnot := h d (by simp)
  rw [isIdentifierContinue_of_start hc] at hnot
  exact Bool.false_ne_true hnot.symm

/-- A name stands nowhere in another word. -/
theorem nowhere_of_word {text rest : List Char} (htext : ∀ c ∈ text, isIdentifierContinue c = true)
    (hne : text ≠ name) (hrest : Loose rest) : Nowhere (WordBetween name) text rest := by
  rintro front a b rfl hb ⟨hfront, more, hmore, hloose⟩
  cases a with
  | nil =>
      -- both words are read to their ends, so they are the same
      exact hne (run_append_unique htext hname.isIdentifierContinue hrest hloose hmore).1
  | cons d a =>
      -- the place is inside of the word, so the word goes on into it
      have hlast := List.getLast?_eq_some_getLast (List.cons_ne_nil d a)
      have hnot := hfront _ (by rw [List.getLast?_append, hlast]; rfl)
      rw [htext _ (List.mem_append_left _ (List.mem_of_getLast? hlast))] at hnot
      exact Bool.false_ne_true hnot.symm

variable (hfree : name ∉ keywords)
include hfree

theorem nowhere_keyword {w sep rest : List Char} (hw : w ∈ keywords) (hsep : Separates sep) :
    Nowhere (WordBetween name) (w ++ sep) rest := by
  have hne : w ≠ name := fun heq => hfree (heq ▸ hw)
  exact (nowhere_of_word hname (continue_of_mem_keywords w hw) hne (hsep.loose rest)).append
    (nowhere_of_notName hname hsep.2)

theorem nowhere_keyword_append {w sep text rest : List Char} (hw : w ∈ keywords)
    (hsep : Separates sep) (h : Nowhere (WordBetween name) text rest) :
    Nowhere (WordBetween name) (w ++ (sep ++ text)) rest := by
  rw [← List.append_assoc]
  exact (nowhere_keyword hname hfree hw hsep).append h

theorem nowhere_modifier_append {w : String} {text rest : List Char} (hw : w.toList ∈ keywords)
    (gap : Option Gap) (h : Nowhere (WordBetween name) text rest) :
    Nowhere (WordBetween name) (modifier w gap ++ text) rest := by
  cases gap with
  | none => exact h
  | some gap => exact (nowhere_keyword hname hfree hw (separates_gap gap)).append h

/-- **A name that is no keyword stands nowhere in an opening.** -/
theorem Opening.nowhere (o : Opening) (ho : ¬ o.Glued) (rest : List Char) :
    Nowhere (WordBetween name) o.text rest := by
  have hkind : ∀ kind : VariableKind, kind.text ∈ keywords := by rintro (_ | _ | _) <;> decide
  cases o with
  | exportedVariable gap declare kind last =>
      refine nowhere_keyword_append hname hfree (by decide) (separates_gap gap) ?_
      refine nowhere_modifier_append hname hfree (by decide) declare ?_
      exact nowhere_keyword hname hfree (hkind kind) (separates_gap last)
  | exportedFunction gap default declare async last =>
      refine nowhere_keyword_append hname hfree (by decide) (separates_gap gap) ?_
      refine nowhere_modifier_append hname hfree (by decide) default ?_
      refine nowhere_modifier_append hname hfree (by decide) declare ?_
      refine nowhere_modifier_append hname hfree (by decide) async ?_
      exact nowhere_keyword hname hfree (by decide) (FunctionGap.separates ho)
  | exportedClass gap default declare abstract last =>
      refine nowhere_keyword_append hname hfree (by decide) (separates_gap gap) ?_
      refine nowhere_modifier_append hname hfree (by decide) default ?_
      refine nowhere_modifier_append hname hfree (by decide) declare ?_
      refine nowhere_modifier_append hname hfree (by decide) abstract ?_
      exact nowhere_keyword hname hfree (by decide) (separates_gap last)
  | exportedDefault gap last =>
      refine nowhere_keyword_append hname hfree (by decide) (separates_gap gap) ?_
      exact nowhere_keyword hname hfree (by decide) (separates_gap last)
  | localVariable kind last => exact nowhere_keyword hname hfree (hkind kind) (separates_gap last)
  | localFunction async last =>
      refine nowhere_modifier_append hname hfree (by decide) async ?_
      exact nowhere_keyword hname hfree (by decide) (FunctionGap.separates ho)
  | localClass abstract last =>
      refine nowhere_modifier_append hname hfree (by decide) abstract ?_
      exact nowhere_keyword hname hfree (by decide) (separates_gap last)

/-- The symbol behind an opening is the first word of its name. -/
theorem firstWordAt_opening (indent : Space) {o : Opening} (ho : ¬ o.Glued) {rest : List Char}
    (hrest : Loose rest) :
    FirstWordAt name (indent.text ++ (o.text ++ (name ++ rest))) (indent.text ++ o.text).length := by
  refine ⟨wordAt_opening indent ho hrest, ?_⟩
  have hblank : ∀ c ∈ indent.text, isIdentifierContinue c = false := fun c hc =>
    not_continue_of_blank (indent.blanks c hc)
  have hfront : Nowhere (WordBetween name) (indent.text ++ o.text) (name ++ rest) :=
    (nowhere_of_notName hname hblank).append (Opening.nowhere hname hfree o ho _)
  rintro j hj ⟨front, text, hcut, rfl, hword⟩
  have hcut' : front ++ text = [] ++ ((indent.text ++ o.text) ++ (name ++ rest)) := by
    rw [← hcut, List.nil_append, List.append_assoc]
  obtain ⟨a, b, hb, hleft, hopening, rfl⟩ := cut_inside hcut' (Nat.zero_le _) hj
  rw [hleft] at hword
  exact hfront [] a b hopening hb hword

end Free

/-- **Every declaration is found at its exact column.**  A name that is no keyword and is declared
behind an opening is found there, whatever the rest of the line and the lines below it are, if no line
above declares it (or, where default exports count, begins with one). -/
theorem locate?_declared {name : List Char} (hname : BareName name) (hfree : name ∉ keywords)
    {above : List (List Char)} {indent : Space} {o : Opening} {rest following : List Char}
    {defaultExport : Bool} (ho : ¬ o.Glued) (hrest : Loose rest)
    (hline : '\n' ∉ indent.text ++ (o.text ++ (name ++ rest)))
    (habove : ∀ row ∈ above, '\n' ∉ row ∧ ¬ Declares name row ∧
      (defaultExport = true → ¬ OpensDefault row))
    (hfollowing : ∀ c ∈ following.head?, c = '\n') :
    (locate? (above.flatMap (· ++ ['\n']) ++
        (indent.text ++ (o.text ++ (name ++ rest)) ++ following)) name defaultExport).map
      Found.position = some ⟨above.length, (indent.text ++ o.text).length⟩ := by
  obtain ⟨below, hlines⟩ := lines_append (fun row hrow => (habove row hrow).1) hline hfollowing
  have hnone : ∀ row ∈ above, onLine? name defaultExport row = none := by
    intro row hrow
    obtain ⟨-, hdeclares, hopens⟩ := habove row hrow
    rw [onLine?_of_not_declares hdeclares, if_neg fun h => hopens h.1 h.2]
  have hdeclares : Declares name (indent.text ++ (o.text ++ (name ++ rest))) :=
    ⟨indent, rest, hrest, Or.inl ⟨o, rfl⟩⟩
  obtain ⟨label, hrow⟩ := onLine?_of_declares defaultExport hdeclares
  rw [columnOf_eq (firstWordAt_opening hname hfree indent ho hrest)] at hrow
  rw [locate?, hlines, firstLine?_append hnone hrow, Nat.zero_add]
  rfl

/-- Two lines that do not declare `charge`, and one that does. -/
def sampleText : List Char :=
  "import { charge } from './x';\nclass chargeV2 {}\n export default async function* charge() {}".toList

theorem locate?_declared_sample :
    (locate? sampleText "charge".toList true).map Found.position = some ⟨2, 32⟩ := by
  let above := ["import { charge } from './x';".toList, "class chargeV2 {}".toList]
  let gap : Gap := ⟨⟨[' '], by unfold Blanks; decide⟩, by decide⟩
  let star : FunctionGap := ⟨⟨[], by unfold Blanks; decide⟩, true, gap.toSpace⟩
  let o : Opening := .exportedFunction gap (some gap) none (some gap) star
  have hname : BareName "charge".toList := ⟨'c', "harge".toList, by decide, by decide, by decide⟩
  have habove : ∀ row ∈ above, '\n' ∉ row ∧ ¬ Declares "charge".toList row ∧
      (true = true → ¬ OpensDefault row) := by decide +kernel
  have ho : ¬ o.Glued := by
    show ¬ star.text = []
    decide
  have hrest : Loose "() {}".toList := loose_cons (by decide)
  have hline : '\n' ∉ gap.text ++ (o.text ++ ("charge".toList ++ "() {}".toList)) := by
    decide +kernel
  have hfollowing : ∀ c ∈ ([] : List Char).head?, c = '\n' := by simp
  have htext : sampleText = above.flatMap (· ++ ['\n']) ++
      (gap.text ++ (o.text ++ ("charge".toList ++ "() {}".toList)) ++ []) := by decide +kernel
  have hcolumn : (gap.text ++ o.text).length = 32 := by decide +kernel
  rw [htext, locate?_declared hname (by decide) ho hrest hline habove hfollowing, hcolumn]
  rfl

end ServiceKeys.Declaration
