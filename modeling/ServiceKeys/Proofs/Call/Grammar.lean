import ServiceKeys.Call.Basic
import ServiceKeys.Proofs.Regex.Search
import ServiceKeys.Proofs.Text.CharClass

/-!
# The grammar of calls

What a resolving call looks like as a text, said without patterns: a callee, type arguments that may
be absent, and the key between equal quotes as the only argument.  The main statement is
`exists_end_pattern_iff`: the pattern of a call form can end exactly behind the texts of the grammar,
at places that no name leads up to.

Type arguments are described by counting brackets, not by the shape of a pattern: a list closes the
bracket that it opens, has at most two of them open at a time, and holds no parenthesis.
-/

namespace ServiceKeys.Call

open Regex Text Computability

/-! ## Texts -/

/-- The dot between two names of a callee. -/
def IsDot (xs : List Char) : Prop :=
  ∃ a q b, Blanks a ∧ (q = [] ∨ q = ['?']) ∧ Blanks b ∧ xs = a ++ (q ++ '.' :: b)

/-- The names of a callee in order, with dots between them. -/
inductive Callee : List (List Char) → List Char → Prop
  | last (name : List Char) : Callee [name] name
  | dotted (name : List Char) {names : List (List Char)} {dot rest : List Char} :
      IsDot dot → Callee names rest → Callee (name :: names) (name ++ (dot ++ rest))

/-- How many brackets of type arguments may be open at a time. -/
def typeDepth : Nat := 2

/-- Whether a text closes the given number of open brackets at its very end and no sooner, without
too many of them open and without parentheses. -/
def closesTypes : (opened : Nat) → List Char → Bool
  | 0, cs => cs.isEmpty
  | _ + 1, [] => false
  | n + 1, c :: cs =>
    if c == '<' then decide (n + 1 < typeDepth) && closesTypes (n + 2) cs
    else if c == '>' then closesTypes n cs
    else c != '(' && c != ')' && closesTypes (n + 1) cs

/-- Type arguments, with blanks in front, or nothing. -/
def TypeArguments (xs : List Char) : Prop :=
  xs = [] ∨ ∃ a ts, Blanks a ∧ closesTypes 1 ts = true ∧ xs = a ++ '<' :: ts

/-- What stands before the parenthesis of a call. -/
def Head (names : List (List Char)) (xs : List Char) : Prop :=
  ∃ callee types gap, Callee names callee ∧ TypeArguments types ∧ Blanks gap ∧
    xs = callee ++ (types ++ gap)

/-- What stands behind the opening parenthesis of a call: the key between equal quotes, and the
closing parenthesis. -/
def Argument (key xs : List Char) : Prop :=
  ∃ a q b, Blanks a ∧ quotes.accepts q = true ∧ Blanks b ∧
    xs = a ++ q :: (key ++ q :: (b ++ [')']))

/-- A call of a callee with a key. -/
def CallText (names : List (List Char)) (key xs : List Char) : Prop :=
  ∃ head arg, Head names head ∧ Argument key arg ∧ xs = head ++ '(' :: arg

/-! ## The languages of the parts -/

theorem denotes_dot : Denotes dot (texts IsDot) := by
  apply (denotes_ofList_cons denotes_blanks (denotes_ofList_cons
    (denotes_maybe (denotes_char '?')) (denotes_ofList_cons (denotes_char '.')
      (denotes_ofList_cons denotes_blanks denotes_ofList_nil)))).congr
  intro xs
  simp only [mul_one, Language.mem_mul, Language.mem_add, Language.mem_one, mem_texts]
  constructor
  · rintro ⟨a, ha, _, ⟨q, hq, _, ⟨_, rfl, b, hb, rfl⟩, rfl⟩, rfl⟩
    exact ⟨a, q, b, ha, hq.symm, hb, rfl⟩
  · rintro ⟨a, q, b, ha, hq, hb, rfl⟩
    exact ⟨a, ha, _, ⟨q, hq.symm, _, ⟨_, rfl, b, hb, rfl⟩, rfl⟩, rfl⟩

theorem denotes_dotted {names : List (List Char)} (h : names ≠ []) :
    Denotes (ofList (dotted names)) (texts (Callee names)) := by
  induction names with
  | nil => exact absurd rfl h
  | cons name names ih =>
      cases names with
      | nil =>
          apply (denotes_literal name).congr
          intro xs
          rw [mem_texts, mem_texts]
          constructor
          · rintro rfl
            exact .last _
          · rintro (_ | @⟨_, _, _, _, _, hrest⟩)
            · rfl
            · cases hrest
      | cons name' names =>
          apply (denotes_ofList_cons (denotes_literal name) (denotes_ofList_cons denotes_dot
            (ih (by simp)))).congr
          intro xs
          simp only [Language.mem_mul, mem_texts]
          constructor
          · rintro ⟨_, rfl, _, ⟨d, hd, rest, hrest, rfl⟩, rfl⟩
            exact .dotted _ hd hrest
          · rintro (_ | @⟨_, _, d, rest, hd, hrest⟩)
            exact ⟨name, rfl, _, ⟨d, hd, rest, hrest, rfl⟩, rfl⟩

/-! ## Type arguments -/

theorem closesTypes_zero {ts : List Char} : closesTypes 0 ts = true ↔ ts = [] := by
  rw [closesTypes, List.isEmpty_iff]

/-- What one character of type arguments can do: open a bracket, close one, or neither. -/
theorem closesTypes_cons {n : Nat} {c : Char} {ts : List Char}
    (h : closesTypes n (c :: ts) = true) :
    ∃ m, n = m + 1 ∧
      ((c = '<' ∧ n < typeDepth ∧ closesTypes (m + 2) ts = true) ∨
        (c = '>' ∧ closesTypes m ts = true) ∨
        (c ∉ ['<', '>', '(', ')'] ∧ closesTypes (m + 1) ts = true)) := by
  cases n with
  | zero => simp [closesTypes] at h
  | succ m =>
      refine ⟨m, rfl, ?_⟩
      rw [closesTypes] at h
      by_cases hopen : c = '<'
      · simp only [hopen, beq_self_eq_true, if_true, Bool.and_eq_true, decide_eq_true_eq] at h
        exact Or.inl ⟨hopen, h⟩
      · by_cases hclose : c = '>'
        · subst hclose
          exact Or.inr (Or.inl ⟨rfl, h⟩)
        · exact Or.inr (Or.inr (by simpa [hopen, hclose, and_assoc] using h))

/-- The characters between the brackets of type arguments. -/
def PlainTypes (xs : List Char) : Prop := ∀ c ∈ xs, c ∉ ['<', '>', '(', ')']

/-- A pair of inner brackets and what follows it. -/
def InnerTypes (xs : List Char) : Prop :=
  ∃ u v, PlainTypes u ∧ PlainTypes v ∧ xs = '<' :: (u ++ '>' :: v)

theorem closesTypes_plain {n : Nat} {u rest : List Char} (hu : PlainTypes u) :
    closesTypes (n + 1) (u ++ rest) = closesTypes (n + 1) rest := by
  induction u with
  | nil => rfl
  | cons c u ih =>
      have hc : c ≠ '<' ∧ c ≠ '>' ∧ c ≠ '(' ∧ c ≠ ')' := by
        simpa using hu c List.mem_cons_self
      rw [List.cons_append, closesTypes, ih fun d hd => hu d (List.mem_cons_of_mem _ hd)]
      simp [hc]

theorem closesTypes_flatten {S : List (List Char)} (hS : ∀ y ∈ S, InnerTypes y)
    {rest : List Char} : closesTypes 1 (S.flatten ++ rest) = closesTypes 1 rest := by
  induction S with
  | nil => rfl
  | cons y S ih =>
      obtain ⟨u, v, hu, hv, rfl⟩ := hS y List.mem_cons_self
      have hrest := ih fun z hz => hS z (List.mem_cons_of_mem _ hz)
      rw [List.flatten_cons, List.append_assoc, ← hrest, List.cons_append, closesTypes]
      simp only [beq_self_eq_true, if_true]
      rw [List.append_assoc, closesTypes_plain hu, List.cons_append, closesTypes]
      simp [typeDepth, closesTypes_plain hv]

/-- Brackets are opened and closed in pairs: what closes one open bracket is plain, then pairs, then
the closing bracket; what closes two begins with the end of a pair. -/
theorem closesTypes_shape (ts : List Char) :
    (closesTypes 1 ts = true → ∃ u, ∃ S : List (List Char), PlainTypes u ∧ (∀ y ∈ S, InnerTypes y) ∧
      ts = u ++ (S.flatten ++ ['>'])) ∧
    (closesTypes 2 ts = true → ∃ w v, ∃ S : List (List Char), PlainTypes w ∧ PlainTypes v ∧
      (∀ y ∈ S, InnerTypes y) ∧ ts = w ++ '>' :: (v ++ (S.flatten ++ ['>']))) := by
  have hnil : PlainTypes [] := by simp [PlainTypes]
  have hplain : ∀ c u, c ∉ ['<', '>', '(', ')'] → PlainTypes u → PlainTypes (c :: u) :=
    fun c u hc hu => List.forall_mem_cons.2 ⟨hc, hu⟩
  -- both depths at once: opening a bracket leads from the first to the second, closing one back
  induction ts with
  | nil => exact ⟨by simp [closesTypes], by simp [closesTypes]⟩
  | cons c ts ih =>
      refine ⟨?_, ?_⟩
      · intro h
        obtain ⟨m, hm, ⟨rfl, -, h⟩ | ⟨rfl, h⟩ | ⟨hc, h⟩⟩ := closesTypes_cons h
        · obtain rfl : m = 0 := by omega
          obtain ⟨w, v, S, hw, hv, hS, rfl⟩ := ih.2 h
          refine ⟨[], ('<' :: (w ++ '>' :: v)) :: S, hnil, ?_, by simp⟩
          exact List.forall_mem_cons.2 ⟨⟨w, v, hw, hv, rfl⟩, hS⟩
        · obtain rfl : m = 0 := by omega
          obtain rfl := closesTypes_zero.1 h
          exact ⟨[], [], hnil, by simp, rfl⟩
        · obtain rfl : m = 0 := by omega
          obtain ⟨u, S, hu, hS, rfl⟩ := ih.1 h
          exact ⟨c :: u, S, hplain c u hc hu, hS, rfl⟩
      · intro h
        obtain ⟨m, hm, ⟨-, hdeep, -⟩ | ⟨rfl, h⟩ | ⟨hc, h⟩⟩ := closesTypes_cons h
        · simp [typeDepth] at hdeep
        · obtain rfl : m = 1 := by omega
          obtain ⟨u, S, hu, hS, rfl⟩ := ih.1 h
          exact ⟨[], u, S, hnil, hu, hS, by simp⟩
        · obtain rfl : m = 1 := by omega
          obtain ⟨w, v, S, hw, hv, hS, rfl⟩ := ih.2 h
          exact ⟨c :: w, v, S, hplain c w hc hw, hv, hS, rfl⟩

theorem closesTypes_one_iff {ts : List Char} :
    closesTypes 1 ts = true ↔ ∃ u, ∃ S : List (List Char), PlainTypes u ∧ (∀ y ∈ S, InnerTypes y) ∧
      ts = u ++ (S.flatten ++ ['>']) := by
  constructor
  · exact (closesTypes_shape ts).1
  · rintro ⟨u, S, hu, hS, rfl⟩
    rw [closesTypes_plain hu, closesTypes_flatten hS]
    rfl

theorem denotes_typeText : Denotes typeText (texts PlainTypes) := by
  apply (denotes_span _ 0 none (by decide)).congr
  intro xs
  simp [CharSet.runs, mem_texts, CharSet.accepts_noneOf, PlainTypes, Within]

theorem denotes_inner :
    Denotes (ofList [.char '<', typeText, .char '>', typeText]) (texts InnerTypes) := by
  apply (denotes_ofList_cons (denotes_char '<') (denotes_ofList_cons denotes_typeText
    (denotes_ofList_cons (denotes_char '>')
      (denotes_ofList_cons denotes_typeText denotes_ofList_nil)))).congr
  intro xs
  simp only [mul_one, Language.mem_mul, mem_texts]
  constructor
  · rintro ⟨_, rfl, _, ⟨u, hu, _, ⟨_, rfl, v, hv, rfl⟩, rfl⟩, rfl⟩
    exact ⟨u, v, hu, hv, rfl⟩
  · rintro ⟨u, v, hu, hv, rfl⟩
    exact ⟨_, rfl, _, ⟨u, hu, _, ⟨_, rfl, v, hv, rfl⟩, rfl⟩, rfl⟩

theorem denotes_typeArguments : Denotes typeArguments (texts TypeArguments) := by
  have hinner : [] ∉ texts InnerTypes := by
    rintro ⟨u, v, -, -, h⟩
    simp at h
  apply (denotes_maybe (denotes_ofList_cons denotes_blanks (denotes_ofList_cons (denotes_char '<')
    (denotes_ofList_cons denotes_typeText (denotes_ofList_cons (denotes_star denotes_inner hinner)
      (denotes_ofList_cons (denotes_char '>') denotes_ofList_nil)))))).congr
  intro xs
  simp only [mul_one, Language.mem_add, Language.mem_one, Language.mem_mul, Language.mem_kstar,
    mem_texts]
  rw [TypeArguments, or_comm]
  refine or_congr Iff.rfl ?_
  simp only [closesTypes_one_iff]
  constructor
  · rintro ⟨a, ha, _, ⟨_, rfl, _, ⟨u, hu, _, ⟨_, ⟨S, rfl, hS⟩, _, rfl, rfl⟩, rfl⟩, rfl⟩, rfl⟩
    exact ⟨a, _, ha, ⟨u, S, hu, hS, rfl⟩, rfl⟩
  · rintro ⟨a, _, ha, ⟨u, S, hu, hS, rfl⟩, rfl⟩
    exact ⟨a, ha, _, ⟨_, rfl, _, ⟨u, hu, _, ⟨_, ⟨S, rfl, hS⟩, _, rfl, rfl⟩, rfl⟩, rfl⟩, rfl⟩

/-! ## Whole calls -/

/-- The quoted key: the group remembers the quote, and the recall reads the same one again. -/
theorem exists_end_quoted_iff {key : List Char} {rest : List Regex} {st : State} {cur : Cursor} :
    (∃ st' ∈ ends (ofList (.group 1 (.one quotes) :: .literal key :: .recall 1 .exact :: rest)) st,
      st'.cursor = cur) ↔
    ∃ q m, quotes.accepts q = true ∧ st.cursor.Over (q :: (key ++ [q])) m.cursor ∧
      ∃ st' ∈ ends (ofList rest) m, st'.cursor = cur ∧
        m.captures = (1, ⟨st.cursor, st.cursor.pos + 1⟩) :: st.captures := by
  have hquote : ∀ q (m : Cursor), st.cursor.Over [q] m →
      Capture.text ⟨st.cursor, st.cursor.pos + 1⟩ = [q] := by
    intro q m hm
    simp [Capture.text, hm.after_eq]
  constructor
  · rintro ⟨st', hst', hcur⟩
    obtain ⟨m₁, hm₁, hst₁⟩ := mem_ends_ofList_cons.1 hst'
    obtain ⟨m₂, hm₂, hst₂⟩ := mem_ends_ofList_cons.1 hst₁
    obtain ⟨m₃, hm₃, hst₃⟩ := mem_ends_ofList_cons.1 hst₂
    obtain ⟨m₀, hm₀, rfl⟩ := mem_ends_group.1 hm₁
    obtain ⟨_, ⟨q, hq, rfl⟩, hover₀, hcap₀⟩ := (denotes_one quotes _ _).1 hm₀
    obtain ⟨_, rfl, hover₂, hcap₂⟩ := (denotes_literal key _ _).1 hm₂
    obtain ⟨c, hc, hover₃, hcap₃⟩ := mem_ends_recall.1 hm₃
    -- neither the key nor the recall changes what the group remembers
    have hcap : m₃.captures = (1, ⟨st.cursor, st.cursor.pos + 1⟩) :: st.captures := by
      rw [hcap₃, hcap₂]
      simp [State.close, hcap₀, hover₀.pos_eq]
    have hc' : c = ⟨st.cursor, st.cursor.pos + 1⟩ := by
      rw [State.capture?, ← hcap₃, hcap] at hc
      simpa using hc.symm
    rw [hc', hquote q _ hover₀] at hover₃
    exact ⟨q, m₃, hq, hover₀.append (hover₂.append hover₃), st', hst₃, hcur, hcap⟩
  · rintro ⟨q, m, hq, hover, st', hst', hcur, hcap⟩
    obtain ⟨c₀, hover₀, hover⟩ := Cursor.Over.append_iff.1
      (show st.cursor.Over ([q] ++ (key ++ [q])) m.cursor from hover)
    obtain ⟨c₂, hover₂, hover₃⟩ := Cursor.Over.append_iff.1 hover
    refine ⟨st', ?_, hcur⟩
    refine mem_ends_ofList_cons.2 ⟨(st.moved c₀).close 1 st.cursor, ?_, ?_⟩
    · refine mem_ends_group.2 ⟨st.moved c₀, ?_, rfl⟩
      exact (denotes_one quotes _ _).2 ⟨[q], ⟨q, hq, rfl⟩, hover₀, rfl⟩
    refine mem_ends_ofList_cons.2 ⟨((st.moved c₀).close 1 st.cursor).moved c₂, ?_, ?_⟩
    · exact (denotes_literal key _ _).2 ⟨key, rfl, hover₂, rfl⟩
    refine mem_ends_ofList_cons.2 ⟨m, mem_ends_recall.2 ⟨⟨st.cursor, st.cursor.pos + 1⟩, ?_, ?_⟩,
      hst'⟩
    · simp [State.capture?, State.close, hover₀.pos_eq]
    · rw [hquote q c₀ hover₀]
      refine ⟨hover₃, hcap.trans ?_⟩
      simp [State.close, hover₀.pos_eq]

theorem exists_end_argument_iff {key : List Char} {st : State} {cur : Cursor} :
    (∃ st' ∈ ends (ofList [.blanks, .group 1 (.one quotes), .literal key, .recall 1 .exact,
      .blanks, .char ')']) st, st'.cursor = cur) ↔
    ∃ xs, Argument key xs ∧ st.cursor.Over xs cur := by
  constructor
  · rintro ⟨st', hst', hcur⟩
    obtain ⟨m, hm, hst'⟩ := mem_ends_ofList_cons.1 hst'
    obtain ⟨a, ha, hovera, -⟩ := (denotes_blanks _ _).1 hm
    obtain ⟨q, n, hq, hoverq, st'', hst'', hcur', -⟩ := exists_end_quoted_iff.1 ⟨st', hst', hcur⟩
    obtain ⟨_, ⟨b, hb, rfl⟩, hoverb, -⟩ := (denotes_close _ _).1 hst''
    refine ⟨_, ⟨a, q, b, ha, hq, hb, rfl⟩, ?_⟩
    rw [← hcur']
    simpa using hovera.append (hoverq.append hoverb)
  · rintro ⟨_, ⟨a, q, b, ha, hq, hb, rfl⟩, hover⟩
    obtain ⟨m, hm, hover⟩ := Cursor.Over.append_iff.1 hover
    obtain ⟨n, hn, hover⟩ := Cursor.Over.append_iff.1
      (show m.Over ((q :: (key ++ [q])) ++ (b ++ [')'])) cur by simpa using hover)
    obtain ⟨st', hst', hcur⟩ : ∃ st' ∈ ends (ofList [.group 1 (.one quotes), .literal key,
        .recall 1 .exact, .blanks, .char ')']) (st.moved m), st'.cursor = cur :=
      exists_end_quoted_iff.2 ⟨q, ⟨n, (1, ⟨m, m.pos + 1⟩) :: st.captures⟩, hq, hn,
        ⟨⟨cur, (1, ⟨m, m.pos + 1⟩) :: st.captures⟩,
          (denotes_close _ _).2 ⟨_, ⟨b, hb, rfl⟩, hover, rfl⟩, rfl, rfl⟩⟩
    exact ⟨st', mem_ends_ofList_cons.2
      ⟨st.moved m, (denotes_blanks _ _).2 ⟨a, ha, hm, rfl⟩, hst'⟩, hcur⟩

theorem denotes_head {names : List (List Char)} (h : names ≠ []) :
    Denotes (ofList (dotted names ++ [typeArguments, .blanks, .char '(']))
      (texts fun xs => ∃ head, Head names head ∧ xs = head ++ ['(']) := by
  have htail := denotes_ofList_cons denotes_typeArguments (denotes_ofList_cons denotes_blanks
    (denotes_ofList_cons (denotes_char '(') denotes_ofList_nil))
  apply (denotes_ofList_append (denotes_dotted h) htail).congr
  intro xs
  simp only [mul_one, Language.mem_mul, mem_texts]
  constructor
  · rintro ⟨c, hc, _, ⟨t, ht, _, ⟨g, hg, _, rfl, rfl⟩, rfl⟩, rfl⟩
    exact ⟨_, ⟨c, t, g, hc, ht, hg, rfl⟩, by simp⟩
  · rintro ⟨_, ⟨c, t, g, hc, ht, hg, rfl⟩, rfl⟩
    exact ⟨c, hc, _, ⟨t, ht, _, ⟨g, hg, _, rfl, rfl⟩, rfl⟩, by simp⟩

theorem names_ne_nil (form : List Char) : names form ≠ [] := by
  simp [names, splitOn, splitBy_ne_nil]

/-- Names with dots between them and an argument can end exactly behind the calls of the grammar. -/
theorem exists_end_call_iff {names : List (List Char)} (h : names ≠ []) {key : List Char} {st : State}
    {cur : Cursor} :
    (∃ st' ∈ ends (ofList (dotted names ++ argument key)) st, st'.cursor = cur) ↔
      ∃ xs, CallText names key xs ∧ st.cursor.Over xs cur := by
  have hshape : dotted names ++ argument key = (dotted names ++ [typeArguments, .blanks, .char '(']) ++
      [.blanks, .group 1 (.one quotes), .literal key, .recall 1 .exact, .blanks, .char ')'] := by
    simp [argument]
  rw [hshape]
  constructor
  · rintro ⟨st', hst', hcur⟩
    obtain ⟨n, hn, hst'⟩ := mem_ends_ofList_append.1 hst'
    obtain ⟨_, ⟨head, hhead, rfl⟩, hover, -⟩ := (denotes_head h _ _).1 hn
    obtain ⟨arg, harg, hover'⟩ := exists_end_argument_iff.1 ⟨st', hst', hcur⟩
    refine ⟨_, ⟨head, arg, hhead, harg, rfl⟩, ?_⟩
    simpa using hover.append hover'
  · rintro ⟨_, ⟨head, arg, hhead, harg, rfl⟩, hover⟩
    obtain ⟨n, hn, hover⟩ := Cursor.Over.append_iff.1
      (show st.cursor.Over ((head ++ ['(']) ++ arg) cur by simpa using hover)
    obtain ⟨st', hst', hcur⟩ := exists_end_argument_iff.2 ⟨arg, harg, (show
      (st.moved n).cursor.Over arg cur from hover)⟩
    refine ⟨st', mem_ends_ofList_append.2 ⟨st.moved n, ?_, hst'⟩, hcur⟩
    exact (denotes_head h _ _).2 ⟨_, ⟨head, hhead, rfl⟩, hn, rfl⟩

/-- **The pattern of a call form and the grammar agree**: the pattern can end exactly behind the
calls of the grammar, at places where no name goes on. -/
theorem exists_end_pattern_iff {form key : List Char} {st : State} {cur : Cursor} :
    (∃ st' ∈ ends (pattern form key) st, st'.cursor = cur) ↔
      Clear (.wordOr ['$']) st.cursor.before ∧
        ∃ xs, CallText (names form) key xs ∧ st.cursor.Over xs cur := by
  rw [← exists_end_call_iff (names_ne_nil form)]
  constructor
  · rintro ⟨st', hst', hcur⟩
    obtain ⟨m, hm, hcall⟩ := mem_ends_ofList_cons.1 hst'
    obtain ⟨rfl, hclear⟩ := mem_ends_notAfter.1 hm
    exact ⟨hclear, st', hcall, hcur⟩
  · rintro ⟨hclear, st', hst', hcur⟩
    exact ⟨st', mem_ends_ofList_cons.2 ⟨st, mem_ends_notAfter.2 ⟨rfl, hclear⟩, hst'⟩, hcur⟩

/-- The last name of a form. -/
def lastName (form : List Char) : List Char := (names form).getLast?.getD []

/-- What the pattern of a call without its receiver ends behind: at the start of the text, a dot and a
call of the last name alone. -/
theorem of_mem_ends_continuation {form key : List Char} {st st' : State}
    (h : st' ∈ ends (continuation form key) st) :
    st.cursor.before = [] ∧ ∃ dot xs, IsDot dot ∧ CallText [lastName form] key xs ∧
      st.cursor.Over (dot ++ xs) st'.cursor := by
  have hshape : continuation form key = ofList (.anchor .textStart ::
      ([blanks, maybe (.char '?'), .char '.', blanks] ++ (dotted [lastName form] ++ argument key))) :=
    rfl
  rw [hshape] at h
  obtain ⟨m, hm, hrest⟩ := mem_ends_ofList_cons.1 h
  obtain ⟨rfl, hstart⟩ : m = st ∧ st.cursor.before.isEmpty = true := by
    by_cases hempty : st.cursor.before.isEmpty = true
    · exact ⟨by simpa [ends, Anchor.holds, hempty] using hm, hempty⟩
    · simp [ends, Anchor.holds, hempty] at hm
  obtain ⟨n, hn, hcall⟩ := mem_ends_ofList_append.1 hrest
  obtain ⟨dot, hdot, hover, -⟩ := (denotes_dot _ _).1 hn
  obtain ⟨xs, hxs, hover'⟩ := (exists_end_call_iff (by simp)).1 ⟨st', hcall, rfl⟩
  exact ⟨List.isEmpty_iff.1 hstart, dot, xs, hdot, hxs, hover.append hover'⟩

end ServiceKeys.Call
