import ServiceKeys.Proofs.Import.Section

/-!
# Imports with comments around them

Declarations with line comments, on lines of their own before a declaration and at the ends of the
lines of a clause.  The words of a comment are arbitrary, and the search for imports does not know what
a comment is: it goes from any word `import` to the first quote behind it, unless a semicolon comes
first.  What it has found is rid of its comments (`withoutComments_remarked`).  So there are two ways
only to hide a declaration: a comment inside its clause has a quote or a semicolon, or one above it has
the word `import` and neither of them behind it.  A declaration without such comments is read, whatever
is written into the comments of the others, for no match goes over the end of a declaration
(`Annotated.stop_le`).  Main statement: `mem_all_of_harmless`.
-/

namespace ServiceKeys.Import

open Text Regex

/-! ## Comments at the ends of lines -/

/-- A comment to the end of its line. -/
structure Remark where
  words : List Char
  oneLine : '\n' ∉ words

/-- A comment with its mark. -/
def Remark.text (r : Remark) : List Char := ['/', '/'] ++ r.words

/-- A text with comments at the ends of its lines, where there are any for them. -/
def remarked : List (Option Remark) → List Char → List Char
  | _, [] => []
  | rs, c :: cs =>
    if c = '\n' then rs.head?.join.elim [] Remark.text ++ '\n' :: remarked rs.tail cs
    else c :: remarked rs cs

section Remarked

variable {rs : List (Option Remark)} {cs xs : List Char}

theorem remarked_cons {c : Char} (hc : c ≠ '\n') : remarked rs (c :: cs) = c :: remarked rs cs := by
  rw [remarked, if_neg hc]

theorem remarked_newline : remarked rs ('\n' :: cs) =
    rs.head?.join.elim [] Remark.text ++ '\n' :: remarked rs.tail cs := by
  rw [remarked, if_pos rfl]

/-- A text of one line takes no comments. -/
theorem remarked_append (h : '\n' ∉ xs) : remarked rs (xs ++ cs) = xs ++ remarked rs cs := by
  induction xs with
  | nil => rfl
  | cons c xs ih =>
      rw [List.mem_cons, not_or] at h
      rw [List.cons_append, remarked_cons (Ne.symm h.1), ih h.2, List.cons_append]

theorem remarked_eq_self (h : '\n' ∉ xs) : remarked rs xs = xs := by
  have happend : remarked rs (xs ++ []) = xs ++ remarked rs [] := remarked_append h
  rwa [List.append_nil, remarked, List.append_nil] at happend

theorem getLast?_remarked : (remarked rs cs).getLast? = cs.getLast? := by
  induction cs generalizing rs with
  | nil => rfl
  | cons c cs ih =>
      by_cases hc : c = '\n'
      · subst hc
        rw [remarked_newline, List.getLast?_append_of_ne_nil _ (by simp), List.getLast?_cons,
          List.getLast?_cons, ih]
      · rw [remarked_cons hc, List.getLast?_cons, List.getLast?_cons, ih]

end Remarked

/-! ### Cutting them out -/

section Cutting

variable {xs rest : List Char} {offset : Nat} {ms : List Match}

theorem advances_comment : Advances comment := by
  intro st st' hst'
  rcases List.mem_append.1 hst' with h | h
  · exact Advances.ofList_cons ((denotes_literal ['/', '/']).advances (by rw [mem_texts]; decide))
      [.span (.noneOf ['\n']) 0 none .greedy] st st' h
  · exact Advances.ofList_cons ((denotes_literal ['/', '*']).advances (by rw [mem_texts]; decide))
      _ st st' h

/-- What stands before the first match stays. -/
theorem cutGo_append
    (h : ∀ m ∈ ms.head?, offset + xs.length ≤ m.first ∧ m.first < m.stop) :
    cutGo offset (xs ++ rest) ms = xs ++ cutGo (offset + xs.length) rest ms := by
  cases ms with
  | nil => rfl
  | cons m ms =>
      obtain ⟨hfirst, hstop⟩ := h m rfl
      rw [cutGo, cutGo, List.take_append, List.drop_append, List.take_of_length_le (by omega),
        List.drop_of_length_le (by omega), List.nil_append, List.append_assoc, Nat.sub_sub, Nat.sub_sub]

/-- A text without slashes stays, and the search for comments goes on behind it. -/
theorem cutGo_noSlash (h : '/' ∉ xs) (front rest : List Char) :
    cutGo front.length (xs ++ rest) (matchesFrom comment (front ++ (xs ++ rest)) front.length) =
      xs ++ cutGo (front ++ xs).length rest
        (matchesFrom comment (front ++ xs ++ rest) (front ++ xs).length) := by
  have hle : front.length ≤ (front ++ xs).length := by simp
  have hlength : (front ++ xs).length ≤ (front ++ (xs ++ rest)).length := by
    simp only [List.length_append]
    omega
  have hnone : NoneBetween comment (front ++ (xs ++ rest)) front.length (front ++ xs).length := by
    intro l hl hlt
    refine matchInside_eq_none (hlt.le.trans hlength) ?_
    rintro left right hcut rfl hfits
    obtain ⟨as, bs, hbs, rfl, rfl, rfl⟩ := cut_inside hcut.symm hl hlt
    obtain ⟨more, hmore⟩ := exists_slash_of_fits hfits
    obtain ⟨c, bs, rfl⟩ := List.exists_cons_of_ne_nil hbs
    obtain rfl : c = '/' := (List.cons.inj hmore).1
    simp at h
  rw [(reports_nil advances_comment hle hlength hnone).matchesFrom_eq, List.nil_append,
    cutGo_append, List.length_append, List.append_assoc]
  intro m hm
  have hfirst := le_first_of_mem_head? advances_comment hlength hm
  rwa [List.length_append] at hfirst

/-- A comment goes to the end of its line. -/
theorem preferred_comment (r : Remark) {front : List Char} :
    preferred comment ⟨.between front (r.text ++ '\n' :: rest), []⟩ =
      some ⟨.between (front ++ r.text) ('\n' :: rest), []⟩ := by
  have hwords : ∀ c ∈ r.words, (CharSet.noneOf ['\n']).accepts c = true := by
    intro c hc
    have hne : c ≠ '\n' := fun heq => r.oneLine (heq ▸ hc)
    simp [CharSet.accepts_noneOf, hne]
  have hend : ∀ c ∈ ('\n' :: rest).head?, (CharSet.noneOf ['\n']).accepts c = false := by
    simp [CharSet.accepts_noneOf]
  have hline : preferred (ofList [.literal ['/', '/'], .span (.noneOf ['\n']) 0 none .greedy])
      ⟨.between front (['/', '/'] ++ (r.words ++ '\n' :: rest)), []⟩ =
        some ⟨.between (front ++ ['/', '/'] ++ r.words) ('\n' :: rest), []⟩ :=
    ((comesTo_cons preferred_literal).trans
      (comesTo_cons (preferred_span hwords (Nat.zero_le _) hend)) fits_ofList_nil).2
  rw [Remark.text, List.append_assoc, ← List.append_assoc front]
  exact preferred_alt hline

/-- A comment is cut out. -/
theorem cutGo_remark (r : Remark) (front : List Char) :
    cutGo front.length (r.text ++ '\n' :: rest)
        (matchesFrom comment (front ++ (r.text ++ '\n' :: rest)) front.length) =
      cutGo (front ++ r.text).length ('\n' :: rest)
        (matchesFrom comment (front ++ r.text ++ '\n' :: rest) (front ++ r.text).length) := by
  have hm : matchInside comment (front ++ (r.text ++ '\n' :: rest)) front.length = some _ :=
    matchInside_of_preferred (preferred_comment r)
  rw [matchesFrom_cons advances_comment le_rfl (by simp) (fun l hl hlt => by omega) hm, cutGo]
  have hfirst : Match.first ⟨.between front (r.text ++ '\n' :: rest),
      ⟨.between (front ++ r.text) ('\n' :: rest), []⟩⟩ = front.length := rfl
  have hstop : Match.stop ⟨.between front (r.text ++ '\n' :: rest),
      ⟨.between (front ++ r.text) ('\n' :: rest), []⟩⟩ = (front ++ r.text).length := rfl
  rw [hfirst, hstop, Nat.sub_self, List.take_zero, List.nil_append, List.length_append,
    Nat.add_sub_cancel_left, List.drop_left, List.append_assoc]

/-- Comments are cut out line by line: the induction is on the text without them. -/
theorem cutGo_remarked {cs b : List Char} (h : '/' ∉ cs ++ b) (rs : List (Option Remark))
    (front : List Char) :
    cutGo front.length (remarked rs cs ++ b)
      (matchesFrom comment (front ++ (remarked rs cs ++ b)) front.length) = cs ++ b := by
  induction cs generalizing rs front with
  | nil =>
      have hcut := cutGo_noSlash (show '/' ∉ b from h) front []
      have hend : matchesFrom comment (front ++ b) (front ++ b).length = [] :=
        matchesFrom_length advances_comment
      rw [List.append_nil, List.append_nil, hend] at hcut
      simpa [remarked, cutGo] using hcut
  | cons c cs ih =>
      rw [List.cons_append, List.mem_cons, not_or] at h
      have hstep : ∀ (rs : List (Option Remark)) (front : List Char),
          cutGo front.length (c :: (remarked rs cs ++ b))
            (matchesFrom comment (front ++ c :: (remarked rs cs ++ b)) front.length) =
              c :: (cs ++ b) := by
        intro rs front
        have hcut := cutGo_noSlash (show '/' ∉ [c] by simpa using h.1) front (remarked rs cs ++ b)
        rw [ih h.2] at hcut
        exact hcut
      by_cases hc : c = '\n'
      · subst hc
        rw [remarked_newline, List.append_assoc, List.cons_append]
        cases rs.head?.join with
        | none => exact hstep _ front
        | some r => exact (cutGo_remark r front).trans (hstep _ (front ++ r.text))
      · rw [remarked_cons hc, List.cons_append]
        exact hstep rs front

/-- **A text is rid of its comments.** -/
theorem withoutComments_remarked {cs b : List Char} (h : '/' ∉ cs ++ b) (rs : List (Option Remark)) :
    withoutComments (remarked rs cs ++ b) = cs ++ b := by
  rw [withoutComments, findAll_eq_matchesFrom advances_comment]
  exact cutGo_remarked h rs []

end Cutting

/-! ### Clauses with comments -/

namespace Clause

variable (C : Clause) {rs : List (Option Remark)}

/-- The comments of a clause do not count. -/
theorem clause_remarked {b : List Char} (hb : Blanks b) :
    clause (remarked rs C.text ++ b) = C.pairs := by
  refine C.clause_eq_pairs ?_
  rw [withoutComments_remarked (C.slash_notMem hb), C.trim_text hb]

theorem head?_remarked_notBlank (rest : List Char) :
    ∀ c ∈ (remarked rs C.text ++ rest).head?, isBlank c = false := by
  cases htext : C.text with
  | nil =>
      have hblank := C.head?_notBlank ['\n'] '\n' (by simp [htext])
      exact absurd hblank (by decide)
  | cons c cs =>
      have hc := C.head?_notBlank [] c (by simp [htext])
      have hne : c ≠ '\n' := by
        rintro rfl
        exact absurd hc (by decide)
      rw [remarked_cons hne]
      simpa using hc

/-- A clause with comments is not taken for the word `type`: there are none in front of its first name,
and none behind it on the same line. -/
theorem remarked_ne_marked {rest b more : List Char} (hrest : Loose rest) (hb : Blanks b)
    (hne : b ≠ []) : remarked rs C.text ++ rest ≠ "type".toList ++ (b ++ more) := by
  cases C with
  | default n =>
      rw [text, remarked_eq_self (n.notMem (by decide))]
      exact n.ne_marked hrest hb hne
  | tail t =>
      intro h
      cases t <;> exact absurd (List.cons.inj h).1 (by decide)
  | both n space t =>
      have hcomma : remarked rs (text (.both n space t)) =
          n.text ++ ',' :: remarked rs (space.text ++ t.text) := by
        rw [text, remarked_append (n.notMem (by decide)), remarked_cons (by decide)]
      rw [hcomma, List.append_assoc]
      exact n.ne_marked (loose_cons (by decide)) hb hne

/-- A clause with comments is taken whole, unless a sign in them ends it. -/
theorem enclosed_remarked (h : Clear (remarked rs C.text)) : Enclosed (remarked rs C.text) where
  clear := h
  head?_notBlank := C.head?_remarked_notBlank
  getLast?_notBlank := by
    rw [getLast?_remarked]
    exact C.getLast?_notBlank
  ne_marked := C.remarked_ne_marked

end Clause

/-! ## How far a match goes -/

/-- A match of an import, cut at its two quotes. -/
structure ImportCut (front text opening : List Char) (q : Char) (module more : List Char) : Prop where
  text_eq : text = opening ++ q :: (module ++ q :: more)
  fresh : Fresh front
  keywordAt : KeywordAt Kind.imported.keywords front text
  clear : Clear opening
  quote : q ∈ quotes
  quotable : Quotable module

theorem Space.clear (s : Space) : Clear s.text := (s.made []).clear (by decide)

theorem importCut_of_mem_ends {front text : List Char} {st : State}
    (h : st ∈ ends importDeclaration ⟨.between front text, []⟩) :
    ∃ opening q module, ImportCut front text opening q module st.cursor.after := by
  have hkeyword := Kind.imported.beginsWith ⟨st, h⟩
  obtain ⟨hfresh, h₁⟩ := mem_ends_notAfter_cons.1 h
  obtain ⟨_, rfl, _, rfl, h₂⟩ := (denotes_literal _).mem_ends_cons.1 h₁
  obtain ⟨b₁, ⟨hb₁, -⟩, _, rfl, h₃⟩ := denotes_blanks1.mem_ends_cons.1 h₂
  obtain ⟨t, ht, _, rfl, h₄⟩ :=
    (denotes_maybe (denotes_seq (denotes_literal _) denotes_blanks1)).mem_ends_cons.1 h₃
  obtain ⟨c, ⟨hc, -⟩, _, rfl, h₅⟩ := (denotes_noneOf _ 0 (by decide)).mem_ends_group_cons.1 h₄
  obtain ⟨b₂, hb₂, _, rfl, h₆⟩ := denotes_blanks.mem_ends_cons.1 h₅
  obtain ⟨-, h₇⟩ := mem_ends_notAfter_cons.1 h₆
  obtain ⟨_, rfl, _, rfl, h₈⟩ := (denotes_literal _).mem_ends_cons.1 h₇
  obtain ⟨b₃, hb₃, _, rfl, h₉⟩ := denotes_blanks.mem_ends_cons.1 h₈
  rw [← List.append_nil (quotedModule 2)] at h₉
  obtain ⟨q, xs, more, front', cap, cap', hq, hxs, rfl, -, h₁₀⟩ := mem_ends_quotedModule h₉
  obtain rfl := mem_ends_ofList_nil.1 h₁₀
  have htype : Clear t := by
    rcases ht with ⟨_, rfl, b, ⟨hb, -⟩, rfl⟩ | rfl
    · exact Clear.append (by decide) (Space.clear ⟨b, hb⟩)
    · decide
  have hopening : Clear ("import".toList ++ (b₁ ++ (t ++ (c ++ (b₂ ++ ("from".toList ++ b₃)))))) :=
    Clear.append (by decide) ((Space.clear ⟨b₁, hb₁⟩).append (htype.append (Clear.append hc
      ((Space.clear ⟨b₂, hb₂⟩).append (Clear.append (by decide) (Space.clear ⟨b₃, hb₃⟩))))))
  exact ⟨_, q, xs, by simp only [List.append_assoc]; rfl, hfresh, hkeyword, hopening, hq, hxs⟩

theorem exists_importCut {text : List Char} {l : Nat} {m : Match} (hl : l ≤ text.length)
    (hm : matchInside importDeclaration text l = some m) :
    ∃ left right opening q module more, text = left ++ right ∧ left.length = l ∧
      ImportCut left right opening q module more ∧ m.stop + more.length = text.length := by
  obtain ⟨hmem, -, -, -, hcursor⟩ := of_matchInside hm
  have hlength : (text.take l).length = l := by rw [List.length_take, Nat.min_eq_left hl]
  have hinside := Cursor.inside_append (text.take l) (text.drop l)
  rw [List.take_append_drop, hlength] at hinside
  rw [hinside] at hmem
  obtain ⟨opening, q, module, hcut⟩ := importCut_of_mem_ends hmem
  refine ⟨_, _, opening, q, module, _, (List.take_append_drop l text).symm, hlength, hcut, ?_⟩
  have hstop := stop_le_length hl hm
  rw [hcursor]
  simp only [Cursor.inside, List.length_drop]
  omega

/-- The first sign that no clause goes over. -/
theorem exists_first_sign {text : List Char} (h : ¬ Clear text) :
    ∃ xs c ys, text = xs ++ c :: ys ∧ Clear xs ∧ c ∈ ['\x27', '"', ';'] := by
  cases hfind : text.find? fun c => decide (c ∈ ['\x27', '"', ';']) with
  | none =>
      refine absurd (fun c hc => ?_) h
      simpa using List.find?_eq_none.1 hfind c hc
  | some c =>
      obtain ⟨hc, xs, ys, hcut, hxs⟩ := List.find?_eq_some_iff_append.1 hfind
      refine ⟨xs, c, ys, hcut, fun d hd => ?_, by simpa using hc⟩
      simpa using hxs d hd

namespace ImportCut

variable {front text opening module more ys zs : List Char} {q : Char}

/-- The first sign of the text is the quote in front of the module. -/
theorem of_first_sign (h : ImportCut front text opening q module more) {c : Char} {xs : List Char}
    (htext : text = xs ++ c :: ys) (hxs : Clear xs) (hc : c ∈ ['\x27', '"', ';']) :
    q = c ∧ module ++ q :: more = ys := by
  have hq : q ∈ ['\x27', '"', ';'] := (List.mem_append_left [';'] h.quote : q ∈ quotes ++ [';'])
  obtain ⟨-, heq, hrest⟩ := append_cons_unique (p := fun a => decide (a ∉ ['\x27', '"', ';']))
    (by simpa [Clear] using h.clear) (by simpa [Clear] using hxs) (decide_eq_false (not_not_intro hq))
    (decide_eq_false (not_not_intro hc)) (h.text_eq.symm.trans htext)
  exact ⟨heq, hrest⟩

/-- **Behind a sign that no clause goes over, a match goes over no line feed and one quote only**: the
module begins at that sign and has neither. -/
theorem length_le (h : ImportCut front text opening q module more) {e : Char}
    (htext : text = ys ++ e :: zs) (hys : ¬ Clear ys) (he : e ∈ ['\x27', '"', '\n']) :
    zs.length ≤ more.length := by
  obtain ⟨xs, c, ys, rfl, hxs, hc⟩ := exists_first_sign hys
  have hsign : text = xs ++ c :: (ys ++ e :: zs) := by rw [htext, List.append_assoc, List.cons_append]
  obtain ⟨rfl, hcut⟩ := h.of_first_sign hsign hxs hc
  rcases append_cases hcut with ⟨as, rfl, has⟩ | ⟨as, hne, hmodule, has⟩
  · have hlength := congrArg List.length has
    simp only [List.length_cons, List.length_append] at hlength
    omega
  · obtain ⟨d, as, rfl⟩ := List.exists_cons_of_ne_nil hne
    obtain rfl : e = d := (List.cons.inj has).1
    exact absurd he (h.quotable.1 e (by simp [hmodule]))

/-- A match does not go over a module in quotes that it begins in front of. -/
theorem length_le_of_quoted (h : ImportCut front text opening q module more) {d : Char} {xs : List Char}
    (hd : d ∈ quotes) (hxs : NoQuote xs) (htext : text = ys ++ d :: (xs ++ d :: zs)) :
    zs.length ≤ more.length := by
  by_cases hys : Clear ys
  · obtain ⟨rfl, hcut⟩ := h.of_first_sign htext hys
      (List.mem_append_left [';'] hd : d ∈ quotes ++ [';'])
    obtain ⟨-, -, rfl⟩ := quote_unique h.quotable.noQuote hxs h.quote h.quote hcut
    exact le_rfl
  · have hle := h.length_le htext hys (List.mem_append_left ['\n'] hd : d ∈ quotes ++ ['\n'])
    simp only [List.length_append, List.length_cons] at hle
    omega

end ImportCut

/-- A match that begins inside of a text stops inside of it, if every cut leaves enough behind it. -/
theorem stop_le_of_importCut {front text rest : List Char} {l : Nat} {m : Match}
    (hl : front.length ≤ l) (hlt : l < (front ++ text).length)
    (hm : matchInside importDeclaration (front ++ (text ++ rest)) l = some m)
    (h : ∀ {as bs opening : List Char} {q : Char} {module more : List Char}, text = as ++ bs → bs ≠ [] →
      ImportCut (front ++ as) (bs ++ rest) opening q module more → rest.length ≤ more.length) :
    m.stop ≤ (front ++ text).length := by
  obtain ⟨left, right, opening, q, module, more, hcut, rfl, himport, hstop⟩ :=
    exists_importCut (lt_length_of_matchInside Kind.imported.advances hm).le hm
  obtain ⟨as, bs, hbs, rfl, rfl, rfl⟩ := cut_inside hcut.symm hl hlt
  have hle := h rfl hbs himport
  simp only [List.length_append] at hstop ⊢
  omega

/-- The beginning of a front does not matter. -/
theorem Fresh.of_append {front xs : List Char} (h : Fresh (front ++ xs)) : Fresh xs := by
  by_cases hxs : xs = []
  · simp [hxs, Fresh]
  · rwa [Fresh, List.getLast?_append_of_ne_nil _ hxs] at h

/-! ## Declarations with comments -/

/-- A comment on a line of its own. -/
structure Note where
  indent : Space
  remark : Remark

def Note.text (n : Note) : List Char := n.indent.text ++ (n.remark.text ++ ['\n'])

/-- An import with comments above it and inside of its clause. -/
structure Annotated where
  above : List Note
  indent : Space
  gap : Gap
  typed : Option Gap
  clause : Clause
  /-- The comments at the ends of the clause's lines. -/
  inside : List (Option Remark)
  before : Gap
  after : Gap
  quote : Quote
  module : List Char
  quotable : Quotable module
  behind : Space
  /-- A module with blanks in it is the last one on its line. -/
  apart : (∀ c ∈ module, isBlank c = false) ∨ behind.text.head? = some '\n'

namespace Annotated

/-- What stands in front of the keyword. -/
def lead (d : Annotated) : List Char := d.above.flatMap Note.text ++ d.indent.text

/-- The clause with its comments. -/
def written (d : Annotated) : List Char := remarked d.inside d.clause.text

/-- What stands between the keyword and the module. -/
def opening (d : Annotated) : List Char :=
  "import".toList ++ (d.gap.text ++ (marked d.typed ++
    (d.written ++ (d.before.text ++ ("from".toList ++ d.after.text)))))

def text (d : Annotated) : List Char :=
  d.lead ++ d.opening ++ d.quote.mark :: (d.module ++ d.quote.mark :: ';' :: d.behind.text)

/-- The names that a declaration brings into scope. -/
def bindings (d : Annotated) : List Binding :=
  d.clause.pairs.map fun (exported, localName) =>
    ⟨String.ofList (trim d.module), exported, localName⟩

end Annotated

instance : DecidablePred Fresh := fun front =>
  decidable_of_iff (∀ c ∈ front.getLast?.toList, (CharSet.wordOr ['$', '.']).accepts c = false)
    (by simp [Fresh])

/-- A word `import` stands in a text with a blank behind it, but no sign that ends its clause. -/
def LeavesOpen (text : List Char) : Prop :=
  ∃ i < text.length, Fresh (text.take i) ∧ "import".toList <+: text.drop i ∧
    (text.drop (i + 6)).head?.any isBlank = true ∧ Clear (text.drop i)

instance (text : List Char) : Decidable (LeavesOpen text) :=
  inferInstanceAs (Decidable (∃ i < text.length, _))

/-- The comments of a declaration do not hide it: those in its clause have neither quotes nor
semicolons, and those above it leave no word `import` without one. -/
structure Annotated.Harmless (d : Annotated) : Prop where
  inside : Clear d.written
  above : ¬ LeavesOpen d.lead

namespace Annotated

variable (d : Annotated)

theorem text_eq : d.text = d.lead ++ d.opening ++
    d.quote.mark :: (d.module ++ d.quote.mark :: ';' :: d.behind.text) := rfl

theorem opening_eq : d.opening = "import".toList ++ (d.gap.text ++ (marked d.typed ++
    (d.written ++ (d.before.text ++ ("from".toList ++ d.after.text))))) := rfl

/-- A declaration with more text behind it, from its keyword on. -/
theorem text_append (rest : List Char) : d.text ++ rest = d.lead ++ ("import".toList ++
    (d.gap.text ++ (marked d.typed ++ importRest d.written d.before d.after d.quote d.module
      (';' :: (d.behind.text ++ rest))))) := by
  rw [text_eq, opening_eq]
  simp only [importRest, List.append_assoc, List.cons_append]

/-! ### The match of a declaration -/

/-- The lines above a declaration end in a line feed. -/
theorem above_cases :
    d.above.flatMap Note.text = [] ∨ ∃ xs, d.above.flatMap Note.text = xs ++ ['\n'] := by
  rcases List.eq_nil_or_concat d.above with hnil | ⟨ns, n, hns⟩
  · exact Or.inl (by rw [hnil]; rfl)
  · refine Or.inr ⟨ns.flatMap Note.text ++ (n.indent.text ++ n.remark.text), ?_⟩
    rw [hns]
    simp [Note.text]

/-- What stands in front of the keyword ends in a blank. -/
theorem getLast?_lead : ∀ c ∈ d.lead.getLast?, isBlank c = true := by
  intro c hc
  by_cases hindent : d.indent.text = []
  · rw [lead, hindent, List.append_nil] at hc
    rcases d.above_cases with hnil | ⟨xs, hxs⟩
    · simp [hnil] at hc
    · obtain rfl : '\n' = c := by simpa [hxs] using hc
      decide
  · rw [lead, List.getLast?_append_of_ne_nil _ hindent] at hc
    exact d.indent.blanks c (List.mem_of_getLast? hc)

theorem fresh_lead {front : List Char} (hfront : Fresh front) : Fresh (front ++ d.lead) := by
  by_cases hlead : d.lead = []
  · rwa [hlead, List.append_nil]
  · refine fresh_of_blank ?_
    rw [List.getLast?_append_of_ne_nil _ hlead]
    exact d.getLast?_lead

theorem text_eq_semicolon : d.text =
    d.lead ++ d.opening ++ d.quote.mark :: (d.module ++ [d.quote.mark]) ++ ';' :: d.behind.text := by
  simp [text]

theorem fresh_append (front : List Char) : Fresh (front ++ d.text) := by
  rw [text_eq_semicolon, ← List.append_assoc]
  exact d.behind.fresh_behind _

variable {d}

/-- **A declaration is matched from its keyword on**, and the match gives its bindings. -/
theorem exists_matchInside (h : Clear d.written) {front : List Char} (hfront : Fresh front)
    (rest : List Char) :
    ∃ m, matchInside importDeclaration (front ++ (d.text ++ rest)) (front ++ d.lead).length = some m ∧
      Kind.imported.found m = d.bindings.map fun b => ((front ++ d.lead).length, b) := by
  obtain ⟨m, b, hm, hfirst, hb, h₁, h₃, -⟩ := exists_matchInside_import (d.clause.enclosed_remarked h)
    d.quotable d.before d.after d.quote (d.fresh_lead hfront) d.gap d.typed
    (';' :: (d.behind.text ++ rest))
  refine ⟨m, ?_, ?_⟩
  · rw [d.text_append, ← List.append_assoc]
    exact hm
  · rw [Kind.imported.found_of_groups (d.clause.clause_remarked hb) h₁ h₃, hfirst, bindings]

/-! ### Matches that begin in a declaration -/

variable (d)

/-- A sign above a declaration stands in a line that ends above it. -/
theorem exists_lineEnd {as bs : List Char} (hlead : d.lead = as ++ bs) (hbs : ¬ Clear bs) :
    ∃ ys zs, bs = ys ++ '\n' :: zs ∧ ¬ Clear ys := by
  rcases append_cases hlead with ⟨cs, -, hindent⟩ | ⟨cs, hne, habove, rfl⟩
  · exact absurd (fun c hc => d.indent.clear c (by simp [hindent, hc])) hbs
  · -- the lines above end in a line feed, and so does what is left of them
    obtain ⟨ys, c, rfl⟩ : ∃ ys c, cs = ys ++ [c] :=
      ⟨_, _, (List.dropLast_append_getLast hne).symm⟩
    rcases d.above_cases with hnil | ⟨xs, hxs⟩
    · simp [hnil] at habove
    · rw [hxs, ← List.append_assoc] at habove
      obtain ⟨-, hlast⟩ := List.append_inj' habove rfl
      obtain rfl : '\n' = c := (List.cons.inj hlast).1
      refine ⟨ys, d.indent.text, by simp, fun hys => hbs ?_⟩
      exact (hys.append (by decide)).append d.indent.clear

/-- A keyword that begins above a declaration stands there with the blank behind it, for what stands
above ends in a blank. -/
theorem keyword_in_lead {as bs rest text : List Char} {c : Char} (hlead : d.lead = as ++ bs)
    (hbs : bs ≠ []) (hkeyword : bs ++ rest = "import".toList ++ c :: text) :
    ∃ bs', bs = "import".toList ++ c :: bs' := by
  rcases append_cases hkeyword with ⟨cs, hword, -⟩ | ⟨cs, hcs, rfl, hcs'⟩
  · exfalso
    have hletter : ∀ e ∈ "import".toList, isBlank e = false := by decide
    have hlast := List.getLast?_eq_some_getLast hbs
    have hmem : bs.getLast hbs ∈ "import".toList := by
      rw [hword]
      exact List.mem_append_left _ (List.getLast_mem hbs)
    have hblank := d.getLast?_lead (bs.getLast hbs) (by
      rw [hlead, List.getLast?_append_of_ne_nil _ hbs]
      exact hlast)
    exact Bool.false_ne_true ((hletter _ hmem).symm.trans hblank)
  · obtain ⟨e, cs, rfl⟩ := List.exists_cons_of_ne_nil hcs
    obtain rfl : c = e := (List.cons.inj hcs').1
    exact ⟨cs, rfl⟩

variable {front rest : List Char} {l : Nat} {m : Match}

/-- A match that begins in the lines above a declaration stops in them, unless these leave a clause
open. -/
theorem stop_le_lead (h : ¬ LeavesOpen d.lead) (hl : front.length ≤ l)
    (hlt : l < (front ++ d.lead).length)
    (hm : matchInside importDeclaration (front ++ (d.lead ++ rest)) l = some m) :
    m.stop ≤ (front ++ d.lead).length := by
  refine stop_le_of_importCut hl hlt hm fun {as bs opening q module more} hlead hbs hcut => ?_
  obtain ⟨-, k, hk, c, text, hkeyword, hc⟩ := hcut.keywordAt
  obtain rfl : k = "import".toList := List.mem_singleton.1 hk
  obtain ⟨bs', rfl⟩ := d.keyword_in_lead hlead hbs hkeyword
  have hsign : ¬ Clear ("import".toList ++ c :: bs') := by
    intro hclear
    refine h ⟨as.length, ?_, ?_⟩
    · rw [hlead, List.length_append]
      exact Nat.lt_add_of_pos_right (List.length_pos_iff.2 hbs)
    · rw [hlead, List.take_left, List.drop_left, ← List.drop_drop, List.drop_left]
      exact ⟨hcut.fresh.of_append, List.prefix_append _ _, hc, hclear⟩
  obtain ⟨ys, zs, hys, hclear⟩ := d.exists_lineEnd hlead hsign
  have hline : "import".toList ++ c :: bs' ++ rest = ys ++ '\n' :: (zs ++ rest) := by
    rw [hys, List.append_assoc, List.cons_append]
  have hle := hcut.length_le hline hclear (by decide)
  rw [List.length_append] at hle
  omega

/-- **No match goes over the end of a declaration.** -/
theorem stop_le (hl : front.length ≤ l) (hlt : l < (front ++ d.text).length)
    (hm : matchInside importDeclaration (front ++ (d.text ++ rest)) l = some m) :
    m.stop ≤ (front ++ d.text).length := by
  refine stop_le_of_importCut hl hlt hm fun {as bs opening q module more} htext hbs hcut => ?_
  have hbehind := d.behind.quiet_behind .imported rest
  rcases d.apart with hplain | hline
  · -- behind the first quote no keyword begins
    have hquiet := (quiet_quoted .imported d.quote d.quotable.noQuote hplain _).append hbehind
    rcases append_cases (d.text_eq.symm.trans htext) with ⟨cs, rfl, hcs⟩ | ⟨cs, -, -, rfl⟩
    · rw [← List.append_assoc] at hcut
      exact absurd hcut.keywordAt (hquiet _ cs bs ((by simp : _ = _).trans hcs) hbs)
    · have hquoted : cs ++ d.quote.mark :: (d.module ++ d.quote.mark :: ';' :: d.behind.text) ++ rest =
          cs ++ d.quote.mark :: (d.module ++ d.quote.mark :: (';' :: d.behind.text ++ rest)) := by simp
      have hle := hcut.length_le_of_quoted d.quote.mark_mem d.quotable.noQuote hquoted
      rw [List.length_append] at hle
      omega
  · obtain ⟨b, hb⟩ : ∃ b, d.behind.text = '\n' :: b := List.head?_eq_some_iff.1 hline
    rcases append_cases (d.text_eq_semicolon.symm.trans htext) with ⟨cs, rfl, hcs⟩ | ⟨cs, -, -, rfl⟩
    · rw [← List.append_assoc] at hcut
      exact absurd hcut.keywordAt (hbehind _ cs bs hcs hbs)
    · have hend : cs ++ ';' :: d.behind.text ++ rest = cs ++ [';'] ++ '\n' :: (b ++ rest) := by
        simp [hb]
      have hle := hcut.length_le hend (fun hclear => hclear ';' (by simp) (by simp)) (by simp)
      rw [List.length_append] at hle
      omega

end Annotated

/-! ## Sections with comments -/

theorem Fresh.append_section {front : List Char} (h : Fresh front) (ds : List Annotated) :
    Fresh (front ++ ds.flatMap Annotated.text) := by
  induction ds generalizing front with
  | nil => simpa using h
  | cons d ds ih =>
      rw [List.flatMap_cons, ← List.append_assoc]
      exact ih (d.fresh_append front)

/-- No match goes over the end of a section. -/
theorem stop_le_section (ds : List Annotated) (front : List Char) {rest : List Char} {l : Nat}
    {m : Match} (hl : front.length ≤ l) (hlt : l < (front ++ ds.flatMap Annotated.text).length)
    (hm : matchInside importDeclaration (front ++ (ds.flatMap Annotated.text ++ rest)) l = some m) :
    m.stop ≤ (front ++ ds.flatMap Annotated.text).length := by
  induction ds generalizing front with
  | nil =>
      rw [List.flatMap_nil, List.append_nil] at hlt
      omega
  | cons d ds ih =>
      rw [List.flatMap_cons] at hlt hm ⊢
      by_cases hd : l < (front ++ d.text).length
      · rw [List.append_assoc] at hm
        have hle := d.stop_le hl hd hm
        simp only [List.length_append] at hle ⊢
        omega
      · rw [← List.append_assoc] at hlt ⊢
        rw [List.append_assoc, ← List.append_assoc front] at hm
        exact ih _ (Nat.le_of_not_lt hd) hlt hm

/-- What the search for imports finds is found. -/
theorem mem_all_of_mem_findAll {content : List Char} {m : Match} {x : Nat × Binding}
    (hm : m ∈ findAll importDeclaration content) (hx : x ∈ Kind.imported.found m) :
    x.2 ∈ all content := by
  have hmem : x ∈ located content := List.mem_append_left _ (List.mem_flatMap.2 ⟨m, hm, hx⟩)
  exact List.mem_map_of_mem (List.mem_mergeSort.2 hmem)

/-- **Comments do not hide an import**, unless one in its clause has a quote or a semicolon or one above
it has a word `import` and neither of them behind it.  The comments of the other declarations are
arbitrary, and so is the text behind the last one. -/
theorem mem_all_of_harmless (ds : List Annotated) (rest : List Char) {d : Annotated} (hd : d ∈ ds)
    (hharmless : d.Harmless) : ∀ b ∈ d.bindings, b ∈ all (ds.flatMap Annotated.text ++ rest) := by
  obtain ⟨ds, ds', rfl⟩ := List.append_of_mem hd
  have hcontent : (ds ++ d :: ds').flatMap Annotated.text ++ rest =
      ds.flatMap Annotated.text ++ (d.text ++ (ds'.flatMap Annotated.text ++ rest)) := by simp
  rw [hcontent]
  have hfront : Fresh (ds.flatMap Annotated.text) :=
    Fresh.append_section (by simp [Fresh] : Fresh []) ds
  obtain ⟨m, hm, hfound⟩ := d.exists_matchInside hharmless.inside hfront
    (ds'.flatMap Annotated.text ++ rest)
  have hlength := lt_length_of_matchInside Kind.imported.advances hm
  -- a match that goes over the keyword would begin in an earlier declaration or in the lines above
  rcases mem_findAll_or_covered Kind.imported.advances hlength.le hm with hmem | ⟨m', hm', hfirst, hstop⟩
  · intro b hb
    have hx : ((ds.flatMap Annotated.text ++ d.lead).length, b) ∈ Kind.imported.found m := by
      rw [hfound]
      exact List.mem_map_of_mem hb
    exact mem_all_of_mem_findAll hmem hx
  · exfalso
    obtain ⟨l, -, hl⟩ := matchInside_of_mem_findAll Kind.imported.advances hm'
    rw [(of_matchInside hl).2.1] at hfirst
    by_cases hbefore : l < (ds.flatMap Annotated.text).length
    · have hle := stop_le_section ds [] (Nat.zero_le l) hbefore hl
      rw [List.nil_append] at hle
      rw [List.length_append] at hstop
      omega
    · rw [d.text_append] at hl
      have hle := d.stop_le_lead hharmless.above (Nat.le_of_not_lt hbefore) hfirst hl
      omega

/-! ### The two ways to hide an import -/

/-- A name of one letter that no reserved word has. -/
def letter (c : Char) (hc : (c.isAlpha || c == '_') = true) : Name where
  text := [c]
  shape := ⟨c, [], rfl, hc, by simp⟩
  free := fun hmem => by
    have hlong : ∀ k ∈ reserved, k.length ≠ 1 := by decide
    exact hlong _ hmem rfl

def oneBlank : Gap := ⟨⟨[' '], by unfold Blanks; decide⟩, by simp⟩

/-- A list of two names, each on a line. -/
def twoLines : Clause :=
  .tail (.named [⟨oneBlank.toSpace, some ⟨none, letter 'a' (by decide), none⟩, ⟨[], by simp [Blanks]⟩⟩,
    ⟨⟨[' ', '\n', ' '], by unfold Blanks; decide⟩, some ⟨none, letter 'b' (by decide), none⟩,
      oneBlank.toSpace⟩])

/-- An import with a comment above it and one in its clause. -/
def sample (above inside : Remark) (clause : Clause) : Annotated where
  above := [⟨⟨[], by simp [Blanks]⟩, above⟩]
  indent := ⟨[], by simp [Blanks]⟩
  gap := oneBlank
  typed := none
  clause := clause
  inside := [some inside]
  before := oneBlank
  after := oneBlank
  quote := .double
  module := ['x']
  quotable := by unfold Quotable; decide
  behind := ⟨['\n'], by unfold Blanks; decide⟩
  apart := .inr rfl

/-- The word in the comment is taken for the keyword. -/
def openedAbove : Annotated :=
  sample ⟨" import".toList, by decide⟩ ⟨[], by simp⟩ (.default (letter 'A' (by decide)))

/-- The quote in the comment ends the clause. -/
def closedInside : Annotated := sample ⟨" names".toList, by decide⟩ ⟨" it's".toList, by decide⟩ twoLines

/-- The quotes above stand in the line of the word, and the word in the clause does not matter. -/
def harmless : Annotated :=
  sample ⟨" import \x7b b \x7d from 'y'".toList, by decide⟩ ⟨" import".toList, by decide⟩ twoLines

/-- The third declaration is read, although the first two are hidden by their comments. -/
theorem mem_all_of_harmless_sample :
    [openedAbove, closedInside, harmless].flatMap Annotated.text =
        ("// import\nimport A from \"x\";\n" ++
          "// names\nimport \x7b a, // it's\n b \x7d from \"x\";\n" ++
          "// import \x7b b \x7d from 'y'\nimport \x7b a, // import\n b \x7d from \"x\";\n").toList ∧
      harmless.bindings = [⟨"x", .named "a", "a"⟩, ⟨"x", .named "b", "b"⟩] ∧ harmless.Harmless ∧
      ∀ b ∈ harmless.bindings,
        b ∈ all ([openedAbove, closedInside, harmless].flatMap Annotated.text ++ []) := by
  have hmem : harmless ∈ [openedAbove, closedInside, harmless] :=
    List.mem_cons_of_mem _ (List.mem_cons_of_mem _ List.mem_cons_self)
  have hharmless : harmless.Harmless := ⟨by decide +kernel, by decide +kernel⟩
  exact ⟨by decide +kernel, by decide +kernel, hharmless, mem_all_of_harmless _ [] hmem hharmless⟩

/-- **An import is hidden** by a word `import` in a comment above it, and by a quote in a comment inside
of its clause: what is found has no binding at all. -/
theorem all_sample_hidden :
    (openedAbove.text = "// import\nimport A from \"x\";\n".toList ∧
      openedAbove.bindings = [⟨"x", .default, "A"⟩] ∧ all openedAbove.text = []) ∧
    closedInside.text = "// names\nimport \x7b a, // it's\n b \x7d from \"x\";\n".toList ∧
      closedInside.bindings = [⟨"x", .named "a", "a"⟩, ⟨"x", .named "b", "b"⟩] ∧
      all closedInside.text = [] := by
  have hall : ∀ content, located content = [] → all content = [] := by
    intro content h
    simp [all, h]
  exact ⟨⟨by decide +kernel, by decide +kernel, hall _ (by decide +kernel)⟩, by decide +kernel,
    by decide +kernel, hall _ (by decide +kernel)⟩

end ServiceKeys.Import
