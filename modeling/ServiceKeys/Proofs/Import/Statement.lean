import ServiceKeys.Proofs.Import.Keyword

/-!
# Declarations, as they are written

A declaration with `import` and `from` or with `require`, its module in quotes of either kind, blanks
of any length where blanks may stand.  The pattern for its kind matches it from its keyword to the last
sign before the semicolon, and the match holds the clause and the module.  The clause of an import is
matched reluctantly and may run over lines and over names such as `from`; what ends it is the word
`from` in front of the first quote, and there is one way only to come to that.  Main statement:
`Statement.exists_matchInside`.
-/

namespace ServiceKeys.Import

open Text Regex Computability

/-! ## Quoted modules -/

/-- A kind of quote. -/
inductive Quote where
  | single
  | double

def Quote.mark : Quote → Char
  | .single => '\x27'
  | .double => '"'

def quotes : List Char := ['\x27', '"']

theorem Quote.mark_mem (q : Quote) : q.mark ∈ quotes := by cases q <;> decide

/-- A module, as it is written. -/
structure Specifier where
  text : List Char
  ne_nil : text ≠ []
  plain : ∀ c ∈ text, (isAsciiWord c || ['@', '.', '/', '-'].contains c) = true

/-- A text that may stand in quotes. -/
def Quotable (xs : List Char) : Prop := (∀ c ∈ xs, c ∉ ['\x27', '"', '\n']) ∧ 1 ≤ xs.length

/-- A module in quotes. -/
def quoted (q : Quote) (spec : Specifier) : List Char := q.mark :: (spec.text ++ [q.mark])

/-- A text without quotes. -/
def NoQuote (text : List Char) : Prop := ∀ c ∈ text, c ∉ quotes

theorem NoQuote.append {text text' : List Char} (h : NoQuote text) (h' : NoQuote text') :
    NoQuote (text ++ text') := fun c hc => (List.mem_append.1 hc).elim (h c) (h' c)

theorem Made.noQuote {signs text : List Char} (h : Made signs text) (hsigns : NoQuote signs) :
    NoQuote text := by
  intro c hc hquote
  have hsign : ∀ c ∈ quotes, isWord c = false ∧ isBlank c = false := by decide
  exact h.notMem ⟨(hsign c hquote).1, (hsign c hquote).2, fun hmem => hsigns c hmem hquote⟩ hc

theorem Space.noQuote (s : Space) : NoQuote s.text := (s.made []).noQuote (by simp [NoQuote])

/-- Two ways to cut a text at its first quote are the same. -/
theorem quote_unique {xs ys rest rest' : List Char} {c d : Char} (hx : NoQuote xs) (hy : NoQuote ys)
    (hc : c ∈ quotes) (hd : d ∈ quotes) (h : xs ++ c :: rest = ys ++ d :: rest') :
    xs = ys ∧ c = d ∧ rest = rest' := by
  refine append_cons_unique (p := fun a => decide (a ∉ quotes)) ?_ ?_ ?_ ?_ h
  · simpa [NoQuote] using hx
  · simpa [NoQuote] using hy
  · simpa using hc
  · simpa using hd

namespace Specifier

variable (spec : Specifier)

theorem notBlank : ∀ c ∈ spec.text, isBlank c = false := by
  intro c hc
  have hplain := spec.plain c hc
  rw [Bool.or_eq_true] at hplain
  rcases hplain with hword | hsign
  · exact not_blank_of_continue (isIdentifierContinue_of_isWord (isWord_of_isAsciiWord hword))
  · have hsigns : ∀ d ∈ ['@', '.', '/', '-'], isBlank d = false := by decide
    exact hsigns c (by simpa using hsign)

theorem noQuote : NoQuote spec.text := by
  intro c hc hquote
  have hplain := spec.plain c hc
  have hquotes : ∀ d ∈ quotes, (isAsciiWord d || ['@', '.', '/', '-'].contains d) = false := by decide
  rw [hquotes c hquote] at hplain
  exact Bool.false_ne_true hplain

theorem trim_text : trim spec.text = spec.text := by
  have htrim : trim ([] ++ (spec.text ++ [])) = spec.text := by
    refine trim_eq (by simp [Blanks]) (by simp [Blanks]) (fun c hc => ?_) fun c hc => ?_
    · exact spec.notBlank c (List.mem_of_head? hc)
    · exact spec.notBlank c (List.mem_of_getLast? hc)
  rwa [List.nil_append, List.append_nil] at htrim

theorem quotable : Quotable spec.text := by
  refine ⟨fun c hc hmem => ?_, List.length_pos_iff.2 spec.ne_nil⟩
  rcases List.mem_cons.1 hmem with rfl | hmem
  · exact spec.noQuote _ hc (by decide)
  rcases List.mem_cons.1 hmem with rfl | hmem
  · exact spec.noQuote _ hc (by decide)
  obtain rfl := List.mem_singleton.1 hmem
  exact absurd (spec.notBlank _ hc) (by decide)

end Specifier

theorem Quotable.noQuote {xs : List Char} (h : Quotable xs) : NoQuote xs := fun c hc hquote =>
  h.1 c hc (List.mem_append_left ['\n'] hquote : c ∈ quotes ++ ['\n'])

theorem quoted_append (q : Quote) (spec : Specifier) (rest : List Char) :
    quoted q spec ++ rest = q.mark :: (spec.text ++ q.mark :: rest) := by simp [quoted]

theorem denotes_quote : Denotes (.one (.oneOf ['\x27', '"']))
    (texts fun xs => ∃ c ∈ quotes, xs = [c]) := by
  apply (denotes_one _).congr
  intro xs
  simp only [CharSet.singles, mem_texts, CharSet.accepts_oneOf, List.contains_iff_mem]
  rfl

section QuotedModule

variable {rs : List Regex} {front text xs rest : List Char} {caps : List (Nat × Capture)} {st : State}

theorem fits_quotedModule (q : Quote) (hxs : Quotable xs)
    (hfits : ∀ front caps, Fits (ofList rs) ⟨.between front rest, caps⟩) :
    Fits (ofList (quotedModule 2 ++ rs))
      ⟨.between front (q.mark :: (xs ++ q.mark :: rest)), caps⟩ := by
  have htext : q.mark :: (xs ++ q.mark :: rest) = [q.mark] ++ (xs ++ ([q.mark] ++ rest)) := rfl
  rw [htext]
  refine denotes_quote.fits_group_cons ⟨q.mark, q.mark_mem, rfl⟩ ?_
  refine (denotes_noneOf _ 1 (by decide)).fits_group_cons hxs ?_
  have hmark := captureOf_text front [q.mark] (xs ++ ([q.mark] ++ rest))
  refine (hfits _ _).imp fun st hst => (mem_ends_recall_cons rfl).2 ⟨rest, ?_, hst⟩
  rw [hmark]

/-- What a quoted module is: it ends at the second quote. -/
theorem mem_ends_quotedModule
    (h : st ∈ ends (ofList (quotedModule 2 ++ rs)) ⟨.between front text, caps⟩) :
    ∃ (q : Char) (xs more front' : List Char) (c c' : Capture), q ∈ quotes ∧ Quotable xs ∧
      text = q :: (xs ++ q :: more) ∧ c.text = xs ∧
      st ∈ ends (ofList rs) ⟨.between front' more, (3, c) :: (2, c') :: caps⟩ := by
  obtain ⟨_, ⟨q, hq, rfl⟩, _, rfl, h₁⟩ := denotes_quote.mem_ends_group_cons.1 h
  obtain ⟨xs, hxs, _, rfl, h₂⟩ := (denotes_noneOf _ 1 (by decide)).mem_ends_group_cons.1 h₁
  obtain ⟨more, hmore, h₃⟩ := (mem_ends_recall_cons rfl).1 h₂
  rw [captureOf_text] at hmore
  refine ⟨q, xs, more, _, _, _, hq, hxs, ?_, captureOf_text _ _ _, h₃⟩
  rw [hmore]
  rfl

end QuotedModule

/-! ## Declarations -/

/-- The two kinds of declaration. -/
inductive Kind where
  | imported
  | required
  deriving DecidableEq

namespace Kind

def pattern : Kind → Regex
  | .imported => importDeclaration
  | .required => requireDeclaration

def keywords : Kind → List (List Char)
  | .imported => ["import".toList]
  | .required => ["const".toList, "let".toList, "var".toList]

/-- The pairs that are read off a clause. -/
def clausePairs : Kind → List Char → List (Exported × String)
  | .imported => clause
  | .required => requireClause

/-- The bindings that are read off a match. -/
def found (kind : Kind) (m : Match) : List (Nat × Binding) :=
  bindings m (kind.clausePairs ((m.group? 1).getD []))

theorem keywords_subset (kind : Kind) : kind.keywords ⊆ reserved := by cases kind <;> decide

end Kind

/-- What a required module is held by. -/
inductive Target where
  | name (n : Name)
  | unpacked (cells : List Cell)

/-- A target binds what a clause does. -/
def Target.clause : Target → Clause
  | .name n => .default n
  | .unpacked cells => .tail (.named cells)

/-- A declaration without its module. -/
inductive Form where
  | imported (gap : Gap) (typed : Option Gap) (clause : Clause) (before after : Gap)
  | required (gap : Gap) (target : Target) (before after : Gap)

namespace Form

def kind : Form → Kind
  | .imported .. => .imported
  | .required .. => .required

/-- What stands in front of the module. -/
def opening : Form → List Char
  | .imported gap typed clause before after =>
      "import".toList ++ (gap.text ++ (marked typed ++ (clause.text ++ (before.text ++
        ("from".toList ++ after.text)))))
  | .required gap target before after =>
      "const".toList ++ (gap.text ++ (target.clause.text ++ (before.text ++ (['='] ++
        (after.text ++ "require(".toList)))))

theorem opening_imported (gap : Gap) (typed : Option Gap) (C : Clause) (before after : Gap) :
    opening (.imported gap typed C before after) =
      "import".toList ++ (gap.text ++ (marked typed ++ (C.text ++ (before.text ++
        ("from".toList ++ after.text))))) := rfl

theorem opening_required (gap : Gap) (target : Target) (before after : Gap) :
    opening (.required gap target before after) =
      "const".toList ++ (gap.text ++ (target.clause.text ++ (before.text ++ (['='] ++
        (after.text ++ "require(".toList))))) := rfl

/-- What stands behind the module. -/
def closing : Form → List Char
  | .imported .. => []
  | .required .. => [')']

def pairs : Form → List (Exported × String)
  | .imported _ _ clause _ _ => clause.pairs
  | .required _ target _ _ => target.clause.pairs

end Form

/-- A declaration and the blanks behind it. -/
structure Statement where
  form : Form
  quote : Quote
  module : Specifier
  behind : Space

namespace Statement

/-- A declaration without its semicolon. -/
def core (s : Statement) : List Char :=
  s.form.opening ++ (quoted s.quote s.module ++ s.form.closing)

def text (s : Statement) : List Char := s.core ++ ';' :: s.behind.text

/-- The names that a declaration brings into scope. -/
def bindings (s : Statement) : List Binding :=
  s.form.pairs.map fun (exported, localName) =>
    ⟨String.ofList s.module.text, exported, localName⟩

end Statement

/-! ## Imports -/

section Imports

variable {front rest : List Char} {st : State}

/-- The pattern of an import behind its keyword and the word `type`. -/
def importTail : List Regex :=
  [.group 1 (.span (.noneOf ['\x27', '"', ';']) 0 none .reluctant), blanks,
    notAfter (.wordOr ['$']), .literal "from".toList, blanks] ++ quotedModule 2

/-- A clause is not taken for the word `type`. -/
theorem Clause.ne_marked (C : Clause) {rest b more : List Char} (hrest : Loose rest) (hb : Blanks b)
    (hne : b ≠ []) : C.text ++ rest ≠ "type".toList ++ (b ++ more) := by
  cases C with
  | default n => exact n.ne_marked hrest hb hne
  | tail t =>
      intro h
      cases t <;> exact absurd (List.cons.inj h).1 (by decide)
  | both n space t =>
      rw [text, List.append_assoc]
      exact n.ne_marked (loose_cons (by decide)) hb hne

/-- A text without the signs that no clause goes over. -/
def Clear (text : List Char) : Prop := ∀ c ∈ text, c ∉ ['\x27', '"', ';']

instance : DecidablePred Clear := fun text => inferInstanceAs (Decidable (∀ c ∈ text, _))

theorem Clear.append {text text' : List Char} (h : Clear text) (h' : Clear text') :
    Clear (text ++ text') := fun c hc => (List.mem_append.1 hc).elim (h c) (h' c)

theorem Clear.noQuote {text : List Char} (h : Clear text) : NoQuote text := fun c hc hquote =>
  h c hc (List.mem_append_left [';'] hquote : c ∈ quotes ++ [';'])

theorem Made.clear {signs text : List Char} (h : Made signs text) (hsigns : Clear signs) :
    Clear text := by
  intro c hc hmem
  have hsign : ∀ d ∈ ['\x27', '"', ';'], isWord d = false ∧ isBlank d = false := by decide
  exact h.notMem ⟨(hsign c hmem).1, (hsign c hmem).2, fun hsign => hsigns c hsign hmem⟩ hc

/-- A text that is taken whole for a clause: no sign in it ends the clause, and neither a blank nor the
word `type` at its edges is taken from it. -/
structure Enclosed (text : List Char) : Prop where
  clear : Clear text
  head?_notBlank : ∀ rest, ∀ c ∈ (text ++ rest).head?, isBlank c = false
  getLast?_notBlank : ∀ c ∈ text.getLast?, isBlank c = false
  ne_marked : ∀ {rest b more : List Char}, Loose rest → Blanks b → b ≠ [] →
    text ++ rest ≠ "type".toList ++ (b ++ more)

theorem Clause.enclosed (C : Clause) : Enclosed C.text where
  clear := C.made.clear (by decide)
  head?_notBlank := C.head?_notBlank
  getLast?_notBlank := C.getLast?_notBlank
  ne_marked := C.ne_marked

/-- The text of an import from its clause on. -/
def importRest (clause : List Char) (before after : Gap) (q : Quote) (module rest : List Char) :
    List Char :=
  clause ++ (before.text ++ ("from".toList ++ (after.text ++ q.mark :: (module ++ q.mark :: rest))))

variable {T M : List Char} (hT : Enclosed T) (hM : Quotable M) (before after : Gap) (q : Quote)

include hT hM in
theorem fits_importTail :
    Fits (ofList importTail) ⟨.between front (importRest T before after q M rest), []⟩ := by
  have hclause : T ∈ texts fun xs => Clear xs ∧ 0 ≤ xs.length := ⟨hT.clear, Nat.zero_le _⟩
  have hedge : ∀ c ∈ (front ++ T ++ before.text).getLast?,
      (CharSet.wordOr ['$']).accepts c = false := by
    intro c hc
    rw [List.getLast?_append_of_ne_nil _ before.ne_nil] at hc
    rw [CharSet.accepts_nameChar]
    exact not_continue_of_blank (before.blanks c (List.mem_of_getLast? hc))
  refine (denotes_noneOf _ 0 (by decide)).fits_group_cons hclause ?_
  refine denotes_blanks.fits_cons before.blanks (fits_notAfter_cons hedge ?_)
  refine (denotes_literal _).fits_cons rfl (denotes_blanks.fits_cons after.blanks ?_)
  rw [← List.append_nil (quotedModule 2)]
  exact fits_quotedModule q hM fun _ _ => fits_ofList_nil

theorem noQuote_from : NoQuote "from".toList := by
  unfold NoQuote
  decide

include hT hM in
/-- **The clause of an import ends in one way only**: the match holds the clause, perhaps with blanks
behind it, and the module. -/
theorem of_mem_ends_importTail
    (h : st ∈ ends (ofList importTail) ⟨.between front (importRest T before after q M rest), []⟩) :
    ∃ b, Blanks b ∧ (st.capture? 1).map Capture.text = some (T ++ b) ∧
      (st.capture? 3).map Capture.text = some M ∧ st.cursor.after = rest := by
  obtain ⟨c, ⟨hc, -⟩, _, htext, h₁⟩ := (denotes_noneOf _ 0 (by decide)).mem_ends_group_cons.1 h
  obtain ⟨b, hb, _, rfl, h₂⟩ := denotes_blanks.mem_ends_cons.1 h₁
  obtain ⟨-, h₃⟩ := mem_ends_notAfter_cons.1 h₂
  obtain ⟨_, rfl, _, rfl, h₄⟩ := (denotes_literal _).mem_ends_cons.1 h₃
  obtain ⟨b', hb', _, rfl, h₅⟩ := denotes_blanks.mem_ends_cons.1 h₄
  rw [← List.append_nil (quotedModule 2)] at h₅
  obtain ⟨q', xs, more, front', cap, cap', hq', hxs, rfl, hcap, h₆⟩ := mem_ends_quotedModule h₅
  obtain rfl := mem_ends_ofList_nil.1 h₆
  -- both readings come to the first quote, and to the second
  have hcut : (T ++ (before.text ++ ("from".toList ++ after.text))) ++
      q.mark :: (M ++ q.mark :: rest) =
        (c ++ (b ++ ("from".toList ++ b'))) ++ q' :: (xs ++ q' :: more) := by
    simpa only [importRest, List.append_assoc] using htext
  obtain ⟨hopening, rfl, hmodule⟩ := quote_unique
    (hT.clear.noQuote.append (before.noQuote.append (noQuote_from.append after.noQuote)))
    ((Clear.noQuote hc).append ((Space.noQuote ⟨b, hb⟩).append
      (noQuote_from.append (Space.noQuote ⟨b', hb'⟩)))) q.mark_mem hq' hcut
  obtain ⟨rfl, -, rfl⟩ := quote_unique hM.noQuote hxs.noQuote q.mark_mem q.mark_mem hmodule
  -- before the quote there are blanks, and before them the word
  have hrun : (T ++ before.text ++ "from".toList) ++ after.text =
      (c ++ b ++ "from".toList) ++ b' := by
    simpa only [List.append_assoc] using hopening
  have hlast : ∀ xs : List Char, ∀ d ∈ (xs ++ "from".toList).getLast?, isBlank d = false := by
    intro xs d hd
    rw [List.getLast?_append_of_ne_nil _ (by decide)] at hd
    have hm : "from".toList.getLast? = some 'm' := rfl
    obtain rfl := Option.some.inj (hm.symm.trans hd)
    decide
  obtain ⟨hword, -⟩ := append_run_unique after.blanks hb' (hlast _) (hlast _) hrun
  rcases append_cases (List.append_cancel_right hword) with ⟨as, rfl, has⟩ | ⟨as, hne, hT', rfl⟩
  · exact ⟨as, (blanks_append_iff.1 (has ▸ before.blanks)).1, by simp, by simp [hcap], rfl⟩
  · -- the clause does not end in a blank
    exfalso
    have hlast := List.getLast?_eq_some_getLast hne
    have hblank := hb _ (List.mem_append_left _ (List.mem_of_getLast? hlast))
    rw [hT.getLast?_notBlank _ (by rw [hT', List.getLast?_append, hlast]; rfl)] at hblank
    exact Bool.false_ne_true hblank

/-- The front of a declaration: no name goes on into its keyword, and no dot stands before it. -/
def Fresh (front : List Char) : Prop :=
  ∀ c ∈ front.getLast?, (CharSet.wordOr ['$', '.']).accepts c = false

include hT in
theorem importRest_head? : ∀ c ∈ (importRest T before after q M rest).head?, isBlank c = false :=
  hT.head?_notBlank _

include hT in
/-- The word `type` is taken with all the blanks behind it, if it is there. -/
theorem preferred_marked (typed : Option Gap) :
    preferred (maybe (.seq (.literal "type".toList) blanks1))
        ⟨.between front (marked typed ++ importRest T before after q M rest), []⟩ =
      some ⟨.between (front ++ marked typed) (importRest T before after q M rest), []⟩ := by
  have hrest : ∀ c ∈ (importRest T before after q M rest).head?, isBlank c = false :=
    importRest_head? hT before after q
  cases typed with
  | none =>
      simp only [marked, List.nil_append, List.append_nil]
      refine preferred_maybe_none ?_
      rintro ⟨st, hst⟩
      obtain ⟨m, hm, hst⟩ := mem_ends_seq.1 hst
      obtain ⟨_, rfl, _, htype, rfl⟩ := (denotes_literal _).mem_ends_between.1 hm
      obtain ⟨b, ⟨hb, hne⟩, more, rfl, -⟩ := denotes_blanks1.mem_ends_between.1 hst
      exact hT.ne_marked (before.loose _) hb hne htype
  | some gap =>
      rw [marked, List.append_assoc, ← List.append_assoc front]
      refine preferred_maybe ?_
      exact ((comesTo_cons preferred_literal).trans
        (comesTo_cons (gap.preferred_blanks1 hrest)) fits_ofList_nil).2

theorem marked_head? (typed : Option Gap) {rest : List Char}
    (hrest : ∀ c ∈ rest.head?, isBlank c = false) :
    ∀ c ∈ (marked typed ++ rest).head?, isBlank c = false := by
  cases typed with
  | none => exact hrest
  | some gap =>
      simp [marked]
      decide

include hT hM in
/-- **An import is matched from its keyword to its second quote.** -/
theorem exists_matchInside_import (hfront : Fresh front) (gap : Gap) (typed : Option Gap)
    (rest : List Char) :
    ∃ m b, matchInside importDeclaration (front ++ ("import".toList ++ (gap.text ++ (marked typed ++
        importRest T before after q M rest)))) front.length = some m ∧ m.first = front.length ∧
      Blanks b ∧ m.group? 1 = some (T ++ b) ∧ m.group? 3 = some M ∧ m.final.cursor.after = rest := by
  have hcomes : ComesTo (notAfter (.wordOr ['$', '.']) :: .literal "import".toList :: blanks1 ::
        maybe (.seq (.literal "type".toList) blanks1) :: importTail)
      ⟨.between front ("import".toList ++ (gap.text ++ (marked typed ++
        importRest T before after q M rest))), []⟩ importTail
      ⟨.between (front ++ "import".toList ++ gap.text ++ marked typed)
        (importRest T before after q M rest), []⟩ :=
    (comesTo_cons (preferred_notAfter hfront)).trans <| (comesTo_cons preferred_literal).trans <|
      (comesTo_cons (gap.preferred_blanks1 (marked_head? typed
        (importRest_head? hT before after q)))).trans <|
      comesTo_cons (preferred_marked hT before after q typed)
  obtain ⟨st, hst⟩ := (fits_importTail hT hM before after q).exists_preferred
  obtain ⟨b, hb, h₁, h₃, hafter⟩ := of_mem_ends_importTail hT hM before after q
    (mem_ends_of_preferred hst)
  have hm := matchInside_of_preferred ((hcomes (fits_importTail hT hM before after q)).2.trans hst)
  exact ⟨_, b, hm, rfl, hb, h₁, h₃, hafter⟩

end Imports

/-! ## Required modules -/

section Requires

variable {front rest : List Char} {st : State}

theorem denotes_requireKeyword : Denotes
    (anyOf [.literal "const".toList, .literal "let".toList, .literal "var".toList])
    (texts (· ∈ Kind.required.keywords)) := by
  apply (denotes_alt (denotes_literal _) (denotes_alt (denotes_literal _) (denotes_literal _))).congr
  intro xs
  simp only [Language.mem_add, mem_texts, Kind.keywords, List.mem_cons, List.not_mem_nil, or_false]

theorem denotes_identifierPattern : Denotes identifierPattern (texts BareName) := by
  apply (denotes_seq (denotes_one _) (denotes_span (.wordOr ['$']) 0 none (by decide))).congr
  intro xs
  simp only [Language.mem_mul, CharSet.singles, CharSet.runs, mem_texts, CharSet.accepts_identifierStart,
    CharSet.accepts_nameChar, BareName]
  constructor
  · rintro ⟨_, ⟨c, hc, rfl⟩, rest, ⟨hrest, -⟩, rfl⟩
    exact ⟨c, rest, rfl, hc, hrest⟩
  · rintro ⟨c, rest, rfl, hc, hrest⟩
    exact ⟨[c], ⟨c, hc, rfl⟩, rest, ⟨hrest, Nat.zero_le _, by simp [Within]⟩, rfl⟩

/-- What may hold a required module: a list in braces or a bare name. -/
def Holds (xs : List Char) : Prop :=
  (∃ ys, '\x7d' ∉ ys ∧ xs = '\x7b' :: (ys ++ ['\x7d'])) ∨ BareName xs

theorem denotes_target : Denotes
    (.alt (ofList [.char '\x7b', .span (.noneOf ['\x7d']) 0 none .greedy, .char '\x7d'])
      identifierPattern) (texts Holds) := by
  apply (denotes_alt (denotes_ofList_cons (denotes_char _) (denotes_ofList_cons
    (denotes_noneOf _ 0 (by decide)) (denotes_ofList_cons (denotes_char _) denotes_ofList_nil)))
    denotes_identifierPattern).congr
  intro xs
  simp only [Language.mem_add, Language.mem_mul, mul_one, mem_texts, Holds]
  refine or_congr_left ?_
  constructor
  · rintro ⟨_, rfl, _, ⟨ys, ⟨hys, -⟩, _, rfl, rfl⟩, rfl⟩
    exact ⟨ys, fun hmem => hys _ hmem (by simp), rfl⟩
  · rintro ⟨ys, hys, rfl⟩
    refine ⟨_, rfl, _, ⟨ys, ⟨fun c hc hmem => ?_, Nat.zero_le _⟩, _, rfl, rfl⟩, rfl⟩
    exact hys (List.mem_singleton.1 hmem ▸ hc)

theorem Target.holds (target : Target) : Holds target.clause.text := by
  cases target with
  | name n => exact Or.inr n.bareName
  | unpacked cells => exact Or.inl ⟨body cells, (made_body cells).notMem (by decide), rfl⟩

theorem Holds.head?_notBlank {xs : List Char} (h : Holds xs) (rest : List Char) :
    ∀ c ∈ (xs ++ rest).head?, isBlank c = false := by
  rcases h with ⟨ys, -, rfl⟩ | hname
  · simp
    decide
  · obtain ⟨c, ys, rfl, hc, -⟩ := hname
    simpa using not_blank_of_continue (isIdentifierContinue_of_start hc)

/-- Two ways to read what holds a required module are the same. -/
theorem Holds.unique {xs ys rest rest' : List Char} (hx : Holds xs) (hy : Holds ys)
    (hrest : Loose rest) (hrest' : Loose rest') (h : xs ++ rest = ys ++ rest') :
    xs = ys ∧ rest = rest' := by
  -- a name does not begin with a brace
  have hmixed : ∀ {us vs ws rest : List Char}, BareName us → us ++ ws ≠ '\x7b' :: (vs ++ rest) := by
    rintro us vs ws rest ⟨c, us, rfl, hc, -⟩ hcut
    rw [(List.cons.inj hcut).1] at hc
    exact absurd hc (by decide)
  rcases hx with ⟨us, hus, rfl⟩ | hx <;> rcases hy with ⟨vs, hvs, rfl⟩ | hy
  · obtain ⟨rfl, rfl⟩ := cut_unique hus hvs (by simpa using h)
    exact ⟨rfl, rfl⟩
  · exact absurd (by simpa using h.symm) (hmixed hy)
  · exact absurd (by simpa using h) (hmixed hx)
  · exact run_append_unique hx.isIdentifierContinue hy.isIdentifierContinue hrest hrest' h

variable (gap before after : Gap) (target : Target) (q : Quote) (spec : Specifier)

/-- The text of a required module from its keyword on. -/
def requireText (rest : List Char) : List Char :=
  "const".toList ++ (gap.text ++ (target.clause.text ++ (before.text ++ (['='] ++ (after.text ++
    ("require(".toList ++ (quoted q spec ++ ([')'] ++ rest))))))))

theorem requireText_eq : requireText gap before after target q spec rest =
    "const".toList ++ (gap.text ++ (target.clause.text ++ (before.text ++ (['='] ++ (after.text ++
      ("require(".toList ++ (quoted q spec ++ ([')'] ++ rest)))))))) := rfl

theorem fits_requireDeclaration (hfront : Fresh front) :
    Fits requireDeclaration
      ⟨.between front (requireText gap before after target q spec rest), []⟩ := by
  have hkeyword : "const".toList ∈ Kind.required.keywords := by decide
  refine fits_notAfter_cons hfront (denotes_requireKeyword.fits_cons hkeyword ?_)
  refine denotes_blanks1.fits_cons ⟨gap.blanks, gap.ne_nil⟩ ?_
  refine denotes_target.fits_group_cons target.holds (denotes_blanks.fits_cons before.blanks ?_)
  refine (denotes_char '=').fits_cons rfl (denotes_blanks.fits_cons after.blanks ?_)
  refine (denotes_literal _).fits_cons rfl (fits_blanks_cons ?_)
  rw [quoted_append]
  refine fits_quotedModule q spec.quotable fun _ _ => fits_blanks_cons ?_
  exact (denotes_char ')').fits_cons rfl fits_ofList_nil

/-- **A required module is read in one way only.** -/
theorem of_mem_ends_requireDeclaration
    (h : st ∈ ends requireDeclaration
      ⟨.between front (requireText gap before after target q spec rest), []⟩) :
    (st.capture? 1).map Capture.text = some target.clause.text ∧
      (st.capture? 3).map Capture.text = some spec.text ∧ st.cursor.after = rest := by
  obtain ⟨-, h₁⟩ := mem_ends_notAfter_cons.1 h
  obtain ⟨k, hk, _, htext, h₂⟩ := denotes_requireKeyword.mem_ends_cons.1 h₁
  obtain ⟨b₁, ⟨hb₁, -⟩, _, rfl, h₃⟩ := denotes_blanks1.mem_ends_cons.1 h₂
  obtain ⟨g, hg, _, rfl, h₄⟩ := denotes_target.mem_ends_group_cons.1 h₃
  obtain ⟨b₂, hb₂, _, rfl, h₅⟩ := denotes_blanks.mem_ends_cons.1 h₄
  obtain ⟨_, rfl, _, rfl, h₆⟩ := (denotes_char '=').mem_ends_cons.1 h₅
  obtain ⟨b₃, hb₃, _, rfl, h₇⟩ := denotes_blanks.mem_ends_cons.1 h₆
  obtain ⟨_, rfl, _, rfl, h₈⟩ := (denotes_literal _).mem_ends_cons.1 h₇
  obtain ⟨b₄, hb₄, _, rfl, h₉⟩ := denotes_blanks.mem_ends_cons.1 h₈
  obtain ⟨q', xs, _, front', cap, cap', hq', hxs, rfl, hcap, h₁₀⟩ := mem_ends_quotedModule h₉
  obtain ⟨b₅, hb₅, _, rfl, h₁₁⟩ := denotes_blanks.mem_ends_cons.1 h₁₀
  obtain ⟨_, rfl, more, rfl, rfl⟩ := (denotes_char ')').mem_ends_between.1 h₁₁
  have hcut : "const".toList ++ (gap.text ++ (target.clause.text ++ (before.text ++ '=' ::
      (after.text ++ ("require(".toList ++ q.mark :: (spec.text ++ q.mark :: ')' :: rest)))))) =
      k ++ (b₁ ++ (g ++ (b₂ ++ '=' :: (b₃ ++ ("require(".toList ++ (b₄ ++
        q' :: (xs ++ q' :: (b₅ ++ ')' :: more)))))))) := by
    rw [requireText_eq] at htext
    simpa only [quoted, List.append_assoc, List.cons_append, List.nil_append] using htext
  -- part by part, from the keyword on
  obtain rfl : k = "const".toList := by
    simp only [Kind.keywords, mem_texts, List.mem_cons, List.not_mem_nil, or_false] at hk
    rcases hk with rfl | rfl | rfl
    · rfl
    · exact absurd (List.cons.inj hcut).1 (by decide)
    · exact absurd (List.cons.inj hcut).1 (by decide)
  have hsign : ∀ {c : Char} {rest : List Char}, isBlank c = false →
      ∀ d ∈ (c :: rest).head?, isBlank d = false := by
    intro c rest hc
    simpa using hc
  have hword : ∀ rest : List Char, ∀ d ∈ ("require(".toList ++ rest).head?, isBlank d = false := by
    intro rest d hd
    have hr : ("require(".toList ++ rest).head? = some 'r' := rfl
    obtain rfl := Option.some.inj (hr.symm.trans hd)
    decide
  have hquote : ∀ d ∈ quotes, isBlank d = false := by decide
  have hnil : Blanks [] := by simp [Blanks]
  obtain ⟨-, hcut₁⟩ := run_append_unique gap.blanks hb₁ (target.holds.head?_notBlank _)
    (hg.head?_notBlank _) (List.append_cancel_left hcut)
  obtain ⟨rfl, hcut₂⟩ := target.holds.unique hg (before.loose _)
    (Loose.blanks hb₂ (loose_cons (by decide))) hcut₁
  obtain ⟨-, hcut₃⟩ := run_append_unique before.blanks hb₂ (hsign (by decide)) (hsign (by decide)) hcut₂
  obtain ⟨-, hcut₄⟩ := run_append_unique after.blanks hb₃ (hword _) (hword _) (List.cons.inj hcut₃).2
  obtain ⟨-, hcut₅⟩ := run_append_unique hnil hb₄ (hsign (hquote _ q.mark_mem))
    (hsign (hquote _ hq')) (List.append_cancel_left hcut₄)
  obtain ⟨rfl, hcut₆⟩ := List.cons.inj hcut₅
  obtain ⟨rfl, -, hcut₇⟩ := quote_unique spec.noQuote hxs.noQuote q.mark_mem q.mark_mem hcut₆
  obtain ⟨-, hcut₈⟩ := run_append_unique hnil hb₅ (hsign (by decide))
    (hsign (by decide)) hcut₇
  obtain rfl := (List.cons.inj hcut₈).2
  exact ⟨by simp, by simp [hcap], rfl⟩

theorem Target.requireClause_text (target : Target) :
    requireClause target.clause.text = target.clause.pairs := by
  cases target with
  | name n =>
      have hbrace : (n.text.head? == some '\x7b') = false := by
        rw [beq_eq_false_iff_ne]
        exact fun h => n.notMem (by decide) (List.mem_of_head? h)
      rw [requireClause, clause, Clause.text, hbrace]
      rfl
  | unpacked cells =>
      have hclause := (Clause.tail (.named cells)).clause_text (b := []) (by simp [Blanks])
      rw [List.append_nil] at hclause
      exact hclause

end Requires

/-! ## The match of a declaration -/

theorem Kind.advances (kind : Kind) : Advances kind.pattern := by
  cases kind with
  | imported =>
      refine Advances.ofList_cons_tail _ (Advances.ofList_cons ?_ _)
      exact (denotes_literal _).advances (by rw [mem_texts]; decide)
  | required =>
      refine Advances.ofList_cons_tail _ (Advances.ofList_cons ?_ _)
      exact denotes_requireKeyword.advances (by rw [mem_texts]; decide)

theorem Kind.beginsWith (kind : Kind) : BeginsWith kind.pattern kind.keywords := by
  rintro front rest ⟨st, hst⟩
  have hword : ∀ {front : List Char}, Fresh front → ∀ c ∈ front.getLast?, isWord c = false := by
    intro front hfront c hc
    have hclear := hfront c hc
    rw [CharSet.accepts_wordOr, Bool.or_eq_false_iff] at hclear
    exact hclear.1
  cases kind with
  | imported =>
      obtain ⟨hfront, h₁⟩ := mem_ends_notAfter_cons.1 hst
      obtain ⟨_, rfl, _, rfl, h₂⟩ := (denotes_literal _).mem_ends_cons.1 h₁
      obtain ⟨b, ⟨hb, hne⟩, more, rfl, -⟩ := denotes_blanks1.mem_ends_cons.1 h₂
      obtain ⟨c, b, rfl⟩ := List.exists_cons_of_ne_nil hne
      exact ⟨hword hfront, _, List.mem_singleton_self _, c, b ++ more, rfl, hb c List.mem_cons_self⟩
  | required =>
      obtain ⟨hfront, h₁⟩ := mem_ends_notAfter_cons.1 hst
      obtain ⟨k, hk, _, rfl, h₂⟩ := denotes_requireKeyword.mem_ends_cons.1 h₁
      obtain ⟨b, ⟨hb, hne⟩, more, rfl, -⟩ := denotes_blanks1.mem_ends_cons.1 h₂
      obtain ⟨c, b, rfl⟩ := List.exists_cons_of_ne_nil hne
      exact ⟨hword hfront, k, hk, c, b ++ more, rfl, hb c List.mem_cons_self⟩

/-- The bindings of a match, by what its groups hold. -/
theorem Kind.found_of_groups (kind : Kind) {m : Match} {text module : List Char}
    {pairs : List (Exported × String)} (hclause : kind.clausePairs text = pairs)
    (h₁ : m.group? 1 = some text) (h₃ : m.group? 3 = some module) :
    kind.found m = (pairs.map fun (exported, localName) =>
      ⟨String.ofList (trim module), exported, localName⟩ : List Binding).map fun b => (m.first, b) := by
  rw [found, bindings, h₁, h₃, Option.getD_some, Option.getD_some, hclause, List.map_map]
  rfl

/-- No keyword begins in a module in quotes. -/
theorem quiet_quoted (kind : Kind) (q : Quote) {xs : List Char} (hquote : NoQuote xs)
    (hblank : ∀ c ∈ xs, isBlank c = false) (rest : List Char) :
    Quiet kind.keywords (q.mark :: (xs ++ [q.mark])) rest := by
  have hks := kind.keywords_subset
  have hquotes : ∀ c ∈ quotes, isWord c = false ∧ isBlank c = false := by decide
  have hmark := hquotes q.mark q.mark_mem
  have hxs : ∀ c ∈ xs, isBlank c = false ∧ c ≠ q.mark := fun c hc =>
    ⟨hblank c hc, fun heq => hquote c hc (heq ▸ q.mark_mem)⟩
  exact (quiet_sign hks hmark.1).append
    ((quiet_of_noBlank hks hxs hmark).append (quiet_sign hks hmark.1))

namespace Statement

variable {front rest : List Char}

/-- The bindings of a match that holds a declaration's clause and module. -/
theorem found_eq (s : Statement) {m : Match} {text : List Char}
    (hclause : s.form.kind.clausePairs text = s.form.pairs) (h₁ : m.group? 1 = some text)
    (h₃ : m.group? 3 = some s.module.text) :
    s.form.kind.found m = s.bindings.map fun b => (m.first, b) := by
  rw [s.form.kind.found_of_groups hclause h₁ h₃, s.module.trim_text, bindings]

/-- **A declaration is matched by the pattern of its kind**, from its keyword to the last sign before
the semicolon, and the match gives its bindings. -/
theorem exists_matchInside (s : Statement) (hfront : Fresh front) (rest : List Char) :
    ∃ m, matchInside s.form.kind.pattern (front ++ (s.core ++ rest)) front.length = some m ∧
      m.stop = (front ++ s.core).length ∧
      s.form.kind.found m = s.bindings.map fun b => (front.length, b) := by
  -- the match ends where the rest begins
  have hstop : ∀ {r : Regex} {m : Match},
      matchInside r (front ++ (s.core ++ rest)) front.length = some m →
      m.final.cursor.after = rest → m.stop = (front ++ s.core).length := by
    intro r m hm hafter
    obtain ⟨-, -, -, -, hcursor⟩ := of_matchInside hm
    have hle := stop_le_length (by simp) hm
    have hdrop := congrArg List.length ((congrArg Cursor.after hcursor).symm.trans hafter)
    simp only [Cursor.inside, List.length_drop, List.length_append] at hdrop hle ⊢
    omega
  rcases s with ⟨form, q, spec, behind⟩
  cases form with
  | imported gap typed C before after =>
      have hcore : core ⟨.imported gap typed C before after, q, spec, behind⟩ ++ rest =
          "import".toList ++
            (gap.text ++ (marked typed ++ importRest C.text before after q spec.text rest)) := by
        rw [core, Form.opening_imported]
        simp only [Form.closing, importRest, ← quoted_append, List.append_assoc, List.append_nil]
      obtain ⟨m, b, hm, hfirst, hb, h₁, h₃, hafter⟩ :=
        exists_matchInside_import C.enclosed spec.quotable before after q hfront gap typed rest
      rw [← hcore] at hm
      refine ⟨m, hm, hstop hm hafter, ?_⟩
      rw [found_eq ⟨.imported gap typed C before after, q, spec, behind⟩ (C.clause_text hb) h₁ h₃, hfirst]
  | required gap target before after =>
      have hcore : core ⟨.required gap target before after, q, spec, behind⟩ ++ rest =
          requireText gap before after target q spec rest := by
        rw [core, Form.opening_required, requireText_eq]
        simp only [Form.closing, List.append_assoc]
      obtain ⟨st, hst, hm⟩ :=
        (fits_requireDeclaration gap before after target q spec hfront).exists_matchInside
      obtain ⟨h₁, h₃, hafter⟩ := of_mem_ends_requireDeclaration gap before after target q spec hst
      rw [← hcore] at hm
      exact ⟨_, hm, hstop hm hafter, found_eq ⟨.required gap target before after, q, spec, behind⟩
        target.requireClause_text h₁ h₃⟩

/-- **No declaration of the other kind begins in a declaration.** -/
theorem quiet (s : Statement) {kind : Kind} (h : s.form.kind ≠ kind) (rest : List Char) :
    Quiet kind.keywords s.core rest := by
  have hks := kind.keywords_subset
  have hquoted : ∀ rest, Quiet kind.keywords (quoted s.quote s.module) rest :=
    quiet_quoted kind s.quote s.module.noQuote s.module.notBlank
  have hclosing : Quiet kind.keywords s.form.closing rest := by
    cases s.form with
    | imported => exact quiet_nil
    | required => exact quiet_sign hks (by decide)
  refine Quiet.append ?_ ((hquoted _).append hclosing)
  cases hform : s.form with
  | imported gap typed C before after =>
      obtain rfl : kind = .required := by
        cases kind with
        | imported => exact absurd (by rw [hform]; rfl) h
        | required => rfl
      refine (quiet_of_word hks (by decide) (by decide) (gap.loose_append _ _)).append
        ((gap.quiet hks).append ((quiet_marked hks (by decide) typed).append ?_))
      refine (C.quiet hks (by decide) (before.loose_append _ _)).append ((before.quiet hks).append ?_)
      exact (quiet_of_word hks (by decide) (by decide) (after.loose _)).append (after.quiet hks)
  | required gap target before after =>
      obtain rfl : kind = .imported := by
        cases kind with
        | imported => rfl
        | required => exact absurd (by rw [hform]; rfl) h
      have hrequire : ∀ rest, Quiet Kind.imported.keywords ("require".toList ++ ['(']) rest := fun rest =>
        (quiet_of_word hks (by decide) (by decide) (loose_cons (by decide))).append
          (quiet_sign hks (by decide))
      refine (quiet_of_word hks (by decide) (by decide) (gap.loose_append _ _)).append
        ((gap.quiet hks).append ?_)
      refine (target.clause.quiet hks (by decide) (before.loose_append _ _)).append
        ((before.quiet hks).append ?_)
      exact (quiet_sign hks (by decide)).append ((after.quiet hks).append (hrequire _))

end Statement

end ServiceKeys.Import
