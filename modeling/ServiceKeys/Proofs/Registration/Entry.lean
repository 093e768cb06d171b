import ServiceKeys.Proofs.Template.Written
import ServiceKeys.Proofs.Regex.Between
import ServiceKeys.Proofs.Text.Cut
import ServiceKeys.Registration

/-!
# Entries of a registration file

What a wrapped template finds, said without patterns: a key that may be quoted, a colon, the wrapper
and a *body* in parentheses.  An `Entry` is such a text together with the place where it stands, and
both directions of a lookup are about entries:

* the pattern for a key matches where an entry of that key begins, and its group holds what the body
  is but for blanks (`entry_of_forward`, `exists_forward`);
* the pattern for a symbol matches where an entry whose body is that symbol begins, and its group
  holds the key (`entry_of_reverse`, `exists_reverse`).

The main statement is `Entry.same_key`: of two entries of one wrapper, the second cannot begin inside
of the first unless both have the same key, because the wrapper's parenthesis is the same one.
-/

namespace ServiceKeys

namespace Registration

open Text Regex Template Computability

/-! ## Texts -/

/-- A quote, or nothing. -/
def QuoteMark (xs : List Char) : Prop := xs = [] ∨ ∃ c ∈ ['\x27', '"'], xs = [c]

/-- A key: a name character, or key characters between two name characters. -/
def KeyText (cs : List Char) : Prop :=
  ∃ c, isIdentifierContinue c = true ∧
    (cs = [c] ∨ ∃ mid d, (∀ e ∈ mid, isKeyChar e = true) ∧ isIdentifierContinue d = true ∧
      cs = c :: (mid ++ [d]))

/-- What the group of a reference holds. -/
def RefText (cs : List Char) : Prop :=
  ∃ c name more, isIdentifierStart c = true ∧ (∀ d ∈ name, isIdentifierContinue d = true) ∧
    (∀ d ∈ more, d ∉ [')', '\n', ',']) ∧ cs = c :: (name ++ more)

/-- What stands between a key and the parenthesis: the closing quote, a colon and the wrapper. -/
def Link (wrapper xs : List Char) : Prop :=
  ∃ q a b, QuoteMark q ∧ Blanks a ∧ Blanks b ∧ xs = q ++ (a ++ ':' :: (b ++ wrapper))

/-- An entry of a text: where it stands, and its parts. -/
structure Entry (wrapper key content : List Char) where
  /-- The text before the entry. -/
  front : List Char
  lead : List Char
  link : List Char
  /-- What stands between the parentheses. -/
  body : List Char
  /-- The text behind the entry. -/
  rest : List Char
  quoted : QuoteMark lead
  linked : Link wrapper link
  /-- The key is not the end of a longer one. -/
  whole : ∀ c ∈ (front ++ lead).getLast?, isKeyChar c = false
  content_eq : content = front ++ (lead ++ (key ++ (link ++ '(' :: (body ++ ')' :: rest))))

/-- The offset of an entry's first character. -/
def Entry.start {wrapper key content : List Char} (e : Entry wrapper key content) : Nat :=
  e.front.length

/-- The offset just behind an entry. -/
def Entry.stop {wrapper key content : List Char} (e : Entry wrapper key content) : Nat :=
  (e.front ++ (e.lead ++ (key ++ (e.link ++ '(' :: (e.body ++ [')']))))).length

theorem KeyText.isKeyChar {cs : List Char} (h : KeyText cs) : ∀ c ∈ cs, isKeyChar c = true := by
  obtain ⟨c, hc, rfl | ⟨mid, d, hmid, hd, rfl⟩⟩ := h
  · exact List.forall_mem_singleton.2 (isKeyChar_of_continue hc)
  · refine List.forall_mem_cons.2 ⟨isKeyChar_of_continue hc, List.forall_mem_append.2 ⟨hmid, ?_⟩⟩
    exact List.forall_mem_singleton.2 (isKeyChar_of_continue hd)

theorem KeyText.ne_nil {cs : List Char} (h : KeyText cs) : cs ≠ [] := by
  obtain ⟨c, -, rfl | ⟨mid, d, -, -, rfl⟩⟩ := h
  · simp
  · simp

theorem KeyText.trim_ne_nil {cs : List Char} (h : KeyText cs) : trim cs ≠ [] := by
  obtain ⟨c, hc⟩ := List.exists_mem_of_ne_nil cs h.ne_nil
  exact Text.trim_ne_nil hc (not_blank_of_key (h.isKeyChar c hc))

/-- A key ends in a name character. -/
theorem KeyText.getLast? {cs : List Char} (h : KeyText cs) (front : List Char) :
    ∀ c ∈ (front ++ cs).getLast?, isIdentifierContinue c = true := by
  obtain ⟨c, hc, rfl | ⟨mid, d, -, hd, rfl⟩⟩ := h
  · simpa using hc
  · rw [← List.cons_append, ← List.append_assoc, List.getLast?_concat]
    simpa using hd

theorem refText_of_bareName {cs : List Char} (h : BareName cs) : RefText cs := by
  obtain ⟨c, rest, rfl, hc, hrest⟩ := h
  exact ⟨c, rest, [], hc, hrest, by simp, by simp⟩

/-! ## The languages of the parts -/

theorem accepts_refStart (c : Char) : refStart.accepts c = isIdentifierStart c :=
  CharSet.accepts_identifierStart c

theorem denotes_quoteMark : Denotes quoteMark (texts QuoteMark) := by
  apply (denotes_span (.oneOf ['\x27', '"']) 0 (some 1) (by decide)).congr
  intro xs
  have hset : ∀ c, (CharSet.oneOf ['\x27', '"']).accepts c = true ↔ c ∈ ['\x27', '"'] := fun c => by
    rw [CharSet.accepts_oneOf, List.contains_iff_mem]
  simp only [CharSet.runs, mem_texts, hset, Within, Option.mem_some_iff, forall_eq', Nat.zero_le,
    true_and, QuoteMark]
  constructor
  · rintro ⟨hall, hlen⟩
    rcases xs with _ | ⟨c, _ | ⟨d, rest⟩⟩
    · exact Or.inl rfl
    · exact Or.inr ⟨c, hall c List.mem_cons_self, rfl⟩
    · simp at hlen
  · rintro (rfl | ⟨c, hc, rfl⟩)
    · simp
    · exact ⟨List.forall_mem_singleton.2 hc, Nat.le_refl 1⟩

/-- A character of one set, or two of them around any number of characters of another set. -/
theorem denotes_bracketed (names keys : CharSet) :
    Denotes (ofList [.one names, maybe (ofList [.span keys 0 none .greedy, .one names])])
      (texts fun cs => ∃ c, names.accepts c = true ∧
        (cs = [c] ∨ ∃ mid d, (∀ e ∈ mid, keys.accepts e = true) ∧ names.accepts d = true ∧
          cs = c :: (mid ++ [d]))) := by
  have hrun : Denotes (.span keys 0 none .greedy) (keys.runs 0 none) := denotes_span keys 0 none (by decide)
  have hmore := denotes_ofList_cons hrun (denotes_ofList_cons (denotes_one names) denotes_ofList_nil)
  apply (denotes_ofList_cons (denotes_one names) (denotes_ofList_cons (denotes_maybe hmore)
    denotes_ofList_nil)).congr
  intro xs
  simp only [mul_one, Language.mem_mul, Language.mem_add, Language.mem_one, CharSet.singles,
    CharSet.runs, mem_texts]
  constructor
  · rintro ⟨_, ⟨c, hc, rfl⟩, _, ⟨mid, ⟨hmid, -⟩, _, ⟨d, hd, rfl⟩, rfl⟩ | rfl, rfl⟩
    · exact ⟨c, hc, Or.inr ⟨mid, d, hmid, hd, rfl⟩⟩
    · exact ⟨c, hc, Or.inl rfl⟩
  · rintro ⟨c, hc, rfl | ⟨mid, d, hmid, hd, rfl⟩⟩
    · exact ⟨[c], ⟨c, hc, rfl⟩, [], Or.inr rfl, rfl⟩
    · refine ⟨[c], ⟨c, hc, rfl⟩, mid ++ [d], Or.inl ⟨mid, ⟨hmid, Nat.zero_le _, ?_⟩, [d], ?_⟩, rfl⟩
      · simp [Within]
      · exact ⟨⟨d, hd, rfl⟩, rfl⟩

theorem denotes_keyBody : Denotes keyBody (texts KeyText) := by
  apply (denotes_bracketed nameChars keyChars).congr
  intro xs
  simp only [mem_texts, nameChars, keyChars, CharSet.accepts_nameChar, CharSet.accepts_keyChar, KeyText]

theorem denotes_refBody : Denotes refBody (texts RefText) := by
  have hmore : ∀ d, (CharSet.noneOf [')', '\n', ',']).accepts d = true ↔ d ∉ [')', '\n', ','] :=
    fun d => by rw [CharSet.accepts_noneOf, Bool.not_eq_true', ← Bool.not_eq_true,
      List.contains_iff_mem]
  refine (denotes_ofList_cons (denotes_one refStart) (denotes_ofList_cons
    (denotes_span nameChars 0 none (by decide)) (denotes_ofList_cons
      (denotes_span (.noneOf [')', '\n', ',']) 0 none (by decide)) denotes_ofList_nil))).congr
        ?_
  intro xs
  simp only [mul_one, Language.mem_mul, CharSet.singles, CharSet.runs, mem_texts, accepts_refStart,
    nameChars, CharSet.accepts_nameChar, hmore, RefText]
  constructor
  · rintro ⟨_, ⟨c, hc, rfl⟩, _, ⟨name, ⟨hname, -⟩, more, ⟨hnone, -⟩, rfl⟩, rfl⟩
    exact ⟨c, name, more, hc, hname, hnone, rfl⟩
  · rintro ⟨c, name, more, hc, hname, hnone, rfl⟩
    refine ⟨[c], ⟨c, hc, rfl⟩, name ++ more, ⟨name, ⟨hname, Nat.zero_le _, ?_⟩, more, ?_, rfl⟩, rfl⟩
    · simp [Within]
    · exact ⟨hnone, Nat.zero_le _, by simp [Within]⟩

/-! ## Wrapped patterns -/

theorem denotes_link (wrapper : List Char) :
    Denotes (ofList (quoteMark :: blanks :: .char ':' :: blanks ::
        (wrapper.map .char ++ [.char '(', blanks])))
      (texts fun xs => ∃ link c, Link wrapper link ∧ Blanks c ∧ xs = link ++ '(' :: c) := by
  have hwrapper : Denotes (ofList (wrapper.map .char)) _ := denotes_literal wrapper
  apply (denotes_ofList_cons denotes_quoteMark (denotes_ofList_cons denotes_blanks
    (denotes_ofList_cons (denotes_char ':') (denotes_ofList_cons denotes_blanks
      (denotes_ofList_append hwrapper (denotes_ofList_cons (denotes_char '(')
        (denotes_ofList_cons denotes_blanks denotes_ofList_nil))))))).congr
  intro xs
  simp only [mul_one, Language.mem_mul, mem_texts]
  constructor
  · rintro ⟨q, hq, _, ⟨a, ha, _, ⟨_, rfl, _, ⟨b, hb, _, ⟨_, rfl, _, ⟨_, rfl, c, hc, rfl⟩, rfl⟩, rfl⟩,
      rfl⟩, rfl⟩, rfl⟩
    exact ⟨_, c, ⟨q, a, b, hq, ha, hb, rfl⟩, hc, by simp⟩
  · rintro ⟨_, c, ⟨q, a, b, hq, ha, hb, rfl⟩, hc, rfl⟩
    exact ⟨q, hq, _, ⟨a, ha, _, ⟨_, rfl, _, ⟨b, hb, _, ⟨_, rfl, _, ⟨_, rfl, c, hc, rfl⟩, rfl⟩, rfl⟩,
      rfl⟩, rfl⟩, by simp⟩

/-- **The ends of a wrapped pattern**, part by part: a quote, the key, the link with the parenthesis
and blanks, the reference, and blanks with the other parenthesis. -/
theorem mem_ends_wrappedBody {wrapper : List Char} {key ref : List Regex} {st st' : State} :
    st' ∈ ends (wrappedBody wrapper key ref) st ↔
      ∃ lead link c d, QuoteMark lead ∧ Link wrapper link ∧ Blanks c ∧ Blanks d ∧
        ∃ m₁ m₂ m₃ m₄, st.Over lead m₁ ∧ m₂ ∈ ends (ofList key) m₁ ∧
          m₂.Over (link ++ '(' :: c) m₃ ∧ m₄ ∈ ends (ofList ref) m₃ ∧
          m₄.Over (d ++ [')']) st' := by
  have hshape : wrappedBody wrapper key ref = ofList (quoteMark :: (key ++
      ((quoteMark :: blanks :: .char ':' :: blanks :: (wrapper.map .char ++ [.char '(', blanks])) ++
        (ref ++ [blanks, .char ')'])))) := by
    simp [wrappedBody]
  rw [hshape]
  constructor
  · intro h
    -- one state behind each part
    obtain ⟨m₁, hm₁, h⟩ := mem_ends_ofList_cons.1 h
    obtain ⟨m₂, hm₂, h⟩ := mem_ends_ofList_append.1 h
    obtain ⟨m₃, hm₃, h⟩ := mem_ends_ofList_append.1 h
    obtain ⟨m₄, hm₄, h⟩ := mem_ends_ofList_append.1 h
    obtain ⟨lead, hlead, hover₁⟩ := (denotes_quoteMark _ _).1 hm₁
    obtain ⟨_, ⟨link, c, hlink, hc, rfl⟩, hover₃⟩ := (denotes_link wrapper _ _).1 hm₃
    obtain ⟨_, ⟨d, hd, rfl⟩, hover⟩ := (denotes_close _ _).1 h
    exact ⟨lead, link, c, d, hlead, hlink, hc, hd, m₁, m₂, m₃, m₄, hover₁, hm₂, hover₃, hm₄, hover⟩
  · rintro ⟨lead, link, c, d, hlead, hlink, hc, hd, m₁, m₂, m₃, m₄, hover₁, hm₂, hover₃, hm₄, hover⟩
    refine mem_ends_ofList_cons.2 ⟨m₁, (denotes_quoteMark _ _).2 ⟨lead, hlead, hover₁⟩, ?_⟩
    refine mem_ends_ofList_append.2 ⟨m₂, hm₂, mem_ends_ofList_append.2 ⟨m₃, ?_, ?_⟩⟩
    · exact (denotes_link wrapper _ _).2 ⟨_, ⟨link, c, hlink, hc, rfl⟩, hover₃⟩
    · exact mem_ends_ofList_append.2 ⟨m₄, hm₄, (denotes_close _ _).2 ⟨_, ⟨d, hd, rfl⟩, hover⟩⟩

theorem advances_wrappedBody (wrapper : List Char) (key ref : List Regex) :
    Advances (wrappedBody wrapper key ref) := by
  intro st st' h
  obtain ⟨lead, link, c, d, -, -, -, -, m₁, m₂, m₃, m₄, hover₁, hm₂, hover₃, hm₄, hover⟩ :=
    mem_ends_wrappedBody.1 h
  obtain ⟨k, hk⟩ := ahead_of_mem_ends _ hm₂
  obtain ⟨r, hr⟩ := ahead_of_mem_ends _ hm₄
  have h₁ := hover₁.1.pos_eq
  have h₂ := hk.pos_eq
  have h₃ := hover₃.1.pos_eq
  have h₄ := hr.pos_eq
  have h₅ := hover.1.pos_eq
  rw [List.length_append, List.length_singleton] at h₅
  omega

theorem advances_forwardBody (wrapper key : List Char) : Advances (forwardBody wrapper key) :=
  advances_wrappedBody _ _ _

theorem advances_reverseBody (wrapper symbol : List Char) : Advances (reverseBody wrapper symbol) :=
  advances_wrappedBody _ _ _

/-! ## Matches and entries -/

section Matches

variable {wrapper key symbol content lead link c d r : List Char} {i : Nat}

/-- A link does not go on with the key. -/
theorem Link.clear (h : Link wrapper link) (more : List Char) : Clear keyTailChars (link ++ more) := by
  have hsigns : ∀ e ∈ [':', '\x27', '"'], keyTailChars.accepts e = false := by decide
  have hblank : ∀ e, isBlank e = true → keyTailChars.accepts e = false := by
    intro e he
    have hne : e ∉ ['$', '.', '-'] := by
      intro hmem
      have hnot : ∀ x ∈ ['$', '.', '-'], isBlank x = false := by decide
      rw [hnot e hmem] at he
      exact Bool.false_ne_true he
    rw [keyTailChars, CharSet.accepts_wordOr, isWord_of_isBlank he, Bool.false_or,
      ← Bool.not_eq_true, List.contains_iff_mem]
    exact hne
  obtain ⟨q, a, b, hq, ha, -, rfl⟩ := h
  intro e he
  rcases hq with rfl | ⟨x, hx, rfl⟩
  · cases a with
    | nil =>
        obtain rfl : ':' = e := by simpa using he
        exact hsigns ':' (by simp)
    | cons x a =>
        obtain rfl : x = e := by simpa using he
        exact hblank x (ha x List.mem_cons_self)
  · obtain rfl : x = e := by simpa using he
    exact hsigns x (List.mem_cons_of_mem _ hx)

/-- The parts that a match moves over make an entry. -/
theorem exists_entry {c₁ c₂ c₃ c₄ c₅ : Cursor} (hi : i ≤ content.length)
    (hlead : QuoteMark lead) (hlink : Link wrapper link)
    (h₁ : (Cursor.inside content i).Over lead c₁) (hclear : Clear keyChars c₁.before)
    (h₂ : c₁.Over key c₂) (h₃ : c₂.Over (link ++ '(' :: c) c₃) (h₄ : c₃.Over r c₄)
    (h₅ : c₄.Over (d ++ [')']) c₅) :
    ∃ e : Entry wrapper key content, e.start = i ∧ e.stop = c₅.pos ∧ e.body = c ++ (r ++ d) := by
  -- every cursor is determined by what was read before it and what is left behind it
  rw [Cursor.inside_eq_between hi] at h₁
  obtain ⟨more₁, hmore₁, rfl⟩ := Cursor.over_between_iff.1 h₁
  obtain ⟨more₂, rfl, rfl⟩ := Cursor.over_between_iff.1 h₂
  obtain ⟨more₃, rfl, rfl⟩ := Cursor.over_between_iff.1 h₃
  obtain ⟨more₄, rfl, rfl⟩ := Cursor.over_between_iff.1 h₄
  obtain ⟨more₅, rfl, rfl⟩ := Cursor.over_between_iff.1 h₅
  have hcontent : content = content.take i ++ (lead ++ (key ++ (link ++ '(' ::
      ((c ++ (r ++ d)) ++ ')' :: more₅)))) := by
    conv_lhs => rw [← List.take_append_drop i content, hmore₁]
    simp
  refine ⟨⟨content.take i, lead, link, c ++ (r ++ d), more₅, hlead, hlink, ?_, hcontent⟩,
    ?_, ?_, rfl⟩
  · intro x hx
    rw [← CharSet.accepts_keyChar]
    exact clear_between.1 hclear x hx
  · exact List.length_take.trans (Nat.min_eq_left hi)
  · simp only [Entry.stop, Cursor.between]
    refine congrArg List.length ?_
    simp

/-- **A match of the pattern for a key is an entry of it**, and the group holds what the body is but
for blanks around it. -/
theorem entry_of_forward {m : Match} (hi : i ≤ content.length)
    (h : matchInside (forwardBody wrapper key) content i = some m) :
    ∃ (e : Entry wrapper key content) (c r d : List Char), e.start = i ∧ e.stop = m.stop ∧
      Blanks c ∧ RefText r ∧ Blanks d ∧ e.body = c ++ (r ++ d) ∧ m.group? 1 = some r := by
  obtain ⟨hfinal, -⟩ := of_matchInside h
  obtain ⟨lead, link, c, d, hlead, hlink, hc, hd, m₁, m₂, m₃, m₄, h₁, hm₂, h₃, hm₄, h₅⟩ :=
    mem_ends_wrappedBody.1 hfinal
  obtain ⟨hclear, h₂, -⟩ := mem_ends_word.1 hm₂
  obtain ⟨r, hr, h₄, capture, hcaptures, htext⟩ := denotes_refBody.mem_ends_group hm₄
  obtain ⟨e, hstart, hstop, hbody⟩ := exists_entry hi hlead hlink h₁.1 hclear h₂.1 h₃.1 h₄ h₅.1
  refine ⟨e, c, r, d, hstart, hstop, hc, hr, hd, hbody, ?_⟩
  rw [Match.group?, State.capture?, h₅.2, hcaptures]
  simpa using htext

/-- **A match of the pattern for a symbol is an entry of some key** whose body is the symbol but for
blanks around it, and the group holds the key. -/
theorem entry_of_reverse {m : Match} (hi : i ≤ content.length)
    (h : matchInside (reverseBody wrapper symbol) content i = some m) :
    ∃ (key : List Char) (e : Entry wrapper key content) (c d : List Char), KeyText key ∧
      e.start = i ∧ e.stop = m.stop ∧ Blanks c ∧ Blanks d ∧ e.body = c ++ (symbol ++ d) ∧
      m.group? 1 = some key := by
  obtain ⟨hfinal, -⟩ := of_matchInside h
  obtain ⟨lead, link, c, d, hlead, hlink, hc, hd, m₁, m₂, m₃, m₄, h₁, hm₂, h₃, hm₄, h₅⟩ :=
    mem_ends_wrappedBody.1 hfinal
  obtain ⟨m₁', hm₁', hgroup⟩ := mem_ends_ofList_cons.1 hm₂
  obtain ⟨rfl, hclear⟩ := mem_ends_notAfter.1 hm₁'
  obtain ⟨key, hkey, h₂, capture, hcaptures, htext⟩ := denotes_keyBody.mem_ends_group hgroup
  obtain ⟨-, h₄, -⟩ := mem_ends_word.1 hm₄
  obtain ⟨e, hstart, hstop, hbody⟩ := exists_entry hi hlead hlink h₁.1 hclear h₂ h₃.1 h₄.1 h₅.1
  refine ⟨key, e, c, d, hkey, hstart, hstop, hc, hd, hbody, ?_⟩
  rw [Match.group?, State.capture?, h₅.2, h₄.2, h₃.2, hcaptures]
  simpa using htext

/-- The cursors between the parts of an entry whose body is a text between blanks; nothing goes on
with the key or with that text. -/
theorem Entry.exists_cursors (e : Entry wrapper key content) (hc : Blanks c) (hd : Blanks d)
    (hbody : e.body = c ++ (r ++ d)) :
    ∃ c₁ c₂ c₃ c₄ c₅ : Cursor, (Cursor.inside content e.start).Over e.lead c₁ ∧
      Clear keyChars c₁.before ∧ c₁.Over key c₂ ∧ Clear keyTailChars c₂.after ∧
      c₂.Over (e.link ++ '(' :: c) c₃ ∧ Clear nameChars c₃.before ∧ c₃.Over r c₄ ∧
      Clear nameChars c₄.after ∧ c₄.Over (d ++ [')']) c₅ := by
  have hblank : ∀ x, isBlank x = true → nameChars.accepts x = false := fun x hx => by
    rw [nameChars, CharSet.accepts_nameChar]
    by_contra hname
    rw [not_blank_of_continue (by simpa using hname)] at hx
    exact Bool.false_ne_true hx
  have hover : ∀ {front xs more : List Char},
      (Cursor.between front (xs ++ more)).Over xs (.between (front ++ xs) more) :=
    Cursor.over_between_iff.2 ⟨_, rfl, rfl⟩
  have hcontent : content = e.front ++ (e.lead ++ (key ++ ((e.link ++ '(' :: c) ++
      (r ++ ((d ++ [')']) ++ e.rest))))) := by
    conv_lhs => rw [e.content_eq, hbody]
    simp
  have hinside : Cursor.inside content e.start = .between e.front (e.lead ++ (key ++
      ((e.link ++ '(' :: c) ++ (r ++ ((d ++ [')']) ++ e.rest))))) :=
    (congrArg (Cursor.inside · e.front.length) hcontent).trans (Cursor.inside_append _ _)
  rw [hinside]
  refine ⟨_, _, _, _, _, hover, ?_, hover, ?_, hover, ?_, hover, ?_, hover⟩
  -- what stands around the key
  · apply clear_between.2
    intro x hx
    rw [keyChars, CharSet.accepts_keyChar]
    exact e.whole x hx
  · show Clear keyTailChars ((e.link ++ '(' :: c) ++ _)
    rw [List.append_assoc]
    exact e.linked.clear _
  -- what stands around the body: blanks, or else the parentheses
  · apply clear_between.2
    intro x hx
    rw [← List.append_assoc, List.getLast?_append_of_ne_nil _ (by simp), List.getLast?_cons] at hx
    cases hlast : c.getLast? with
    | none =>
        obtain rfl : '(' = x := by simpa [hlast] using hx
        decide
    | some y =>
        obtain rfl : y = x := by simpa [hlast] using hx
        exact hblank y (hc y (List.mem_of_getLast? hlast))
  · intro x hx
    cases d with
    | nil =>
        obtain rfl : ')' = x := by simpa [Cursor.between] using hx
        decide
    | cons y d =>
        obtain rfl : y = x := by simpa [Cursor.between] using hx
        exact hblank y (hd y List.mem_cons_self)

/-- Where an entry of a key begins, the pattern for the key matches. -/
theorem Entry.exists_forward (e : Entry wrapper key content) (hc : Blanks c) (hr : RefText r)
    (hd : Blanks d) (hbody : e.body = c ++ (r ++ d)) :
    ∃ m, matchInside (forwardBody wrapper key) content e.start = some m := by
  obtain ⟨c₁, c₂, c₃, c₄, c₅, h₁, hbefore, h₂, hafter, h₃, -, h₄, -, h₅⟩ :=
    e.exists_cursors hc hd hbody
  obtain ⟨m₄, hm₄, rfl⟩ : ∃ m₄ ∈ ends (.group 1 refBody) ⟨c₃, []⟩, m₄.cursor = c₄ :=
    denotes_refBody.exists_mem_ends_group hr h₄
  have hword : (⟨c₂, []⟩ : State) ∈ ends (ofList (keyWord key)) ⟨c₁, []⟩ :=
    mem_ends_word.2 ⟨hbefore, ⟨h₂, rfl⟩, hafter⟩
  have hend : (⟨c₅, m₄.captures⟩ : State) ∈ ends (forwardBody wrapper key) ⟨_, []⟩ :=
    mem_ends_wrappedBody.2 ⟨e.lead, e.link, c, d, e.quoted, e.linked, hc, hd, ⟨c₁, []⟩, ⟨c₂, []⟩,
      ⟨c₃, []⟩, m₄, ⟨h₁, rfl⟩, hword, ⟨h₃, rfl⟩, hm₄, ⟨h₅, rfl⟩⟩
  exact exists_matchInside hend

/-- Where an entry whose body is a symbol begins, the pattern for the symbol matches. -/
theorem Entry.exists_reverse (e : Entry wrapper key content) (hkey : KeyText key) (hc : Blanks c)
    (hd : Blanks d) (hbody : e.body = c ++ (symbol ++ d)) :
    ∃ m, matchInside (reverseBody wrapper symbol) content e.start = some m := by
  obtain ⟨c₁, c₂, c₃, c₄, c₅, h₁, hbefore, h₂, -, h₃, hleft, h₄, hright, h₅⟩ :=
    e.exists_cursors hc hd hbody
  obtain ⟨m₂, hm₂, rfl⟩ : ∃ m₂ ∈ ends (.group 1 keyBody) ⟨c₁, []⟩, m₂.cursor = c₂ :=
    denotes_keyBody.exists_mem_ends_group hkey h₂
  have hgroup : m₂ ∈ ends (ofList [notAfter keyChars, .group 1 keyBody]) ⟨c₁, []⟩ :=
    mem_ends_ofList_cons.2 ⟨⟨c₁, []⟩, mem_ends_notAfter.2 ⟨rfl, hbefore⟩, hm₂⟩
  have hword : (⟨c₄, m₂.captures⟩ : State) ∈ ends (ofList (symbolWord symbol)) ⟨c₃, m₂.captures⟩ :=
    mem_ends_word.2 ⟨hleft, ⟨h₄, rfl⟩, hright⟩
  have hend : (⟨c₅, m₂.captures⟩ : State) ∈ ends (reverseBody wrapper symbol) ⟨_, []⟩ :=
    mem_ends_wrappedBody.2 ⟨e.lead, e.link, c, d, e.quoted, e.linked, hc, hd, ⟨c₁, []⟩, m₂,
      ⟨c₃, m₂.captures⟩, ⟨c₄, m₂.captures⟩, ⟨h₁, rfl⟩, hgroup, ⟨h₃, rfl⟩, hword, ⟨h₅, rfl⟩⟩
  exact exists_matchInside hend

end Matches

/-! ## Entries that overlap -/

section Overlap

variable {wrapper wrapper' key key' content link : List Char}

/-- A character that stands in no quote, in no key and in no blanks. -/
def Foreign (c : Char) : Prop := isKeyChar c = false ∧ isBlank c = false ∧ c ∉ ['\x27', '"']

instance (c : Char) : Decidable (Foreign c) := inferInstanceAs (Decidable (_ ∧ _ ∧ _))

theorem QuoteMark.notMem {xs : List Char} (h : QuoteMark xs) {c : Char} (hc : Foreign c) : c ∉ xs := by
  rcases h with rfl | ⟨q, hq, rfl⟩
  · simp
  · rw [List.mem_singleton]
    rintro rfl
    exact hc.2.2 hq

theorem Link.notMem (h : Link wrapper link) {c : Char} (hc : Foreign c) (hw : c ∉ wrapper) :
    c ∉ link := by
  obtain ⟨q, a, b, hq, ha, hb, rfl⟩ := h
  have hblanks : ∀ {xs}, Blanks xs → c ∉ xs := fun hxs hmem => by simp [hxs c hmem, Foreign] at hc
  have hcolon : c ≠ ':' := by
    rintro rfl
    exact absurd hc (by decide)
  simp [hq.notMem hc, hblanks ha, hblanks hb, hcolon, hw]

namespace Entry

/-- What an entry opens with, up to the parenthesis. -/
def opening (e : Entry wrapper key content) : List Char := e.lead ++ (key ++ e.link)

theorem content_eq_opening (e : Entry wrapper key content) :
    content = (e.front ++ e.opening) ++ '(' :: (e.body ++ ')' :: e.rest) := by
  conv_lhs => rw [e.content_eq]
  simp [opening]

theorem stop_eq (e : Entry wrapper key content) :
    e.stop = (e.front ++ e.opening).length + e.body.length + 2 := by
  simp only [stop, opening, List.length_append, List.length_cons, List.length_nil]
  omega

theorem notMem_opening (e : Entry wrapper key content) (hkey : KeyText key) {c : Char}
    (hc : Foreign c) (hw : c ∉ wrapper) : c ∉ e.opening := by
  have hk : c ∉ key := fun hmem => by simp [hkey.isKeyChar c hmem, Foreign] at hc
  simp [opening, e.quoted.notMem hc, hk, e.linked.notMem hc hw]

/-- Two entries that end in front of the same parenthesis have the same key: the wrapper, the blanks,
the colon, the quote and the longest run of key characters are cut off one after the other. -/
theorem key_eq (e : Entry wrapper key content) (e' : Entry wrapper key' content)
    (hkey : KeyText key) (hkey' : KeyText key')
    (h : e.front ++ e.opening = e'.front ++ e'.opening) : key = key' := by
  obtain ⟨q, a, b, hq, ha, hb, hlink⟩ := e.linked
  obtain ⟨q', a', b', hq', ha', hb', hlink'⟩ := e'.linked
  have hcolon : isBlank ':' = false := by decide
  -- what ends in a quote or in a key ends in no blank
  have hlast : ∀ {front k q : List Char}, KeyText k → QuoteMark q →
      ∀ c ∈ ((front ++ k) ++ q).getLast?, isBlank c = false := by
    rintro front k q hk (rfl | ⟨x, hx, rfl⟩) c hc
    · rw [List.append_nil] at hc
      exact not_blank_of_continue (hk.getLast? front c hc)
    · have hquote : ∀ x ∈ ['\x27', '"'], isBlank x = false := by decide
      obtain rfl : x = c := by simpa using hc
      exact hquote x hx
  have hcut : (((((e.front ++ e.lead) ++ key) ++ q) ++ a ++ [':']) ++ b) ++ wrapper =
      (((((e'.front ++ e'.lead) ++ key') ++ q') ++ a' ++ [':']) ++ b') ++ wrapper := by
    simpa [opening, hlink, hlink'] using h
  obtain ⟨hcut, -⟩ := append_run_unique hb hb' (by simp [hcolon]) (by simp [hcolon])
    (List.append_cancel_right hcut)
  obtain ⟨hcut, -⟩ := append_run_unique ha ha' (hlast hkey hq) (hlast hkey' hq')
    (List.append_cancel_right hcut)
  -- a quote is no key character, so the key ends where the quote begins
  have hquotes : ∀ {q}, QuoteMark q → ∀ c ∈ q, (['\x27', '"'].contains c) = true := by
    rintro q (rfl | ⟨x, hx, rfl⟩) c hc
    · simp at hc
    · obtain rfl : c = x := by simpa using hc
      simpa using hx
  have hname : ∀ {front k : List Char}, KeyText k →
      ∀ c ∈ (front ++ k).getLast?, (['\x27', '"'].contains c) = false := by
    intro front k hk c hc
    by_contra hmem
    have hnot : ∀ x ∈ ['\x27', '"'], isIdentifierContinue x = false := by decide
    have hcont := hk.getLast? front c hc
    rw [Bool.not_eq_false, List.contains_iff_mem] at hmem
    rw [hnot c hmem] at hcont
    exact Bool.false_ne_true hcont
  obtain ⟨hcut, -⟩ := append_run_unique (hquotes hq) (hquotes hq') (hname hkey) (hname hkey') hcut
  exact (append_run_unique hkey.isKeyChar hkey'.isKeyChar e.whole e'.whole hcut).2

/-- Two entries that end in front of the same parenthesis have the same wrapper, if it is a word: it is
what stands behind the last colon, but for blanks. -/
theorem wrapper_eq (e : Entry wrapper key content) (e' : Entry wrapper' key' content)
    (hwrapper : ∀ c ∈ wrapper, isBlank c = false ∧ c ≠ ':')
    (hwrapper' : ∀ c ∈ wrapper', isBlank c = false ∧ c ≠ ':')
    (h : e.front ++ e.opening = e'.front ++ e'.opening) : wrapper = wrapper' := by
  obtain ⟨q, a, b, -, -, hb, hlink⟩ := e.linked
  obtain ⟨q', a', b', -, -, hb', hlink'⟩ := e'.linked
  have hcut : (e.front ++ (e.lead ++ (key ++ (q ++ (a ++ [':']))))) ++ (b ++ wrapper) =
      (e'.front ++ (e'.lead ++ (key' ++ (q' ++ (a' ++ [':']))))) ++ (b' ++ wrapper') := by
    simpa [opening, hlink, hlink'] using h
  have hnocolon : ∀ {b w : List Char}, Blanks b → (∀ c ∈ w, isBlank c = false ∧ c ≠ ':') →
      ∀ c ∈ b ++ w, (c != ':') = true := by
    intro b w hb hw c hc
    rw [bne_iff_ne]
    rintro rfl
    rcases List.mem_append.1 hc with hc | hc
    · exact absurd (hb _ hc) (by decide)
    · exact (hw _ hc).2 rfl
  obtain ⟨-, htail⟩ := append_run_unique (hnocolon hb hwrapper) (hnocolon hb' hwrapper') (by simp)
    (by simp) hcut
  have hblank : ∀ {b : List Char}, Blanks b → ∀ c ∈ b.getLast?, (!isBlank c) = false :=
    fun hb c hc => by rw [hb c (List.mem_of_getLast? hc)]; rfl
  have hword : ∀ {w : List Char}, (∀ c ∈ w, isBlank c = false ∧ c ≠ ':') →
      ∀ c ∈ w, (!isBlank c) = true := fun hw c hc => by rw [(hw c hc).1]; rfl
  exact (append_run_unique (hword hwrapper) (hword hwrapper') (hblank hb) (hblank hb') htail).2

/-- An entry begins with a quote or with its key, and with nothing else. -/
theorem head_ne (e : Entry wrapper key content) (hkey : KeyText key) {c : Char}
    (hc : isKeyChar c = false ∧ c ∉ ['\x27', '"']) : content[e.start]? ≠ some c := by
  have hskip := congrArg (fun cs : List Char => cs[e.start]?) e.content_eq
  rw [start, List.getElem?_append_right le_rfl, Nat.sub_self] at hskip
  intro hhead
  rw [← start, hhead] at hskip
  rcases e.quoted with hlead | ⟨q, hq, hlead⟩
  · obtain ⟨x, xs, hxs⟩ := List.exists_cons_of_ne_nil hkey.ne_nil
    obtain rfl : c = x := by simpa [hlead, hxs] using hskip
    have hchar := hkey.isKeyChar c (by rw [hxs]; exact List.mem_cons_self)
    rw [hc.1] at hchar
    exact Bool.false_ne_true hchar
  · obtain rfl : c = q := by simpa [hlead] using hskip
    exact hc.2 hq

/-- No entry begins in front of a character that none of them has before its parenthesis, if there is
no parenthesis in between. -/
theorem lt_start (e : Entry wrapper key content) (hkey : KeyText key) {c : Char} (hc : Foreign c)
    (hw : c ∉ wrapper) (hne : c ≠ '(') {xs zs : List Char} (hcontent : content = xs ++ c :: zs)
    (hxs : '(' ∉ xs.drop e.start) : xs.length < e.start := by
  by_contra hle
  rcases append_cases (e.content_eq_opening.symm.trans hcontent) with
    ⟨as, hfront, hrest⟩ | ⟨as, hne', hfront, hrest⟩
  · cases as with
    | nil => exact hne (List.cons.inj hrest).1.symm
    | cons p as =>
        obtain ⟨rfl, -⟩ := List.cons.inj hrest
        rw [hfront, List.append_assoc, start, List.drop_left] at hxs
        simp at hxs
  · cases as with
    | nil => exact hne' rfl
    | cons p as =>
        obtain ⟨rfl, -⟩ := List.cons.inj hrest
        exact e.notMem_opening hkey hc hw (mem_of_append_eq hfront (Nat.le_of_not_lt hle))

/-- An entry that begins in front of a closing parenthesis opens with the parenthesis before that one,
if there is no other in between. -/
theorem opening_eq (e : Entry wrapper key content) (hkey : KeyText key)
    (hwrapper : '(' ∉ wrapper ∧ ')' ∉ wrapper) {xs ys zs : List Char}
    (hcontent : content = xs ++ '(' :: (ys ++ ')' :: zs)) (hxs : '(' ∉ xs.drop e.start)
    (hys : '(' ∉ ys) (hle : e.start ≤ xs.length + 1 + ys.length) : e.front ++ e.opening = xs := by
  have hclose := e.notMem_opening hkey (by decide) hwrapper.2
  rcases append_cases (e.content_eq_opening.symm.trans hcontent) with
    ⟨as, hfront, hrest⟩ | ⟨as, hne, hfront, hrest⟩
  · cases as with
    | nil => rw [hfront, List.append_nil]
    | cons p as =>
        obtain ⟨rfl, -⟩ := List.cons.inj hrest
        rw [hfront, List.append_assoc, start, List.drop_left] at hxs
        simp at hxs
  · -- the entry opens behind the parenthesis, so it passes the closing one
    cases as with
    | nil => exact absurd rfl hne
    | cons p as =>
        exfalso
        obtain ⟨rfl, hmore⟩ := List.cons.inj hrest
        rcases append_cases hmore with ⟨bs, rfl, hbs⟩ | ⟨bs, hne, hbs, hbs'⟩
        · cases bs with
          | nil => exact absurd (List.cons.inj hbs).1 (by decide)
          | cons p bs =>
              obtain ⟨rfl, -⟩ := List.cons.inj hbs
              have hpass : e.front ++ e.opening = (xs ++ '(' :: ys) ++ ')' :: bs := by
                rw [hfront]
                simp
              refine hclose (mem_of_append_eq hpass ?_)
              rw [List.length_append, List.length_cons]
              rw [start] at hle
              omega
        · cases bs with
          | nil => exact hne rfl
          | cons p bs =>
              obtain ⟨rfl, -⟩ := List.cons.inj hbs'
              exact hys (hbs ▸ by simp)

/-- An entry that begins inside of another one that has no parenthesis in its body opens with the same
parenthesis. -/
theorem opening_eq_of_overlap (e : Entry wrapper key content) (e' : Entry wrapper' key' content)
    (hkey : KeyText key) (hkey' : KeyText key') (hwrapper : '(' ∉ wrapper)
    (hwrapper' : '(' ∉ wrapper' ∧ ')' ∉ wrapper') (hbody : '(' ∉ e.body)
    (hstart : e.start ≤ e'.start) (hstop : e'.start < e.stop) :
    e'.front ++ e'.opening = e.front ++ e.opening := by
  have hopen : '(' ∉ (e.front ++ e.opening).drop e'.start := by
    intro hmem
    refine e.notMem_opening hkey (by decide) hwrapper ?_
    have hdrop : (e.front ++ e.opening).drop e.start = e.opening := List.drop_left
    exact hdrop ▸ (List.drop_sublist_drop_left _ hstart).mem hmem
  refine e'.opening_eq hkey' hwrapper' e.content_eq_opening hopen hbody ?_
  rw [e.stop_eq] at hstop
  omega

/-- **Entries of one wrapper do not hide each other.**  If an entry begins inside of another one that
has no parenthesis in its body, then both open with the same parenthesis: they have the same key,
and what follows the parenthesis is the same. -/
theorem same_key (e : Entry wrapper key content) (e' : Entry wrapper key' content)
    (hkey : KeyText key) (hkey' : KeyText key') (hwrapper : '(' ∉ wrapper ∧ ')' ∉ wrapper)
    (hbody : '(' ∉ e.body) (hstart : e.start ≤ e'.start) (hstop : e'.start < e.stop) :
    key = key' ∧ e.body ++ ')' :: e.rest = e'.body ++ ')' :: e'.rest := by
  have hsame := e.opening_eq_of_overlap e' hkey hkey' hwrapper.1 hwrapper hbody hstart hstop
  refine ⟨e.key_eq e' hkey hkey' hsame.symm, ?_⟩
  have hcontent := e.content_eq_opening.symm.trans e'.content_eq_opening
  rw [hsame] at hcontent
  exact (List.cons.inj (List.append_cancel_left hcontent)).2

end Entry

end Overlap

end Registration

end ServiceKeys
