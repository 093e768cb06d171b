import ServiceKeys.Proofs.Regex.Between
import ServiceKeys.Import.Basic

/-!
# Imported names, as they are written

An item of a list of imports is a name, perhaps with an alias behind the word `as` or a colon, perhaps
with the word `type` in front of it.  Names are made of letters, digits and underscores, so the word
`as` is told from a name that ends or begins with it by the edge of a word; the words `as` and `from`
are names like any other.  Main statement: `Item.namedItem?_text`.
-/

namespace ServiceKeys.Import

open Text Regex

/-! ## Names and blanks -/

/-- The words that cannot be names. -/
def reserved : List (List Char) := ["type", "import", "const", "let", "var"].map String.toList

/-- A name. -/
structure Name where
  text : List Char
  shape : ∃ c rest, text = c :: rest ∧ (c.isAlpha || c == '_') = true ∧
    ∀ d ∈ rest, isAsciiWord d = true
  free : text ∉ reserved

namespace Name

theorem isWord (n : Name) : ∀ c ∈ n.text, isWord c = true := by
  obtain ⟨c, rest, htext, hc, hrest⟩ := n.shape
  rw [htext, List.forall_mem_cons]
  refine ⟨isWord_of_isAsciiWord ?_, fun d hd => isWord_of_isAsciiWord (hrest d hd)⟩
  simp only [Bool.or_eq_true, isAsciiWord, Char.isAlphanum] at hc ⊢
  exact hc.imp_left Or.inl

theorem bareName (n : Name) : BareName n.text := by
  obtain ⟨c, rest, htext, hc, -⟩ := n.shape
  refine ⟨c, rest, htext, ?_, fun d hd => ?_⟩
  · rw [isIdentifierStart, hc]
    rfl
  · rw [isIdentifierContinue, n.isWord d (by simp [htext, hd])]
    rfl

theorem ne_nil (n : Name) : n.text ≠ [] := n.bareName.ne_nil

theorem isIdentifier (n : Name) : isIdentifier n.text = true := isIdentifier_of_bareName n.bareName

theorem notBlank (n : Name) : ∀ c ∈ n.text, isBlank c = false := n.bareName.notBlank

/-- A name has no character that is not a word character. -/
theorem notMem (n : Name) {c : Char} (hc : Text.isWord c = false) : c ∉ n.text := fun hmem => by
  rw [n.isWord c hmem] at hc
  exact Bool.false_ne_true hc.symm

end Name

/-- Blanks. -/
structure Space where
  text : List Char
  blanks : Blanks text

/-- Blanks, at least one. -/
structure Gap extends Space where
  ne_nil : text ≠ []

/-- A text that does not go on with a name. -/
def Loose (rest : List Char) : Prop := ∀ c ∈ rest.head?, isIdentifierContinue c = false

theorem loose_nil : Loose [] := by simp [Loose]

theorem loose_cons {c : Char} {rest : List Char} (h : isIdentifierContinue c = false) :
    Loose (c :: rest) := by
  simpa [Loose] using h

theorem Loose.blanks {b rest : List Char} (hb : Blanks b) (h : Loose rest) : Loose (b ++ rest) := by
  cases b with
  | nil => exact h
  | cons c b => exact loose_cons (not_continue_of_blank (hb c List.mem_cons_self))

theorem Gap.loose (g : Gap) (rest : List Char) : Loose (g.text ++ rest) := by
  obtain ⟨c, b, hcb⟩ := List.exists_cons_of_ne_nil g.ne_nil
  rw [hcb]
  exact loose_cons (not_continue_of_blank (g.blanks c (by simp [hcb])))

theorem Gap.loose_append (g : Gap) (text rest : List Char) : Loose (g.text ++ text ++ rest) := by
  rw [List.append_assoc]
  exact g.loose _

theorem Gap.exists_concat (g : Gap) : ∃ b c, g.text = b ++ [c] :=
  ⟨_, _, (List.dropLast_append_getLast g.ne_nil).symm⟩

theorem Name.head?_notBlank (n : Name) (rest : List Char) :
    ∀ c ∈ (n.text ++ rest).head?, isBlank c = false := n.bareName.head?_notBlank rest

/-! ## Items -/

/-- What stands between a name and its alias. -/
inductive Link where
  /-- The word `as` between blanks. -/
  | as (before after : Gap)
  /-- A colon. -/
  | colon (after : Space)

namespace Link

def before : Link → List Char
  | .as before _ => before.text
  | .colon _ => []

def sign : Link → List Char
  | .as _ _ => ['a', 's']
  | .colon _ => [':']

def after : Link → List Char
  | .as _ after => after.text
  | .colon after => after.text

def text (link : Link) : List Char := link.before ++ (link.sign ++ link.after)

theorem blanks_before : ∀ link : Link, Blanks link.before
  | .as before _ => before.blanks
  | .colon _ => by simp [before, Blanks]

theorem blanks_after : ∀ link : Link, Blanks link.after
  | .as _ after => after.blanks
  | .colon after => after.blanks

/-- A name ends where its link begins. -/
theorem loose (link : Link) (rest : List Char) : Loose (link.text ++ rest) := by
  cases link with
  | as before after =>
      rw [text, List.append_assoc]
      exact before.loose _
  | colon after => exact loose_cons (by decide)

end Link

/-- The word `type` in front of something, if it is there, and the blanks behind it. -/
def marked : Option Gap → List Char
  | none => []
  | some gap => "type".toList ++ gap.text

/-- An item of a list in braces. -/
structure Item where
  /-- The blanks behind the word `type`, if it is there. -/
  typed : Option Gap
  name : Name
  renamed : Option (Link × Name)

namespace Item

/-- What stands behind the name. -/
def more (item : Item) : List Char :=
  match item.renamed with
  | none => []
  | some (link, localName) => link.text ++ localName.text

def text (item : Item) : List Char := marked item.typed ++ (item.name.text ++ item.more)

/-- The name in the importing file. -/
def localName (item : Item) : Name :=
  match item.renamed with
  | none => item.name
  | some (_, localName) => localName

def pair (item : Item) : Exported × String :=
  (.ofName (String.ofList item.name.text), String.ofList item.localName.text)

end Item

/-! ### Aliases -/

theorem denotes_nameRun : Denotes nameRun
    (texts fun xs => (∀ c ∈ xs, isIdentifierContinue c = true) ∧ xs ≠ []) := by
  apply (denotes_span (.wordOr ['$']) 1 none (by decide)).congr
  intro xs
  simp only [CharSet.runs, mem_texts, CharSet.accepts_nameChar, Within, Option.not_mem_none,
    false_implies, implies_true, and_true, Nat.one_le_iff_ne_zero, ne_eq, List.length_eq_zero_iff]

theorem mem_nameRun {n : List Char} (hn : BareName n) :
    n ∈ texts fun xs => (∀ c ∈ xs, isIdentifierContinue c = true) ∧ xs ≠ [] :=
  ⟨hn.isIdentifierContinue, hn.ne_nil⟩

/-- What a name has in it that can be read as two names around the word `as`. -/
def joined : List Char := "$as$".toList

theorem Name.not_joined (n : Name) : ¬ joined <:+: n.text := fun h =>
  n.notMem (by decide) (h.subset (by decide : '$' ∈ joined))

/-- A way in which a text is two names around a link, perhaps with a line feed behind it. -/
structure AliasCut (text x b l b' y z : List Char) : Prop where
  text_eq : text = x ++ (b ++ (l ++ (b' ++ (y ++ z))))
  first : ∀ c ∈ x, isIdentifierContinue c = true
  first_ne : x ≠ []
  blanks : Blanks b
  sign : l = [':'] ∨ l = ['a', 's'] ∧ (∀ c ∈ (x ++ b).getLast?, isWord c = false) ∧
    ∀ c ∈ (b' ++ (y ++ z)).head?, isWord c = false
  blanks' : Blanks b'
  second : ∀ c ∈ y, isIdentifierContinue c = true
  second_ne : y ≠ []
  rest : z = [] ∨ z = ['\n']

/-- The ends of the pattern for an alias. -/
theorem aliasCut_of_mem_ends {text : List Char} {st : State}
    (h : st ∈ ends aliased ⟨.between [] text, []⟩) :
    ∃ x b l b' y z, AliasCut text x b l b' y z ∧ (st.capture? 1).map Capture.text = some x ∧
      (st.capture? 2).map Capture.text = some y := by
  obtain ⟨-, h₁⟩ := mem_ends_anchor_cons.1 h
  obtain ⟨x, ⟨hx, hxne⟩, _, rfl, h₂⟩ := denotes_nameRun.mem_ends_group_cons.1 h₁
  obtain ⟨b, hb, _, rfl, h₃⟩ := denotes_blanks.mem_ends_cons.1 h₂
  rcases mem_ends_alt_cons.1 h₃ with h₃ | h₃
  · obtain ⟨hedge, h₄⟩ := mem_ends_anchor_cons.1 (mem_ends_ofList_ofList.1 h₃)
    obtain ⟨_, rfl, _, rfl, h₅⟩ := (denotes_literal _).mem_ends_cons.1 h₄
    obtain ⟨hedge', h₆⟩ := mem_ends_anchor_cons.1 h₅
    obtain ⟨b', hb', _, rfl, h₇⟩ := denotes_blanks.mem_ends_cons.1 h₆
    obtain ⟨y, ⟨hy, hyne⟩, z, rfl, h₈⟩ := denotes_nameRun.mem_ends_group_cons.1 h₇
    obtain ⟨hend, h₉⟩ := mem_ends_anchor_cons.1 h₈
    obtain rfl := mem_ends_ofList_nil.1 h₉
    -- the word `as` is made of word characters, so none stands before it and none behind it
    have hbefore : ∀ c ∈ (x ++ b).getLast?, isWord c = false := by
      have hne := wordEdge_holds_iff.1 hedge
      have ha : isWord 'a' = true := by decide
      intro c hc
      rw [List.nil_append, Option.mem_def.1 hc] at hne
      simpa [ha] using hne
    have hbehind : ∀ c ∈ (b' ++ (y ++ z)).head?, isWord c = false := by
      have hne := wordEdge_holds_iff.1 hedge'
      have hs : isWord 's' = true := by decide
      intro c hc
      rw [Option.mem_def.1 hc] at hne
      simpa [hs] using hne
    exact ⟨x, b, _, b', y, z, ⟨rfl, hx, hxne, hb, Or.inr ⟨rfl, hbefore, hbehind⟩, hb', hy, hyne,
      lastLineEnd_holds_iff.1 hend⟩, by simp, by simp⟩
  · obtain ⟨_, rfl, _, rfl, h₄⟩ := (denotes_char ':').mem_ends_cons.1 h₃
    obtain ⟨b', hb', _, rfl, h₅⟩ := denotes_blanks.mem_ends_cons.1 h₄
    obtain ⟨y, ⟨hy, hyne⟩, z, rfl, h₆⟩ := denotes_nameRun.mem_ends_group_cons.1 h₅
    obtain ⟨hend, h₇⟩ := mem_ends_anchor_cons.1 h₆
    obtain rfl := mem_ends_ofList_nil.1 h₇
    exact ⟨x, b, _, b', y, z, ⟨rfl, hx, hxne, hb, Or.inl rfl, hb', hy, hyne,
      lastLineEnd_holds_iff.1 hend⟩, by simp, by simp⟩

theorem fits_end {n : List Char} (hn : BareName n) {front : List Char} {caps : List (Nat × Capture)}
    {i : Nat} : Fits (ofList [.group i nameRun, .anchor .lastLineEnd]) ⟨.between front n, caps⟩ := by
  rw [← List.append_nil n]
  refine denotes_nameRun.fits_group_cons (mem_nameRun hn) ?_
  exact fits_anchor_cons (lastLineEnd_holds_iff.2 (Or.inl rfl)) fits_ofList_nil

/-- Two names around a link are an alias. -/
theorem fits_aliased {n n' : List Char} (hn : BareName n) (link : Link) (hn' : BareName n') :
    Fits aliased ⟨.between [] (n ++ (link.text ++ n')), []⟩ := by
  refine fits_anchor_cons rfl (denotes_nameRun.fits_group_cons (mem_nameRun hn) ?_)
  rw [Link.text, List.append_assoc, List.append_assoc]
  refine denotes_blanks.fits_cons link.blanks_before (fits_alt_cons.2 ?_)
  cases link with
  | as before after =>
      -- both edges of the word are edges to a blank
      have hbefore : ∀ front rest, Anchor.holds (.wordEdge false false)
          (.between (front ++ before.text) ('a' :: rest)) = true := by
        intro front rest
        obtain ⟨b, c, hbc⟩ := before.exists_concat
        have ha : isWord 'a' = true := by decide
        have hc : isWord c = false := isWord_of_isBlank (before.blanks c (by simp [hbc]))
        rw [wordEdge_holds_iff, hbc]
        simp [ha, hc]
      have hafter : ∀ front rest, Anchor.holds (.wordEdge false false)
          (.between (front ++ ['a', 's']) (after.text ++ rest)) = true := by
        intro front rest
        obtain ⟨c, b, hcb⟩ := List.exists_cons_of_ne_nil after.ne_nil
        have hs : isWord 's' = true := by decide
        have hc : isWord c = false := isWord_of_isBlank (after.blanks c (by simp [hcb]))
        rw [wordEdge_holds_iff, hcb]
        simp [hs, hc]
      refine Or.inl (fits_ofList_ofList.2 (fits_anchor_cons (hbefore _ _) ?_))
      refine (denotes_literal _).fits_cons rfl (fits_anchor_cons (hafter _ _) ?_)
      exact denotes_blanks.fits_cons after.blanks (fits_end hn')
  | colon after =>
      refine Or.inr ((denotes_char ':').fits_cons rfl ?_)
      exact denotes_blanks.fits_cons after.blanks (fits_end hn')

/-- Blanks and a name, perhaps with a line feed behind it, are read in one way only. -/
theorem eq_of_blanks_append {n a b y z : List Char} (hn : BareName n) (ha : Blanks a) (hb : Blanks b)
    (hy : ∀ c ∈ y, isIdentifierContinue c = true) (hne : y ≠ []) (hz : z = [] ∨ z = ['\n'])
    (h : a ++ (y ++ z) = b ++ n) : y = n := by
  have hhead : ∀ c ∈ (y ++ z).head?, isBlank c = false := by
    obtain ⟨c, cs, rfl⟩ := List.exists_cons_of_ne_nil hne
    simpa using not_blank_of_continue (hy c List.mem_cons_self)
  have hfirst := hn.head?_notBlank []
  rw [List.append_nil] at hfirst
  obtain ⟨-, hyz⟩ := run_append_unique ha hb hhead hfirst h
  rcases hz with rfl | rfl
  · simpa using hyz
  · have hblank := hn.notBlank '\n' (hyz ▸ List.mem_append_right _ (List.mem_singleton_self _))
    exact absurd hblank (by decide)

theorem Link.sign_notBlank (link : Link) (rest : List Char) :
    ∀ c ∈ (link.sign ++ rest).head?, isBlank c = false := by
  cases link <;> simp [sign] <;> decide

namespace AliasCut

variable {text x b l b' y z : List Char}

/-- A dollar sign is the only character of names that is no word character. -/
theorem eq_dollar {c : Char} (h : isIdentifierContinue c = true) (hc : isWord c = false) : c = '$' := by
  simpa [isIdentifierContinue, hc] using h

/-- The first name of an alias is the whole name in front, or the name has the word `as` inside of it,
with dollar signs around it if the name goes on, and the alias is cut there. -/
theorem first_cases {n rest : List Char} (h : AliasCut (n ++ rest) x b l b' y z) (hn : BareName n)
    (hrest : Loose rest) :
    (x = n ∧ b ++ (l ++ (b' ++ (y ++ z))) = rest) ∨
      ∃ ws, n = x ++ ('a' :: 's' :: ws) ∧ '$' ∈ x.getLast? ∧ ws ++ rest = b' ++ (y ++ z) ∧
        ∀ c ∈ (ws ++ rest).head?, isWord c = false := by
  rcases append_cases h.text_eq.symm with ⟨as, hcut, hmore⟩ | ⟨as, hne, hx, hmore⟩
  · cases as with
    | nil => exact Or.inl ⟨by simpa using hcut.symm, hmore⟩
    | cons c as =>
        have hc : isIdentifierContinue c = true := hn.isIdentifierContinue c (by simp [hcut])
        cases b with
        | cons d b =>
            obtain rfl : d = c := (List.cons.inj hmore).1
            rw [not_continue_of_blank (h.blanks d List.mem_cons_self)] at hc
            exact absurd hc (by decide)
        | nil =>
            rcases h.sign with rfl | ⟨rfl, hedge, hedge'⟩
            · obtain rfl : ':' = c := (List.cons.inj hmore).1
              exact absurd hc (by decide)
            · -- the word `as` goes on with the name
              obtain ⟨rfl, hbehind⟩ := List.cons.inj
                (show 'a' :: 's' :: (b' ++ (y ++ z)) = c :: (as ++ rest) from hmore)
              cases as with
              | nil =>
                  have hs := hrest 's' (by rw [← show _ = rest from hbehind]; rfl)
                  exact absurd hs (by decide)
              | cons d ws =>
                  obtain ⟨rfl, hcut'⟩ := List.cons.inj
                    (show 's' :: (b' ++ (y ++ z)) = d :: (ws ++ rest) from hbehind)
                  rw [List.append_nil] at hedge
                  refine Or.inr ⟨ws, hcut, ?_, hcut'.symm, hcut' ▸ hedge'⟩
                  have hlast := List.getLast?_eq_some_getLast h.first_ne
                  have hname := h.first _ (List.mem_of_getLast? hlast)
                  rw [hlast, eq_dollar hname (hedge _ hlast)]
                  rfl
  · exfalso
    obtain ⟨c, cs, rfl⟩ := List.exists_cons_of_ne_nil hne
    have hc := h.first c (by simp [hx])
    rw [hrest c (by simp [hmore])] at hc
    exact Bool.false_ne_true hc

/-- Behind a cut inside of the first name no link can follow: its blanks or its colon would stand
inside of the second name. -/
theorem not_inside {n' ws : List Char} {link : Link} (h : AliasCut text x b l b' y z)
    (hn' : BareName n') (hcut : ws ++ (link.text ++ n') = b' ++ (y ++ z)) : False := by
  -- the text ends in a name, so no line feed is left behind the second one
  obtain rfl : z = [] := by
    rcases h.rest with rfl | rfl
    · rfl
    · have hlast := congrArg List.getLast? hcut
      rw [← List.append_assoc, ← List.append_assoc, List.getLast?_append_of_ne_nil _ hn'.ne_nil,
        List.getLast?_concat] at hlast
      exact absurd (hn'.notBlank _ (List.mem_of_getLast? hlast)) (by decide)
  rw [List.append_nil] at hcut
  cases link with
  | as before after =>
      obtain ⟨c, cs, hafter⟩ := List.exists_cons_of_ne_nil after.ne_nil
      have hblank : isBlank c = true := after.blanks c (by simp [hafter])
      have hshape : (ws ++ (before.text ++ ['a', 's'])) ++ c :: (cs ++ n') = b' ++ y := by
        simpa [Link.text, Link.before, Link.sign, Link.after, hafter] using hcut
      rcases append_cases hshape with ⟨us, rfl, -⟩ | ⟨us, -, -, hy⟩
      · have hblanks := h.blanks'
        exact absurd (hblanks 's' (by simp)) (by decide)
      · have hname := h.second c (by simp [hy])
        exact Bool.false_ne_true ((not_continue_of_blank hblank).symm.trans hname)
  | colon after =>
      have hmem : ':' ∈ b' ++ y := hcut ▸ by simp [Link.text, Link.sign]
      rcases List.mem_append.1 hmem with hmem | hmem
      · exact absurd (h.blanks' _ hmem) (by decide)
      · exact absurd (h.second _ hmem) (by decide)

/-- Two names around a link can be read in one way only. -/
theorem unique {n n' : List Char} {link : Link} (hn : BareName n) (hn' : BareName n')
    (h : AliasCut (n ++ (link.text ++ n')) x b l b' y z) : x = n ∧ y = n' := by
  rcases h.first_cases hn (link.loose _) with ⟨hx, hlink⟩ | ⟨ws, -, -, hcut, -⟩
  · refine ⟨hx, ?_⟩
    rw [Link.text, List.append_assoc, List.append_assoc] at hlink
    have hl : ∀ c ∈ (l ++ (b' ++ (y ++ z))).head?, isBlank c = false := by
      rcases h.sign with rfl | ⟨rfl, -⟩ <;> simp <;> decide
    obtain ⟨-, hsign⟩ := run_append_unique h.blanks link.blanks_before hl (link.sign_notBlank _) hlink
    have hafter : b' ++ (y ++ z) = link.after ++ n' := by
      -- the sign is told by its first character
      rcases h.sign with rfl | ⟨rfl, -⟩ <;> cases link <;> simp_all [Link.sign, Link.after]
    exact eq_of_blanks_append hn' h.blanks' link.blanks_after h.second h.second_ne h.rest hafter
  · exact absurd (h.not_inside hn' hcut) id

/-- A name alone is an alias only if it has the word `as` between dollar signs. -/
theorem joined_of_name {n : List Char} (hn : BareName n) (h : AliasCut n x b l b' y z) :
    joined <:+: n := by
  rw [← List.append_nil n] at h
  rcases h.first_cases hn loose_nil with ⟨-, hnil⟩ | ⟨ws, rfl, hlast, hcut, hword⟩
  · have hl : l ≠ [] := by
      rcases h.sign with rfl | ⟨rfl, -⟩ <;> simp
    simp [hl] at hnil
  · -- the second name begins right behind the word, and with no word character
    obtain ⟨d, more, hmore⟩ : ∃ d more, ws ++ [] = d :: more := by
      refine List.exists_cons_of_ne_nil ?_
      rw [hcut]
      simp [h.second_ne]
    obtain rfl : ws = d :: more := by simpa using hmore
    obtain rfl := eq_dollar (hn.isIdentifierContinue d (by simp)) (hword d rfl)
    refine ⟨x.dropLast, more, ?_⟩
    have hx := List.dropLast_append_getLast? _ hlast
    rw [← List.append_nil ('a' :: _), ← hx]
    simp [joined]

end AliasCut

theorem matchStart?_aliased {n n' : List Char} (hn : BareName n) (link : Link) (hn' : BareName n') :
    ∃ m, matchStart? aliased (n ++ (link.text ++ n')) = some m ∧
      m.group? 1 = some n ∧ m.group? 2 = some n' := by
  obtain ⟨st, hst, hm⟩ := (fits_aliased hn link hn').exists_matchStart?
  obtain ⟨x, b, l, b', y, z, hcut, h₁, h₂⟩ := aliasCut_of_mem_ends hst
  obtain ⟨rfl, rfl⟩ := hcut.unique hn hn'
  exact ⟨_, hm, h₁, h₂⟩

theorem matchStart?_aliased_name {n : List Char} (hn : BareName n) (hplain : ¬ joined <:+: n) :
    matchStart? aliased n = none := by
  refine matchStart?_eq_none ?_
  rintro ⟨st, hst⟩
  obtain ⟨x, b, l, b', y, z, hcut, -⟩ := aliasCut_of_mem_ends hst
  exact hplain (hcut.joined_of_name hn)

/-! ### The word `type` -/

/-- A name other than the mark is not taken for it. -/
theorem ne_marked {n rest b more : List Char} (hn : BareName n) (hfree : n ≠ "type".toList)
    (hrest : Loose rest) (hb : Blanks b) (hne : b ≠ []) :
    n ++ rest ≠ "type".toList ++ (b ++ more) := by
  intro h
  obtain ⟨hmark, -⟩ := run_append_unique hn.isIdentifierContinue (by decide) hrest
    (Gap.loose ⟨⟨b, hb⟩, hne⟩ more) h
  exact hfree hmark

theorem Name.ne_type (n : Name) : n.text ≠ "type".toList := fun h => n.free (by rw [h]; decide)

theorem Name.ne_marked (n : Name) {rest b more : List Char} (hrest : Loose rest) (hb : Blanks b)
    (hne : b ≠ []) : n.text ++ rest ≠ "type".toList ++ (b ++ more) :=
  Import.ne_marked n.bareName n.ne_type hrest hb hne

theorem withoutTypeMark_name {n rest : List Char} (hn : BareName n) (hfree : n ≠ "type".toList)
    (hrest : Loose rest) : withoutTypeMark (n ++ rest) = n ++ rest := by
  have hnone : matchStart? typeMark (n ++ rest) = none := by
    refine matchStart?_eq_none ?_
    rintro ⟨st, hst⟩
    obtain ⟨-, h₁⟩ := mem_ends_anchor_cons.1 hst
    obtain ⟨_, rfl, _, htype, h₂⟩ := (denotes_literal _).mem_ends_cons.1 h₁
    obtain ⟨b, ⟨hb, hbne⟩, more, rfl, -⟩ := denotes_blanks1.mem_ends_between.1 h₂
    exact ne_marked hn hfree hrest hb hbne htype
  rw [withoutTypeMark, hnone]

/-- A gap is taken whole. -/
theorem Gap.preferred_blanks1 (gap : Gap) {front rest : List Char}
    (hrest : ∀ c ∈ rest.head?, isBlank c = false) :
    preferred blanks1 ⟨.between front (gap.text ++ rest), []⟩ =
      some ⟨.between (front ++ gap.text) rest, []⟩ := by
  refine preferred_span ?_ (List.length_pos_iff.2 gap.ne_nil) ?_
  · simpa only [CharSet.accepts_blank, Blanks] using gap.blanks
  · simpa only [CharSet.accepts_blank] using hrest

/-- The mark is cut off with all the blanks behind it. -/
theorem withoutTypeMark_typed (gap : Gap) (n : Name) (rest : List Char) :
    withoutTypeMark ("type".toList ++ (gap.text ++ (n.text ++ rest))) = n.text ++ rest := by
  have hmark : preferred typeMark
      ⟨.between [] ("type".toList ++ (gap.text ++ (n.text ++ rest))), []⟩ = some _ :=
    (((comesTo_cons (preferred_anchor rfl)).trans (comesTo_cons preferred_literal)).trans
      (comesTo_cons (gap.preferred_blanks1 (n.head?_notBlank rest))) fits_ofList_nil).2
  rw [withoutTypeMark, matchStart?_eq, hmark]
  show List.drop ([] ++ "type".toList ++ gap.text).length _ = _
  rw [List.nil_append, ← List.append_assoc, List.drop_left]

/-! ### An item -/

theorem namedItem?_eq_alias {item n n' : List Char} {link : Link} (hn : BareName n)
    (hn' : BareName n') (hitem : withoutTypeMark (trim item) = n ++ (link.text ++ n')) :
    namedItem? item = some (.ofName (String.ofList n), String.ofList n') := by
  obtain ⟨m, hm, h₁, h₂⟩ := matchStart?_aliased hn link hn'
  simp only [namedItem?, hitem, hm, groupText, h₁, h₂, Option.getD_some]

theorem namedItem?_eq_name {item n : List Char} (hn : BareName n) (hplain : ¬ joined <:+: n)
    (hitem : withoutTypeMark (trim item) = n) :
    namedItem? item = some (.ofName (String.ofList n), String.ofList n) := by
  simp only [namedItem?, hitem, matchStart?_aliased_name hn hplain, isIdentifier_of_bareName hn,
    if_true]

namespace Item

theorem loose_more (item : Item) : Loose item.more := by
  rcases item with ⟨typed, name, _ | ⟨link, localName⟩⟩
  · exact loose_nil
  · exact link.loose _

theorem withoutTypeMark_text (item : Item) :
    withoutTypeMark item.text = item.name.text ++ item.more := by
  rcases item with ⟨_ | gap, name, renamed⟩
  · rw [text, marked, List.nil_append]
    exact withoutTypeMark_name name.bareName name.ne_type (loose_more ⟨none, name, renamed⟩)
  · rw [text, marked, List.append_assoc]
    exact withoutTypeMark_typed gap name _

theorem head?_notBlank (item : Item) : ∀ c ∈ item.text.head?, isBlank c = false := by
  rcases item with ⟨_ | gap, name, renamed⟩
  · exact name.head?_notBlank _
  · simp [text, marked]
    decide

theorem getLast?_notBlank (item : Item) : ∀ c ∈ item.text.getLast?, isBlank c = false := by
  intro c hc
  -- the last character is that of the last name
  have hlast : item.text.getLast? = item.localName.text.getLast? := by
    rcases item with ⟨typed, name, _ | ⟨link, localName⟩⟩
    · simp only [text, more, localName, List.append_nil]
      exact List.getLast?_append_of_ne_nil _ name.ne_nil
    · simp only [text, more, ← List.append_assoc]
      exact List.getLast?_append_of_ne_nil _ localName.ne_nil
  exact item.localName.notBlank c (List.mem_of_getLast? (hlast ▸ hc))

/-- An item between blanks is read as it was written. -/
theorem namedItem?_text (item : Item) {a b : List Char} (ha : Blanks a) (hb : Blanks b) :
    namedItem? (a ++ (item.text ++ b)) = some item.pair := by
  have hitem := item.withoutTypeMark_text
  rw [← trim_eq ha hb item.head?_notBlank item.getLast?_notBlank] at hitem
  rcases item with ⟨typed, name, _ | ⟨link, localName⟩⟩
  · rw [more, List.append_nil] at hitem
    exact namedItem?_eq_name name.bareName name.not_joined hitem
  · exact namedItem?_eq_alias name.bareName localName.bareName hitem

end Item

/-! ## The characters of a clause -/

/-- A text of word characters, blanks and the signs listed. -/
def Made (signs text : List Char) : Prop :=
  ∀ c ∈ text, isWord c = true ∨ isBlank c = true ∨ c ∈ signs

namespace Made

variable {signs signs' text text' : List Char}

theorem append (h : Made signs text) (h' : Made signs text') : Made signs (text ++ text') :=
  fun c hc => (List.mem_append.1 hc).elim (h c) (h' c)

theorem cons {c : Char} (hc : c ∈ signs) (h : Made signs text) : Made signs (c :: text) :=
  List.forall_mem_cons.2 ⟨Or.inr (Or.inr hc), h⟩

theorem mono (h : Made signs text) (hsub : signs ⊆ signs') : Made signs' text :=
  fun c hc => (h c hc).imp_right (Or.imp_right (hsub ·))

theorem notMem (h : Made signs text) {c : Char}
    (hc : isWord c = false ∧ isBlank c = false ∧ c ∉ signs) : c ∉ text := fun hmem => by
  rcases h c hmem with hword | hblank | hsign
  · exact Bool.false_ne_true (hc.1.symm.trans hword)
  · exact Bool.false_ne_true (hc.2.1.symm.trans hblank)
  · exact hc.2.2 hsign

end Made

theorem Name.made (n : Name) (signs : List Char) : Made signs n.text :=
  fun c hc => Or.inl (n.isWord c hc)

theorem Space.made (s : Space) (signs : List Char) : Made signs s.text :=
  fun c hc => Or.inr (Or.inl (s.blanks c hc))

theorem Link.made (link : Link) : Made [':'] link.text := by
  cases link with
  | as before after =>
      exact (before.made _).append (Made.append (by simp [Made, sign]; decide) (after.made _))
  | colon after => exact Made.cons (by decide) (after.made _)

theorem Item.made (item : Item) : Made [':'] item.text := by
  refine Made.append ?_ ((item.name.made _).append ?_)
  · cases h : item.typed with
    | none => simp [marked, Made]
    | some gap =>
        exact Made.append (by simp [Made]; decide) (gap.made _)
  · cases h : item.renamed with
    | none => simp [more, h, Made]
    | some renamed =>
        rw [more, h]
        exact renamed.1.made.append (renamed.2.made _)

end ServiceKeys.Import
