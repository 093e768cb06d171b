import ServiceKeys.Proofs.Import.Clause

/-!
# Lists of identifiers

The names of an import are identifiers, and an identifier may have dollar signs anywhere.  A dollar
sign is no word character, so the edges of the word `as` are also found inside of a name, between two
dollar signs.  The main statement is `clause_listed_iff`: a list of names and aliases, alone or behind
a default import or a namespace, is taken apart into what was written exactly if no name in it that
has no alias has `$as$` inside.
-/

namespace ServiceKeys.Import

open Text Regex

/-- An identifier. -/
structure Ident where
  text : List Char
  bare : BareName text

theorem Ident.made (n : Ident) : Made ['$'] n.text := by
  intro c hc
  have hname := n.bare.isIdentifierContinue c hc
  simp only [isIdentifierContinue, Bool.or_eq_true, beq_iff_eq] at hname
  exact hname.imp_right fun h => Or.inr (List.mem_singleton.2 h)

theorem made_as : Made ['$'] ['a', 's'] := by
  simp [Made]
  decide

/-- An identifier in a list of imports: the word `type` is none. -/
structure ListedName extends Ident where
  free : text ≠ "type".toList

/-- An item of a list of imports and the blanks around it: a name, perhaps with an alias behind the word
`as`, which has blanks on both sides. -/
structure Listed where
  before : Space
  name : ListedName
  renamed : Option ((Gap × Gap) × ListedName)
  after : Space

/-! ## Names that can be read as aliases -/

theorem fits_aliased_joined {n : List Char} (hn : BareName n) (h : joined <:+: n) :
    Fits aliased ⟨.between [] n, []⟩ := by
  obtain ⟨front, back, hcut⟩ := h
  have hshape : n = (front ++ ['$']) ++ ([] ++ (['a', 's'] ++ ([] ++ '$' :: back))) := by
    rw [← hcut]
    simp [joined]
  have hname : ∀ c ∈ n, isIdentifierContinue c = true := hn.isIdentifierContinue
  have hrun : ∀ xs, xs ≠ [] → (∀ c ∈ xs, c ∈ n) →
      xs ∈ texts fun xs => (∀ c ∈ xs, isIdentifierContinue c = true) ∧ xs ≠ [] :=
    fun xs hne hin => ⟨fun c hc => hname c (hin c hc), hne⟩
  have hfirst := hrun (front ++ ['$']) (by simp) fun c hc => hshape ▸ List.mem_append_left _ hc
  have hsecond := hrun ('$' :: back) (by simp) fun c hc => by
    rw [hshape, List.nil_append, List.nil_append]
    exact List.mem_append_right _ (List.mem_append_right _ hc)
  have hblanks : ([] : List Char) ∈ texts Blanks := by simp [mem_texts, Blanks]
  have hedge : ∀ c ∈ ['a', 's'], isWord c = true := by decide
  have hsign : isWord '$' = false := by decide
  rw [hshape]
  refine fits_anchor_cons rfl (denotes_nameRun.fits_group_cons hfirst ?_)
  refine denotes_blanks.fits_cons hblanks (fits_alt_cons.2 (Or.inl ?_))
  refine fits_ofList_ofList.2 (fits_anchor_cons ?_ ?_)
  · rw [wordEdge_holds_iff]
    simp [hedge, hsign]
  refine (denotes_literal _).fits_cons rfl (fits_anchor_cons ?_ ?_)
  · rw [wordEdge_holds_iff]
    simp [hedge, hsign]
  refine denotes_blanks.fits_cons hblanks ?_
  rw [← List.append_nil ('$' :: back)]
  refine denotes_nameRun.fits_group_cons hsecond ?_
  exact fits_anchor_cons (lastLineEnd_holds_iff.2 (Or.inl rfl)) fits_ofList_nil

/-- A name that has the word `as` between dollar signs is read as an alias, and the second name of the
alias is not the whole name. -/
theorem exists_alias_of_joined {n : List Char} (hn : BareName n) (h : joined <:+: n) :
    ∃ m y, matchStart? aliased n = some m ∧ m.group? 2 = some y ∧ y ≠ n := by
  obtain ⟨st, hst, hm⟩ := (fits_aliased_joined hn h).exists_matchStart?
  obtain ⟨x, b, l, b', y, z, hcut, -, hy⟩ := aliasCut_of_mem_ends hst
  refine ⟨_, y, hm, hy, ?_⟩
  rintro rfl
  have hlength := congrArg List.length hcut.text_eq
  have hx := List.length_pos_iff.2 hcut.first_ne
  simp only [List.length_append] at hlength
  omega

namespace Listed

/-- What stands behind the name. -/
def more (item : Listed) : List Char :=
  match item.renamed with
  | .none => []
  | some ((before, after), localName) => (Link.as before after).text ++ localName.text

def text (item : Listed) : List Char :=
  item.before.text ++ ((item.name.text ++ item.more) ++ item.after.text)

/-- The name in the importing file. -/
def localName (item : Listed) : ListedName :=
  match item.renamed with
  | .none => item.name
  | some (_, localName) => localName

def pair (item : Listed) : Exported × String :=
  (.ofName (String.ofList item.name.text), String.ofList item.localName.text)

/-- Whether an item is a name alone that can be read as an alias. -/
def Joined (item : Listed) : Prop := item.renamed = .none ∧ joined <:+: item.name.text

theorem loose_more (item : Listed) : Loose item.more := by
  rcases item with ⟨before, name, _ | ⟨⟨before', after'⟩, other⟩, after⟩
  · exact loose_nil
  · exact (Link.as before' after').loose _

theorem getLast?_notBlank (item : Listed) :
    ∀ c ∈ (item.name.text ++ item.more).getLast?, isBlank c = false := by
  intro c hc
  have hlast : (item.name.text ++ item.more).getLast? = item.localName.text.getLast? := by
    rcases item with ⟨before, name, _ | ⟨⟨before', after'⟩, other⟩, after⟩
    · simp [more, localName]
    · simp only [more, localName, ← List.append_assoc]
      exact List.getLast?_append_of_ne_nil _ other.bare.ne_nil
  exact item.localName.bare.notBlank c (List.mem_of_getLast? (hlast ▸ hc))

theorem withoutTypeMark_text (item : Listed) :
    withoutTypeMark (trim item.text) = item.name.text ++ item.more := by
  rw [text, trim_eq item.before.blanks item.after.blanks (item.name.bare.head?_notBlank _)
    item.getLast?_notBlank]
  exact withoutTypeMark_name item.name.bare item.name.free item.loose_more

/-- Every item gives a pair, and it is the one that was written unless a name can be read as an
alias. -/
theorem exists_namedItem? (item : Listed) :
    ∃ pair, namedItem? item.text = some pair ∧ (pair = item.pair ↔ ¬ item.Joined) := by
  have hitem := item.withoutTypeMark_text
  rcases h : item.renamed with _ | ⟨⟨before, after⟩, other⟩
  · rw [more, h, List.append_nil] at hitem
    by_cases hjoined : joined <:+: item.name.text
    · obtain ⟨m, y, hm, hy, hne⟩ := exists_alias_of_joined item.name.bare hjoined
      refine ⟨(.ofName (groupText m 1), groupText m 2), by simp only [namedItem?, hitem, hm],
        iff_of_false ?_ (not_not_intro ⟨h, hjoined⟩)⟩
      intro hpair
      have hlocal : String.ofList y = String.ofList item.name.text := by
        simpa [pair, Listed.localName, h, groupText, hy] using (Prod.ext_iff.1 hpair).2
      exact hne (String.ofList_injective hlocal)
    · refine ⟨_, namedItem?_eq_name item.name.bare hjoined hitem, ?_⟩
      exact iff_of_true (by simp [pair, Listed.localName, h]) fun hboth => hjoined hboth.2
  · rw [more, h] at hitem
    refine ⟨_, namedItem?_eq_alias item.name.bare other.bare hitem, ?_⟩
    exact iff_of_true (by simp [pair, Listed.localName, h]) fun hboth => by simp [Joined, h] at hboth

theorem made (item : Listed) : Made ['$'] item.text := by
  refine (item.before.made _).append ((item.name.made.append ?_).append (item.after.made _))
  rcases h : item.renamed with _ | ⟨⟨before, after⟩, other⟩
  · simp [more, h, Made]
  · rw [more, h]
    exact Made.append ((before.made _).append (made_as.append (after.made _))) other.made

end Listed

/-- The text of a list, without the braces. -/
def listed (items : List Listed) : List Char := joinWith [','] (items.map Listed.text)

theorem made_listed (items : List Listed) : Made ['$', ','] (listed items) := by
  induction items with
  | nil => simp [listed, joinWith, Made]
  | cons item items ih =>
      have hitem : Made ['$', ','] item.text := item.made.mono (by simp)
      cases items with
      | nil => exact hitem
      | cons next items =>
          have hcons : listed (item :: next :: items) = item.text ++ ',' :: listed (next :: items) := by
            simp [listed, joinWith]
          rw [hcons]
          exact hitem.append (Made.cons (by simp) ih)

theorem filterMap_namedItem?_listed (items : List Listed) :
    (splitOn ',' (listed items)).filterMap namedItem? = items.filterMap fun item =>
      namedItem? item.text := by
  cases items with
  | nil => decide
  | cons item items =>
      rw [listed, splitOn_joinWith (by simp), List.filterMap_map]
      · rfl
      · simp only [List.mem_map]
        rintro _ ⟨item, -, rfl⟩
        exact item.made.notMem (by decide)

/-- A list is read as it was written exactly if none of its names can be read as an alias. -/
theorem filterMap_namedItem?_eq_iff (items : List Listed) :
    (items.filterMap fun item => namedItem? item.text) = items.map Listed.pair ↔
      ∀ item ∈ items, ¬ item.Joined := by
  induction items with
  | nil => simp
  | cons item items ih =>
      obtain ⟨pair, hpair, hiff⟩ := item.exists_namedItem?
      rw [List.filterMap_cons_some (f := fun item : Listed => namedItem? item.text) hpair,
        List.map_cons, List.cons_eq_cons, List.forall_mem_cons, hiff, ih]

/-! ## What stands in front of a list -/

/-- A default import or a namespace. -/
inductive Lead where
  | default (name : Ident)
  | all (star : Space) (gap : Gap) (name : Ident)

namespace Lead

def text : Lead → List Char
  | .default name => name.text
  | .all star gap name => '*' :: (star.text ++ (['a', 's'] ++ (gap.text ++ name.text)))

def pair : Lead → Exported × String
  | .default name => (.default, String.ofList name.text)
  | .all _ _ name => (.all, String.ofList name.text)

theorem made : ∀ lead : Lead, Made ['$', '*'] lead.text
  | .default name => name.made.mono (by simp)
  | .all star gap name => Made.cons (by simp) ((star.made _).append
      ((made_as.mono (by simp)).append ((gap.made _).append (name.made.mono (by simp)))))

theorem head?_notBlank (lead : Lead) (rest : List Char) :
    ∀ c ∈ (lead.text ++ rest).head?, isBlank c = false := by
  cases lead with
  | default name => exact name.bare.head?_notBlank rest
  | all star gap name =>
      simp [text]
      decide

theorem getLast?_notBlank (lead : Lead) : ∀ c ∈ lead.text.getLast?, isBlank c = false := by
  cases lead with
  | default name => exact fun c hc => name.bare.notBlank c (List.mem_of_getLast? hc)
  | all star gap name =>
      have hlast : (text (.all star gap name)).getLast? = name.text.getLast? := by
        simp only [text, ← List.append_assoc, ← List.cons_append]
        exact List.getLast?_append_of_ne_nil _ name.bare.ne_nil
      exact fun c hc => name.bare.notBlank c (List.mem_of_getLast? (hlast ▸ hc))

theorem plainItem?_text (lead : Lead) (after : Space) :
    plainItem? (lead.text ++ after.text) = some lead.pair := by
  have htrim : trim ([] ++ (lead.text ++ after.text)) = lead.text := by
    have hfirst := lead.head?_notBlank []
    rw [List.append_nil] at hfirst
    exact trim_eq (by simp [Blanks]) after.blanks hfirst lead.getLast?_notBlank
  cases lead with
  | default name => exact plainItem?_eq_default name.bare htrim
  | all star gap name => exact plainItem?_eq_all star.blanks gap name.bare htrim

end Lead

/-- What stands in front of a list: nothing, or a default import or a namespace and a comma, with blanks
around the comma. -/
def front : Option (Lead × Space × Space) → List Char
  | none => []
  | some (lead, before, after) => lead.text ++ (before.text ++ ',' :: after.text)

theorem made_front (lead : Option (Lead × Space × Space)) : Made ['$', '*', ','] (front lead) := by
  rcases lead with _ | ⟨lead, before, after⟩
  · simp [front, Made]
  · exact (lead.made.mono (by simp)).append ((before.made _).append
      (Made.cons (by simp) (after.made _)))

theorem head?_notBlank_front (lead : Option (Lead × Space × Space)) (rest : List Char) :
    ∀ c ∈ (front lead ++ '\x7b' :: rest).head?, isBlank c = false := by
  rcases lead with _ | ⟨lead, before, after⟩
  · simp [front]
    decide
  · rw [front, List.append_assoc]
    exact lead.head?_notBlank _

theorem filterMap_plainItem?_front (lead : Option (Lead × Space × Space)) :
    (splitOn ',' (front lead)).filterMap plainItem? = (lead.map fun l => l.1.pair).toList := by
  rcases lead with _ | ⟨lead, before, after⟩
  · decide
  · have hcomma : ',' ∉ lead.text ++ before.text :=
      ((lead.made).append (before.made _)).notMem (by decide)
    rw [front, ← List.append_assoc, splitOn_append hcomma,
      splitOn_of_notMem ((after.made []).notMem (by decide))]
    simp [Lead.plainItem?_text, plainItem?_blanks]

/-! ## Clauses -/

/-- **A list of identifiers is taken apart into what was written** in it and in front of it, in order:
a name stands for itself, an alias for its two names, a default import for the default export and a
namespace for all exports.  That holds exactly if no name without an alias has `$as$` inside. -/
theorem clause_listed_iff (lead : Option (Lead × Space × Space)) (items : List Listed) :
    clause (front lead ++ '\x7b' :: (listed items ++ ['\x7d'])) =
        (lead.map fun l => l.1.pair).toList ++ items.map Listed.pair ↔
      ∀ item ∈ items, item.renamed = none → ¬ joined <:+: item.name.text := by
  have hbrace : '\x7b' ∉ front lead := (made_front lead).notMem (by decide)
  have hclose : '\x7d' ∉ listed items := (made_listed items).notMem (by decide)
  have hcore : trim (withoutComments (front lead ++ '\x7b' :: (listed items ++ ['\x7d']))) =
      front lead ++ '\x7b' :: (listed items ++ ['\x7d']) := by
    have hslash : '/' ∉ front lead ++ '\x7b' :: (listed items ++ ['\x7d']) := by
      have hfront := (made_front lead).notMem (c := '/') (by decide)
      have hlist := (made_listed items).notMem (c := '/') (by decide)
      simp [hfront, hlist]
    have hfirst := head?_notBlank_front lead (listed items ++ ['\x7d'])
    have hlast : ∀ c ∈ (front lead ++ '\x7b' :: (listed items ++ ['\x7d'])).getLast?,
        isBlank c = false := by
      rw [← List.cons_append, ← List.append_assoc, List.getLast?_concat]
      exact fun c hc => Option.some.inj hc ▸ by decide
    have htrim := trim_eq (a := []) (b := []) (by simp [Blanks]) (by simp [Blanks]) hfirst hlast
    rw [List.nil_append, List.append_nil] at htrim
    rw [withoutComments_eq hslash, htrim]
  rw [clause_eq_of_list hcore hbrace hclose, filterMap_plainItem?_front, filterMap_namedItem?_listed,
    List.append_cancel_left_eq, filterMap_namedItem?_eq_iff]
  exact forall₂_congr fun item _ => not_and

/-- The name `a$as$b` is an identifier, and it is read as `a$` with the alias `$b`. -/
theorem clause_dollar_as :
    BareName "a$as$b".toList ∧
    clause "\x7b a$as$b \x7d".toList = [(.named "a$", "$b")] := by
  refine ⟨⟨'a', "$as$b".toList, rfl, by decide, by decide⟩, ?_⟩
  decide

end ServiceKeys.Import
