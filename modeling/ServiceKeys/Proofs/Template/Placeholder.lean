import ServiceKeys.Proofs.Regex.Construct

/-!
# What stands for a placeholder

A template may set flags and put its placeholders into groups of any kind, so what stands for a
placeholder has to be read under any flags.  `keyBodyUnder` is what the group of a key holds then; the
two holes say that the group and the whole word that may stand in its stead are both read.
-/

namespace ServiceKeys.Regex

open Reader

variable {scope : Scope} {B : List Token}

/-! ## Sets -/

/-- The characters of a name, under flags. -/
def nameSet (f : Flags) : CharSet := .ofItems f.rule false [.category .word f.ascii false, .char '$']

/-- The characters inside of a key. -/
def keySet (f : Flags) : CharSet :=
  .ofItems f.rule false [.category .word f.ascii false, .char '$', .char '.', .char ':', .char '-']

/-- The characters that go on with a key. -/
def keyTailSet (f : Flags) : CharSet :=
  .ofItems f.rule false [.category .word f.ascii false, .char '$', .char '.', .char '-']

theorem leads_nameSet (hB : Whole B) :
    Leads scope B [.plain '[', .escaped 'w', .plain '$', .plain ']'] [⟨.one (nameSet scope.flags), .other⟩] :=
  leads_set (o := 4) hB (whole_escaped _ _) rfl

theorem leads_keySet (hB : Whole B) :
    Leads scope B [.plain '[', .escaped 'w', .plain '$', .plain '.', .plain ':', .plain '-', .plain ']']
      [⟨.one (keySet scope.flags), .other⟩] :=
  leads_set (o := 7) hB (whole_escaped _ _) rfl

theorem leads_keyTailSet (hB : Whole B) :
    Leads scope B [.plain '[', .escaped 'w', .plain '$', .plain '.', .plain '-', .plain ']']
      [⟨.one (keyTailSet scope.flags), .other⟩] :=
  leads_set (o := 6) hB (whole_escaped _ _) rfl

/-- The characters with which a reference starts, under flags. -/
def refStartSet (f : Flags) : CharSet :=
  .ofItems f.rule false [.range 65 90, .range 97 122, .char '_', .char '$']

/-- The characters of the rest of a reference. -/
def refMoreSet (f : Flags) : CharSet := .ofItems f.rule true [.char ')', .char '\n', .char ',']

theorem leads_refStartSet (hB : Whole B) :
    Leads scope B [.plain '[', .plain 'A', .plain '-', .plain 'Z', .plain 'a', .plain '-', .plain 'z', .plain '_',
      .plain '$', .plain ']'] [⟨.one (refStartSet scope.flags), .other⟩] :=
  leads_set (o := 9) hB (whole_plain _ _) (by cbv)

theorem leads_refMoreSet (hB : Whole B) :
    Leads scope B [.plain '[', .plain '^', .plain ')', .escaped 'n', .plain ',', .plain ']']
      [⟨.one (refMoreSet scope.flags), .other⟩] :=
  leads_set (o := 6) hB (whole_plain _ _) rfl

/-! ## Groups -/

/-- The tokens of what the group of a key holds. -/
def keyInside : List Token :=
  [.plain '[', .escaped 'w', .plain '$', .plain ']', .plain '(', .plain '?', .plain ':',
    .plain '[', .escaped 'w', .plain '$', .plain '.', .plain ':', .plain '-', .plain ']', .plain '*',
    .plain '[', .escaped 'w', .plain '$', .plain ']', .plain ')', .plain '?']

/-- The tokens of what the group of a reference holds. -/
def refInside : List Token :=
  [.plain '[', .plain 'A', .plain '-', .plain 'Z', .plain 'a', .plain '-', .plain 'z', .plain '_', .plain '$',
    .plain ']', .plain '[', .escaped 'w', .plain '$', .plain ']', .plain '*', .plain '(', .plain '?', .plain ':',
    .plain '[', .plain '^', .plain ')', .escaped 'n', .plain ',', .plain ']', .plain '*', .plain '?', .plain ')']

/-- What the group of a key holds, under flags. -/
def keyBodyUnder (f : Flags) : Regex :=
  ofList [.one (nameSet f), maybe (ofList [.span (keySet f) 0 none .greedy, .one (nameSet f)])]

theorem settled_plain {c : Char} (hq : c ≠ '?') (hp : c ≠ '+') (ts : List Token) : Settled (.plain c :: ts) :=
  (calm_plain hq hp ts).2

theorem leads_keyInside : ∃ items, assemble [items] = keyBodyUnder scope.flags ∧
    Leads scope (.plain ')' :: B) keyInside items := by
  have hmore : Leads { flags := scope.flags } (.plain ')' :: .plain '?' :: .plain ')' :: B)
      [.plain '[', .escaped 'w', .plain '$', .plain '.', .plain ':', .plain '-', .plain ']', .plain '*',
        .plain '[', .escaped 'w', .plain '$', .plain ']'] _ :=
    (leads_repeat .many (whole_plain _ _) (settled_plain (by decide) (by decide) _)
      (leads_keySet (whole_plain _ _))).append (leads_nameSet (whole_plain _ _))
  have hgroup : Leads scope (.plain '?' :: .plain ')' :: B) _ _ :=
    leads_plainGroup (whole_plain _ _) (whole_plain _ _) hmore
  have hfirst := (leads_nameSet (whole_plain _ _)).append hgroup
  exact ⟨_, rfl, leads_repeat .maybe (whole_plain _ _) (settled_plain (by decide) (by decide) _) hfirst⟩

theorem leads_refInside : ∃ items, Leads scope (.plain ')' :: B) refInside items := by
  have hmore : Leads { flags := scope.flags } (.plain ')' :: .plain ')' :: B)
      [.plain '[', .plain '^', .plain ')', .escaped 'n', .plain ',', .plain ']', .plain '*', .plain '?'] _ :=
    leads_repeatReluctant .many (whole_plain _ _) (leads_refMoreSet (whole_plain _ _))
  have hgroup : Leads scope (.plain ')' :: B) _ _ := leads_plainGroup (whole_plain _ _) (whole_plain _ _) hmore
  have hname : Leads scope (.plain '*' :: .plain '(' :: .plain '?' :: .plain ':' :: .plain '[' :: .plain '^' ::
      .plain ')' :: .escaped 'n' :: .plain ',' :: .plain ']' :: .plain '*' :: .plain '?' :: .plain ')' ::
      .plain ')' :: B) _ _ := (leads_refStartSet (whole_plain _ _)).append (leads_nameSet (whole_plain _ _))
  have hfirst := leads_repeat .many (whole_plain _ _) (settled_plain (by decide) (by decide) _) hname
  have hall := hfirst.append hgroup
  exact ⟨_, hall⟩

/-! ## Whole words -/

/-- The tokens of what may not follow a key. -/
def keyAfter : List Token :=
  [.plain '(', .plain '?', .plain '!', .plain '[', .escaped 'w', .plain '$', .plain '.', .plain '-', .plain ']',
    .plain ')']

/-- The tokens of what may not stand in front of a symbol. -/
def symbolBefore : List Token :=
  [.plain '(', .plain '?', .plain '<', .plain '!', .plain '[', .escaped 'w', .plain '$', .plain ']', .plain ')']

/-- The tokens of what may not follow a symbol. -/
def symbolAfter : List Token :=
  [.plain '(', .plain '?', .plain '!', .plain '[', .escaped 'w', .plain '$', .plain ']', .plain ')']

theorem leads_keyAfter (hB : Whole B) :
    Leads scope B keyAfter [⟨notBefore (keyTailSet scope.flags), .other⟩] :=
  leads_notBefore hB (whole_plain _ _) (leads_keyTailSet (whole_plain _ _))

theorem leads_symbolBefore (hB : Whole B) :
    Leads scope B symbolBefore [⟨notAfter (nameSet scope.flags), .other⟩] :=
  leads_notAfter hB (whole_plain _ _) (leads_nameSet (whole_plain _ _))

theorem leads_symbolAfter (hB : Whole B) :
    Leads scope B symbolAfter [⟨notBefore (nameSet scope.flags), .other⟩] :=
  leads_notBefore hB (whole_plain _ _) (leads_nameSet (whole_plain _ _))

/-! ## Holes -/

/-- What leads anywhere, ending with an item that may be repeated, fills the place of a group. -/
theorem Leads.hole {name : List Char} {inner W : List Token} (hname : Text.isName name = true)
    (hplain : '\\' ∉ name) (hunclosed : '>' ∉ name) (hwhole : Whole (inner ++ .plain ')' :: B))
    (hinner : ∀ scope, ∃ items, Leads scope (.plain ')' :: B) inner items) (hW : Whole (W ++ B))
    (h : ∀ scope, ∃ i items, i.kind = .other ∧ Leads scope B W (i :: items)) :
    Hole name (nameMark name ++ (inner ++ [.plain ')'])) W B where
  plain := hplain
  unclosed := hunclosed
  valid := hname
  group := by
    refine ⟨inner, rfl, hwhole, fun flags st o => ?_⟩
    obtain ⟨items, hinner⟩ := hinner { flags }
    exact ⟨items, hinner.parses st o⟩
  filled scope st o done items := by
    obtain ⟨i, pieces, hkind, h⟩ := h scope
    obtain ⟨o', h⟩ := h st o done items
    exact ⟨i :: pieces, o', by simp [hkind], h⟩
  whole := hW

/-- **A key as a whole word** fills the place of the group of a key. -/
theorem hole_key (hB : Whole B) (key : List Char) :
    Hole "key".toList (nameMark "key".toList ++ (keyInside ++ [.plain ')'])) (escapedTokens key ++ keyAfter) B := by
  refine Leads.hole (by decide) (by decide) (by decide) (whole_plain _ _) (fun scope => ?_) ?_ fun scope => ?_
  · have hinside : ∃ items, assemble [items] = keyBodyUnder scope.flags ∧
        Leads scope (.plain ')' :: B) keyInside items := leads_keyInside
    exact hinside.imp fun _ => And.right
  · rw [List.append_assoc]
    exact whole_append (dangling_notMem_escapedTokens key) (whole_plain _ _)
  · exact ⟨_, _, rfl, (leads_escape key (whole_plain _ _)).append (leads_keyAfter hB)⟩

/-- **A symbol as a whole word** fills the place of the group of a reference. -/
theorem hole_ref (hB : Whole B) (symbol : List Char) :
    Hole "ref".toList (nameMark "ref".toList ++ (refInside ++ [.plain ')']))
      (symbolBefore ++ (escapedTokens symbol ++ symbolAfter)) B := by
  refine Leads.hole (by decide) (by decide) (by decide) (whole_plain _ _) (fun _ => leads_refInside)
    (whole_plain _ _) fun scope => ?_
  have hword : Leads scope B (escapedTokens symbol ++ symbolAfter) _ :=
    (leads_escape symbol (whole_plain _ _)).append (leads_symbolAfter hB)
  have hwhole : Whole (escapedTokens symbol ++ symbolAfter ++ B) := by
    rw [List.append_assoc]
    exact whole_append (dangling_notMem_escapedTokens symbol) (whole_plain _ _)
  exact ⟨_, _, rfl, (leads_symbolBefore hwhole).append hword⟩

end ServiceKeys.Regex
