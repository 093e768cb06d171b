import ServiceKeys.Proofs.Regex.Derivation

/-!
# The names and numbers of groups

Groups are numbered in the order in which they are opened, and a name keeps the number that it got
(`Parses.later`).  A name that stands nowhere in what is left to read is not given (`Parses.unnamed`).

A condition on the groups, the recalls, the looks and the branches of a tree is `Regex.All`.  What has
been read is part of what comes out (`Parses.all`), so a condition on a whole pattern is one on each of
its items.
-/

namespace ServiceKeys.Regex

open Reader

/-- The tokens that open a group with a name. -/
def nameMark (name : List Char) : List Token :=
  .plain '(' :: .plain '?' :: .plain 'P' :: .plain '<' :: (name.map .plain ++ [.plain '>'])

section

variable {scope : Scope} {flags : Flags} {start : Nat} {done out : List (List Item)} {items : List Item}
  {o : Opening} {st st₁ st₂ st' : Progress}

/-! ## Names as they are written -/

/-- A name without backslashes is written as it is. -/
theorem eq_map_plain {used : List Token} (h : '\\' ∉ used.flatMap Token.chars) :
    used = (used.flatMap Token.chars).map .plain := by
  induction used with
  | nil => rfl
  | cons t used ih =>
      rw [List.flatMap_cons, List.mem_append, not_or] at h
      cases t with
      | plain c => simpa [Token.chars] using ih h.2
      | escaped c => simp [Token.chars] at h
      | dangling => simp [Token.chars] at h

/-- Only the letter `P` begins the name of a group. -/
theorem capture_of_behindMark {t : Token} {name : Option (List Char)}
    (h : behindMark flags start t st = .ok (.capture name, st')) : t = .plain 'P' := by
  unfold behindMark at h
  split at h
  · rfl
  · cases h
  · obtain ⟨_, _, -, h₁⟩ := bind_eq_ok.1 h
    obtain ⟨_, _, -, h₂⟩ := bind_eq_ok.1 h₁
    cases h₂
  · cases h
  · cases h
  · obtain ⟨u, _, -, h₁⟩ := bind_eq_ok.1 h
    split at h₁
    · cases h₁
    split at h₁
    · cases h₁
    · cases h₁
  · obtain ⟨_, _, -, h₁⟩ := bind_eq_ok.1 h
    obtain ⟨_, _, -, h₂⟩ := bind_eq_ok.1 h₁
    cases h₂
  · cases h
  · split at h
    · obtain ⟨group, _, -, h₁⟩ := bind_eq_ok.1 h
      cases group <;> cases h₁
    · cases h

/-- A group is given a name only where the name is written. -/
theorem rest_of_opening_capture {name : List Char} (hname : '\\' ∉ name)
    (h : opening flags start st = .ok (.capture (some name), st')) :
    .plain '(' :: st.rest = nameMark name ++ st'.rest := by
  rw [opening_eq] at h
  obtain ⟨marked, mid, hmarked, h₁⟩ := bind_eq_ok.1 h
  rcases accept_eq_ok hmarked with ⟨rfl, ts, hrest, -, rfl⟩ | ⟨rfl, -, -⟩
  · obtain ⟨t, mid, ht, h₂⟩ := bind_eq_ok.1 h₁
    have hts : ts = t :: mid.rest := takeSome_eq_ok ht
    obtain rfl := capture_of_behindMark h₂
    obtain ⟨named, mid', hnamed, h₃⟩ := bind_eq_ok.1 h₂
    rcases accept_eq_ok hnamed with ⟨rfl, more, hmore, -, rfl⟩ | ⟨rfl, -, rfl⟩
    · obtain ⟨read, last, hread, h₄⟩ := bind_eq_ok.1 h₃
      obtain ⟨heq, rfl⟩ := pure_eq_ok.1 h₄
      cases heq
      obtain ⟨name, last', htaken, h₅⟩ := bind_eq_ok.1 hread
      dsimp only at h₅
      split at h₅
      · cases h₅
      obtain ⟨rfl, rfl⟩ := pure_eq_ok.1 h₅
      obtain ⟨used, hused, -, rfl⟩ := takeUntil_eq_ok htaken
      rw [hrest, hts, hmore, show more = _ from hused]
      conv => lhs; rw [eq_map_plain hname]
      simp [nameMark]
    · obtain ⟨recalled, last, hrecalled, h₄⟩ := bind_eq_ok.1 h₃
      split at h₄
      · obtain ⟨_, _, -, h₅⟩ := bind_eq_ok.1 h₄
        cases h₅
      · obtain ⟨_, _, -, h₅⟩ := bind_eq_ok.1 h₄
        cases h₅
  · cases h₁

/-! ## What a derivation does to the names -/

/-- Tokens may have been taken, but no group has been opened. -/
structure Quiet (st st' : Progress) : Prop where
  suffix : st'.rest <:+ st.rest
  stray : Stray st.rest → Stray st'.rest
  names : st'.names = st.names
  nextGroup : st'.nextGroup = st.nextGroup

theorem Quiet.refl (st : Progress) : Quiet st st := ⟨List.suffix_rfl, id, rfl, rfl⟩

theorem Quiet.trans (h : Quiet st st₁) (h' : Quiet st₁ st₂) : Quiet st st₂ :=
  ⟨h'.suffix.trans h.suffix, fun hstray => h'.stray (h.stray hstray), h'.names.trans h.names, h'.nextGroup.trans h.nextGroup⟩

theorem quiet_of_take {t : Token} (h : take st = .ok (some t, st')) : Quiet st st' := by
  obtain ⟨hrest, hwhole, hframe⟩ := rest_of_take h
  exact ⟨(suffix_of_take h).1, fun hstray => (hrest ▸ hstray).of_cons hwhole, by rw [hframe]; rfl, by rw [hframe]; rfl⟩

theorem TookAsking.quiet {k : Nat} {used : List Token} (h : TookAsking k st used st') : Quiet st st' :=
  ⟨⟨used, h.rest.symm⟩, h.stray, by rw [h.frame]; rfl, by rw [h.frame]; rfl⟩

theorem quiet_of_readPiece {t : Token} {p : Piece} (h : readPiece flags start t st = .ok (p, st')) :
    Quiet st st' := by
  obtain ⟨k, hp⟩ := p.exists_kept
  obtain ⟨used, -, htook, -⟩ := readPiece_eq_ok h (hp _)
  exact htook.quiet

theorem quiet_of_opening (h : opening flags start st = .ok (o, st')) : Quiet st st' := by
  obtain ⟨k, ho⟩ := o.exists_kept
  obtain ⟨used, -, htook, -⟩ := opening_eq_ok h (ho _)
  exact htook.quiet

/-- Nothing but the beginning of a group is read up to its opening. -/
theorem quiet_of_group {t : Token} (htake : take st = .ok (some t, st₁))
    (hopen : opening flags start st₁ = .ok (o, st')) : Quiet st st' :=
  (quiet_of_take htake).trans (quiet_of_opening hopen)

theorem quiet_of_closeParen (h : closeParen start st = .ok ((), st')) : Quiet st st' := by
  obtain ⟨ts, hrest, hts, rfl⟩ := closeParen_eq_ok.1 h
  exact ⟨hrest ▸ List.suffix_cons _ ts, fun hstray => (hrest ▸ hstray).of_cons hts, rfl, rfl⟩

theorem quiet_of_bar (h : accept '|' st = .ok (true, st')) : Quiet st st' := by
  rcases accept_eq_ok h with ⟨-, ts, hrest, hts, rfl⟩ | ⟨hfalse, -⟩
  · exact ⟨hrest ▸ List.suffix_cons _ ts, fun hstray => (hrest ▸ hstray).of_cons hts, rfl, rfl⟩
  · cases hfalse

theorem quiet_of_leave {before : Progress} {body : Regex} {item : Item}
    (h : o.leave before body st = .ok (item, st')) : Quiet st st' := by
  cases o with
  | look behind positive =>
      cases behind with
      | false => cases h; exact .refl _
      | true => cases h; exact ⟨List.suffix_rfl, id, rfl, rfl⟩
  | capture name => cases h; exact ⟨List.suffix_rfl, id, rfl, rfl⟩
  | plain on off => cases h; exact .refl _
  | atomic => cases h; exact .refl _
  | _ => cases h

/-- The item of a group that has been left is its body, in a group with the next number, in a look, or alone. -/
theorem node_of_leave {before : Progress} {body : Regex} {item : Item}
    (h : o.leave before body st = .ok (item, st')) :
    (∃ name, o = .capture name ∧ item.node = .group before.nextGroup body) ∨
      (∃ back positive, item.node = .look back positive body) ∨ item.node = .atomic body ∨ item.node = body := by
  cases o with
  | look behind positive => cases behind <;> cases h <;> exact .inr (.inl ⟨_, positive, rfl⟩)
  | capture name => cases h; exact .inl ⟨name, rfl, rfl⟩
  | plain on off => cases h; exact .inr (.inr (.inr rfl))
  | atomic => cases h; exact .inr (.inr (.inl rfl))
  | _ => cases h

/-- Entering a group opens it, or leaves the names alone. -/
theorem enter_eq_ok (h : o.enter st = .ok ((), st')) :
    (∃ name, o = .capture name ∧ (∀ cs ∈ name, st.names.lookup (String.ofList cs) = none) ∧
      st' = st.opened name) ∨ (∀ name, o ≠ .capture name) ∧ Quiet st st' := by
  cases o with
  | capture name =>
      obtain ⟨i, mid, hopened, h₁⟩ := bind_eq_ok.1 h
      cases h₁
      obtain ⟨-, hnew, rfl⟩ := openGroup_eq_ok.1 hopened
      exact Or.inl ⟨name, rfl, hnew, rfl⟩
  | look behind positive =>
      cases behind <;> cases h
      · exact Or.inr ⟨by simp, .refl _⟩
      · exact Or.inr ⟨by simp, ⟨List.suffix_rfl, id, rfl, rfl⟩⟩
  | _ =>
      cases h
      exact Or.inr ⟨by simp, .refl _⟩

/-- **What is kept while groups are opened one by one** is kept by a derivation. -/
theorem Parses.keeps {I : Progress → Prop} (quiet : ∀ ⦃st st'⦄, I st → Quiet st st' → I st')
    (opened : ∀ ⦃st st' name⦄, I st → Quiet st st' →
      (∀ cs ∈ name, '\\' ∉ cs → st.rest = nameMark cs ++ st'.rest) →
      (∀ cs ∈ name, st'.names.lookup (String.ofList cs) = none) → I (st'.opened name))
    (h : Parses scope done items st out st') (hst : I st) : I st' := by
  induction h with
  | stop _ => exact hst
  | piece _ htake hread _ _ ih => exact ih (quiet hst ((quiet_of_take htake).trans (quiet_of_readPiece hread)))
  | flags _ htake hopen _ ih =>
      have hopening := quiet_of_group htake hopen
      exact ih (quiet hst (hopening.trans ⟨List.suffix_rfl, id, rfl, rfl⟩))
  | enclosed htake hopen _ henter _ hclose hleave _ ihbody ih =>
      have hopening := quiet_of_group htake hopen
      refine ih (quiet (ihbody ?_) ((quiet_of_closeParen hclose).trans (quiet_of_leave hleave)))
      rcases enter_eq_ok henter with ⟨name, rfl, hnew, rfl⟩ | ⟨-, hquiet⟩
      · refine opened hst hopening (fun cs hcs hplain => ?_) hnew
        obtain rfl : name = some cs := hcs
        rw [(rest_of_take htake).1]
        exact rest_of_opening_capture hplain hopen
      · exact quiet hst (hopening.trans hquiet)
  | condition htake hopen _ hclose _ ihyes ih =>
      have hopening := quiet_of_group htake hopen
      exact ih (quiet (ihyes (quiet hst hopening)) (quiet_of_closeParen hclose))
  | conditionElse htake hopen _ hbar _ hclose _ ihyes ihno ih =>
      have hopening := quiet_of_group htake hopen
      exact ih (quiet (ihno (quiet (ihyes (quiet hst hopening)) (quiet_of_bar hbar))) (quiet_of_closeParen hclose))

/-- A stray backslash is never passed. -/
theorem Parses.stray (h : Parses scope done items st out st') (hst : Stray st.rest) : Stray st'.rest :=
  h.keeps (I := fun s => Stray s.rest) (fun _ _ hs hquiet => hquiet.stray hs) (fun _ _ _ hs hquiet _ _ => hquiet.stray hs)
    hst

/-- **A text with a stray backslash cannot be read.** -/
theorem dangling_notMem_of_parse {text : List Char} {q : Pattern} (h : parse text = .ok q) :
    .dangling ∉ tokens text := by
  obtain ⟨hwhole, out, st, hparses, hsettles, -⟩ := parse_eq_ok.1 h
  intro hmem
  have hstray := (hparses.stray ⟨hwhole, hmem⟩).comes
  rw [hsettles.rest] at hstray
  cases hstray

/-- The names of a later state: those that there were keep their numbers, and new ones get new
numbers. -/
structure Later (st st' : Progress) : Prop where
  next : st.nextGroup ≤ st'.nextGroup
  kept : ∀ name i, st.names.lookup name = some i → st'.names.lookup name = some i
  new : ∀ name i, st'.names.lookup name = some i →
    st.names.lookup name = some i ∨ st.nextGroup ≤ i ∧ i < st'.nextGroup

theorem lookup_opened {name : Option (List Char)} {nm : String} :
    (st.opened name).names.lookup nm =
      (st.names.lookup nm).or (if name.map String.ofList = some nm then some st.nextGroup else none) := by
  rw [Progress.opened, List.lookup_append]
  cases name with
  | none => rfl
  | some cs =>
      simp only [Option.map_some, Option.toList_some, Option.some.injEq]
      congr 1
      by_cases hcs : String.ofList cs = nm
      · simp [hcs]
      · rw [if_neg hcs, List.lookup_cons, beq_eq_false_iff_ne.2 (Ne.symm hcs)]
        rfl

theorem Quiet.later (h : Quiet st st') : Later st st' :=
  ⟨Nat.le_of_eq h.nextGroup.symm, fun _ _ => h.names ▸ id, fun _ _ hname => Or.inl (h.names ▸ hname)⟩

theorem Later.trans (h : Later st st₁) (h' : Later st₁ st₂) : Later st st₂ where
  next := Nat.le_trans h.next h'.next
  kept name i hname := h'.kept name i (h.kept name i hname)
  new name i hname := by
    rcases h'.new name i hname with hname | ⟨hle, hlt⟩
    · exact (h.new name i hname).imp_right fun hi => ⟨hi.1, Nat.lt_of_lt_of_le hi.2 h'.next⟩
    · exact Or.inr ⟨Nat.le_trans h.next hle, hlt⟩

theorem later_opened (name : Option (List Char)) : Later st (st.opened name) where
  next := Nat.le_succ _
  kept nm i hname := by
    rw [lookup_opened, hname]
    rfl
  new nm i hname := by
    rw [lookup_opened] at hname
    cases hold : st.names.lookup nm with
    | some j =>
        rw [hold] at hname
        exact Or.inl hname
    | none =>
        rw [hold, Option.none_or] at hname
        split at hname
        · cases hname
          exact Or.inr ⟨Nat.le_refl _, Nat.lt_succ_self _⟩
        · cases hname

/-- **Numbers grow, and names keep theirs.** -/
theorem Parses.later (h : Parses scope done items st out st') : Later st st' :=
  h.keeps (I := fun s => Later st s) (fun _ _ hlater hquiet => hlater.trans hquiet.later)
    (fun _ _ name hlater hquiet _ _ => (hlater.trans hquiet.later).trans (later_opened name)) (Quiet.refl st).later

/-- A name is not given and is written nowhere in what is left to read. -/
structure Unnamed (name : List Char) (st : Progress) : Prop where
  absent : st.names.lookup (String.ofList name) = none
  unwritten : ∀ more, ¬ nameMark name ++ more <:+ st.rest

theorem Unnamed.quiet {name : List Char} (h : Unnamed name st) (hquiet : Quiet st st') : Unnamed name st' :=
  ⟨hquiet.names ▸ h.absent, fun more hmore => h.unwritten more (hmore.trans hquiet.suffix)⟩

/-- **A name that is not written is not given.** -/
theorem Parses.unnamed {name : List Char} (hname : '\\' ∉ name) (h : Parses scope done items st out st')
    (hst : Unnamed name st) : Unnamed name st' := by
  refine h.keeps (I := Unnamed name) (fun _ _ h hquiet => h.quiet hquiet) ?_ hst
  intro st st' given hst hquiet hwritten hnew
  refine ⟨?_, (hst.quiet hquiet).unwritten⟩
  rw [lookup_opened, (hst.quiet hquiet).absent, Option.none_or, if_neg]
  intro hgiven
  obtain ⟨cs, rfl, hcs⟩ := Option.map_eq_some_iff.1 hgiven
  obtain rfl : cs = name := String.ofList_injective hcs
  exact hst.unwritten st'.rest (hwritten cs rfl hname ▸ List.suffix_rfl)

/-! ## Conditions on a tree -/

/-- A condition holds of every group, recall, look and branch of a pattern. -/
def All (P : Regex → Prop) : Regex → Prop
  | .empty => True
  | .one _ => True
  | .span _ _ _ _ => True
  | .seq a b => All P a ∧ All P b
  | .alt a b => All P a ∧ All P b
  | .group i r => P (.group i r) ∧ All P r
  | .recall i rule => P (.recall i rule)
  | .loop r _ _ _ => All P r
  | .atomic r => All P r
  | .look back positive r => P (.look back positive r) ∧ All P r
  | .branch i yes no => P (.branch i yes no) ∧ All P yes ∧ All P no
  | .anchor _ => True

instance decidableAll {P : Regex → Prop} [DecidablePred P] : DecidablePred (All P)
  | .empty => .isTrue trivial
  | .one _ => .isTrue trivial
  | .span _ _ _ _ => .isTrue trivial
  | .seq a b => @instDecidableAnd _ _ (decidableAll a) (decidableAll b)
  | .alt a b => @instDecidableAnd _ _ (decidableAll a) (decidableAll b)
  | .group _ r => @instDecidableAnd _ _ inferInstance (decidableAll r)
  | .recall i rule => inferInstanceAs (Decidable (P (.recall i rule)))
  | .loop r _ _ _ => decidableAll r
  | .atomic r => decidableAll r
  | .look _ _ r => @instDecidableAnd _ _ inferInstance (decidableAll r)
  | .branch _ yes no => @instDecidableAnd _ _ inferInstance (@instDecidableAnd _ _ (decidableAll yes) (decidableAll no))
  | .anchor _ => .isTrue trivial

/-- A condition holds all over the items of alternatives. -/
def AllItems (P : Regex → Prop) (alts : List (List Item)) : Prop := ∀ items ∈ alts, ∀ i ∈ items, All P i.node

variable {P : Regex → Prop}

theorem allItems_cons : AllItems P (items :: done) ↔ (∀ i ∈ items, All P i.node) ∧ AllItems P done :=
  List.forall_mem_cons

theorem allItems_cons_cons {i : Item} :
    AllItems P ((i :: items) :: done) ↔ All P i.node ∧ AllItems P (items :: done) := by
  rw [allItems_cons, allItems_cons, List.forall_mem_cons, and_assoc]

theorem all_ofList : ∀ {rs : List Regex}, All P (ofList rs) ↔ ∀ r ∈ rs, All P r
  | [] => by simp [ofList, All]
  | [r] => by simp [ofList]
  | r :: r' :: rs => by
      have ih : All P (ofList (r' :: rs)) ↔ ∀ r ∈ r' :: rs, All P r := all_ofList
      rw [List.forall_mem_cons, ← ih]
      exact Iff.rfl

theorem all_anyOf : ∀ {rs : List Regex}, All P (anyOf rs) ↔ ∀ r ∈ rs, All P r
  | [] => by simp [anyOf, All]
  | [r] => by simp [anyOf]
  | r :: r' :: rs => by
      have ih : All P (anyOf (r' :: rs)) ↔ ∀ r ∈ r' :: rs, All P r := all_anyOf
      rw [List.forall_mem_cons, ← ih]
      exact Iff.rfl

theorem all_assemble : All P (assemble out) ↔ AllItems P out := by
  simp [assemble, all_anyOf, all_ofList, AllItems]

theorem all_repeated {r : Regex} {b : Bounds} {mode : Mode} : All P (repeated r b mode) ↔ All P r := by
  cases r <;> simp [repeated, All]

/-- A piece keeps what has been read so far. -/
theorem allItems_of_add {p : Piece} {done' : List (List Item)} {items' : List Item}
    (h : p.add done items = some (done', items')) (hall : AllItems P (items' :: done')) :
    AllItems P (items :: done) := by
  cases p with
  | nothing => cases h; exact hall
  | bar => cases h; exact (allItems_cons.1 hall).2
  | item i => cases h; exact (allItems_cons_cons.1 hall).2
  | mark b mode =>
      cases items with
      | nil => cases h
      | cons i items =>
          simp only [Piece.add] at h
          split at h
          · cases h
            rw [allItems_cons_cons, all_repeated] at hall
            exact allItems_cons_cons.2 hall
          · cases h

/-- **What has been read is part of what comes out.** -/
theorem Parses.all (h : Parses scope done items st out st') (hout : AllItems P out) :
    AllItems P (items :: done) := by
  induction h with
  | stop _ => exact hout
  | piece _ _ _ hadd _ ih => exact allItems_of_add hadd (ih hout)
  | flags _ _ _ _ _ => simp [AllItems]
  | enclosed _ _ _ _ _ _ _ _ _ ih => exact (allItems_cons_cons.1 (ih hout)).2
  | condition _ _ _ _ _ _ ih => exact (allItems_cons_cons.1 (ih hout)).2
  | conditionElse _ _ _ _ _ _ _ _ _ ih => exact (allItems_cons_cons.1 (ih hout)).2

end

end ServiceKeys.Regex
