import ServiceKeys.Proofs.Regex.Captures
import ServiceKeys.Proofs.Regex.Construct

/-!
# The body of a named group

A group has a name where the name is written, so what is written behind a name decides the body of its
group.  If the same text follows wherever a name is written, then the group with the name's number has the
body that this text stands for: main statement `bodyAt_of_parse`.
-/

namespace ServiceKeys.Regex

open Reader

/-! ## Pieces open no group -/

/-- Whatever a reader gives satisfies a condition. -/
def Yields {α : Type} (r : Reader α) (P : α → Prop) : Prop := ∀ ⦃st a st'⦄, r st = .ok (a, st') → P a

section Yields

variable {α β : Type} {P : α → Prop} {Q : β → Prop} {r : Reader α} {f : α → Reader β}

theorem yields_pure {b : β} (h : Q b) : Yields (pure b) Q := by
  intro st a st' hpure
  obtain ⟨rfl, -⟩ := pure_eq_ok.1 hpure
  exact h

theorem yields_fail (fault : Fault) (back : Nat) : Yields (fail fault back : Reader β) Q :=
  fun _ _ _ h => nomatch h

theorem Yields.bind (hr : Yields r P) (hf : ∀ a, P a → Yields (f a) Q) : Yields (r >>= f) Q := by
  intro st b st' h
  obtain ⟨a, mid, ha, hb⟩ := bind_eq_ok.1 h
  exact hf a (hr ha) hb

/-- The last of two readers decides what is given. -/
theorem yields_bind (hf : ∀ a, Yields (f a) Q) : Yields (r >>= f) Q :=
  Yields.bind (P := fun _ => True) (fun _ _ _ _ => trivial) fun a _ => hf a

end Yields

/-- A piece of one item, which opens no group. -/
def Leaf : Regex → Prop
  | .one _ => True
  | .anchor _ => True
  | .recall _ _ => True
  | _ => False

/-- A condition that holds of every recall holds all over a leaf. -/
theorem Leaf.all {r : Regex} (h : Leaf r) {P : Regex → Prop} (hP : ∀ i rule, P (.recall i rule)) : All P r := by
  cases r with
  | «recall» i rule => exact hP i rule
  | one s => trivial
  | anchor a => trivial
  | _ => exact h.elim

theorem leaf_digitEscape (flags : Flags) (c : Char) : Yields (digitEscape flags c) fun i => Leaf i.node := by
  rw [digitEscape_eq]
  refine yields_bind fun second => ?_
  have hspelled : ∀ ds octal, Yields (spelledItem flags ds octal) fun i => Leaf i.node := by
    intro ds octal
    unfold spelledItem
    split
    · split
      · exact yields_bind fun _ => yields_pure trivial
      · exact yields_pure trivial
    · refine yields_bind fun st => ?_
      split
      · refine yields_bind fun closed => ?_
        split
        · exact yields_bind fun _ => yields_bind fun _ => yields_pure trivial
        · exact yields_bind fun _ => yields_pure trivial
      · exact yields_fail _ _
  dsimp only
  split
  · exact yields_bind fun third => hspelled _ _
  · exact yields_bind fun third => hspelled _ _

theorem leaf_escapeItem (flags : Flags) (c : Char) : Yields (escapeItem flags c) fun i => Leaf i.node := by
  unfold escapeItem
  iterate 4
    split
    · exact yields_pure trivial
  split
  · exact yields_pure trivial
  split
  · exact yields_pure trivial
  refine yields_bind fun code => ?_
  split
  · exact yields_pure trivial
  split
  · exact yields_bind fun _ => yields_pure trivial
  split
  · exact leaf_digitEscape flags c
  · exact yields_bind fun _ => yields_pure trivial

theorem leaf_setItem (flags : Flags) : Yields (setItem flags) fun i => Leaf i.node :=
  yields_bind fun _ => yields_bind fun _ => yields_bind fun _ => yields_bind fun _ => yields_pure trivial

theorem leaf_namedRecall (flags : Flags) : Yields (namedRecall flags) fun i => Leaf i.node := by
  unfold namedRecall
  refine yields_bind fun name => yields_bind fun st => ?_
  split
  · exact yields_fail _ _
  · refine yields_bind fun closed => ?_
    split
    · exact yields_bind fun _ => yields_bind fun _ => yields_pure trivial
    · exact yields_bind fun _ => yields_pure trivial

/-- A beginning that is complete has a leaf. -/
def Opening.HasLeaf : Opening → Prop
  | .item i => Leaf i.node
  | _ => True

theorem hasLeaf_opening (flags : Flags) (start : Nat) : Yields (opening flags start) Opening.HasLeaf := by
  rw [opening_eq]
  refine yields_bind fun marked => ?_
  split
  · exact yields_pure trivial
  refine yields_bind fun t => ?_
  unfold behindMark
  split
  · refine yields_bind fun named => ?_
    split
    · exact yields_bind fun name => yields_pure trivial
    · refine yields_bind fun recalled => ?_
      split
      · exact (leaf_namedRecall flags).bind fun i hi => yields_pure hi
      · exact yields_bind fun u => yields_fail _ _
  · exact yields_pure trivial
  · exact yields_bind fun st => yields_bind fun _ => yields_pure trivial
  · exact yields_pure trivial
  · exact yields_pure trivial
  · refine yields_bind fun u => ?_
    split
    · exact yields_pure trivial
    split
    · exact yields_pure trivial
    · exact yields_fail _ _
  · exact yields_bind fun index => yields_bind fun _ => yields_pure trivial
  · exact yields_pure trivial
  · split
    · refine yields_bind fun group => ?_
      split
      · exact yields_pure trivial
      · exact yields_pure trivial
    · exact yields_fail _ _

/-- A piece of one item has a leaf. -/
def Piece.HasLeaf : Piece → Prop
  | .item i => Leaf i.node
  | _ => True

theorem hasLeaf_readPiece (flags : Flags) (start : Nat) (t : Token) :
    Yields (readPiece flags start t) Piece.HasLeaf := by
  unfold readPiece
  split
  · exact yields_fail _ _
  · exact (leaf_escapeItem flags _).bind fun i hi => yields_pure hi
  · split
    · exact yields_pure trivial
    split
    · exact yields_pure trivial
    split
    · exact yields_bind fun _ => yields_bind fun _ => yields_pure trivial
    split
    · exact (leaf_setItem flags).bind fun i hi => yields_pure (Q := Piece.HasLeaf) hi
    split
    · refine yields_bind fun b => ?_
      split
      · exact yields_pure trivial
      · exact yields_bind fun _ => yields_pure trivial
    iterate 3
      split
      · exact yields_pure trivial
    split
    · refine (hasLeaf_opening flags start).bind fun o ho => ?_
      cases o with
      | comment => exact yields_pure trivial
      | item i => exact yields_pure ho
      | _ => exact fun _ _ _ h => nomatch h
    · exact yields_pure trivial

/-! ## What is read keeps a condition -/

section Items

variable {P : Regex → Prop} {done done' : List (List Item)} {items items' : List Item} {st st' : Progress}

/-- A piece keeps a condition on what has been read. -/
theorem Piece.allItems_add {p : Piece} (hP : ∀ i rule, P (.recall i rule)) (hp : p.HasLeaf)
    (h : p.add done items = some (done', items')) (hall : AllItems P (items :: done)) :
    AllItems P (items' :: done') := by
  cases p with
  | nothing => cases h; exact hall
  | bar => cases h; exact allItems_cons.2 ⟨by simp, hall⟩
  | item i => cases h; exact allItems_cons_cons.2 ⟨Leaf.all hp hP, hall⟩
  | mark b mode =>
      cases items with
      | nil => cases h
      | cons i items =>
          simp only [Piece.add] at h
          split at h
          · cases h
            rw [allItems_cons_cons] at hall ⊢
            exact ⟨all_repeated.2 hall.1, hall.2⟩
          · cases h

/-- The item of a group satisfies a condition if its body does. -/
theorem all_node_of_leave {o : Opening} {before : Progress} {body : Regex} {item : Item}
    (h : o.leave before body st = .ok (item, st')) (hbody : All P body)
    (hlook : ∀ back positive, P (.look back positive body))
    (hgroup : ∀ given, o = .capture given → P (.group before.nextGroup body)) : All P item.node := by
  rcases node_of_leave h with ⟨name, rfl, hnode⟩ | ⟨back, positive, hnode⟩ | hnode | hnode
  · exact hnode ▸ ⟨hgroup name rfl, hbody⟩
  · exact hnode ▸ ⟨hlook back positive, hbody⟩
  · exact hnode ▸ hbody
  · exact hnode ▸ hbody

end Items

/-! ## Names and the tokens behind them -/

/-- Wherever a name is written in what is left to read, the same tokens and a closing parenthesis follow. -/
structure Spelled (name : List Char) (inner : List Token) (st : Progress) : Prop where
  written : ∀ more, nameMark name ++ more <:+ st.rest → ∃ B, more = inner ++ .plain ')' :: B
  numbered : ∀ i, st.names.lookup (String.ofList name) = some i → i < st.nextGroup

section Named

variable {name : List Char} {inner : List Token} {body : Flags → Regex} {k : Nat} {scope : Scope}
  {done out : List (List Item)} {items : List Item} {st st' : Progress}

theorem Spelled.quiet (h : Spelled name inner st) (hquiet : Quiet st st') : Spelled name inner st' :=
  ⟨fun more hmore => h.written more (hmore.trans hquiet.suffix), by
    rw [hquiet.names, hquiet.nextGroup]; exact h.numbered⟩

theorem Spelled.opened (h : Spelled name inner st) (given : Option (List Char)) :
    Spelled name inner (st.opened given) := by
  refine ⟨h.written, fun i hi => ?_⟩
  show i < st.nextGroup + 1
  rw [lookup_opened] at hi
  cases hold : st.names.lookup (String.ofList name) with
  | some j =>
      rw [hold, Option.some_or, Option.some_inj] at hi
      exact hi ▸ Nat.lt_succ_of_lt (h.numbered j hold)
  | none =>
      rw [hold, Option.none_or] at hi
      split at hi
      · cases hi
        exact Nat.lt_succ_self _
      · cases hi

theorem Parses.spelled (h : Parses scope done items st out st') (hst : Spelled name inner st) :
    Spelled name inner st' :=
  h.keeps (I := Spelled name inner) (fun _ _ hst hquiet => hst.quiet hquiet)
    (fun _ _ given hst hquiet _ _ => (hst.quiet hquiet).opened given) hst

/-- The group that gets the number of a name is the one with the name. -/
theorem Spelled.given_eq (hst : Spelled name inner st) {given : Option (List Char)}
    (hk : Awaits name st.nextGroup (st.opened given)) : given = some name := by
  rcases hk with hk | ⟨-, hle⟩
  · rw [lookup_opened] at hk
    cases hold : st.names.lookup (String.ofList name) with
    | some j =>
        rw [hold, Option.some_or, Option.some_inj] at hk
        exact absurd (hst.numbered j hold) (by omega)
    | none =>
        rw [hold, Option.none_or] at hk
        split at hk
        · rename_i hgiven
          obtain ⟨cs, rfl, hcs⟩ := Option.map_eq_some_iff.1 hgiven
          rw [String.ofList_injective hcs]
        · cases hk
  · exact absurd hle (Nat.not_succ_le_self _)

/-- The tokens behind a name stand for a body, under any flags. -/
def StandsFor (inner : List Token) (body : Flags → Regex) : Prop :=
  ∀ scope B, ∃ items, assemble [items] = body scope.flags ∧ Leads scope (.plain ')' :: B) inner items

/-- **The group with the number of a name has the body that is written behind the name.** -/
theorem Parses.bodyAt (hname : '\\' ∉ name) (hbody : StandsFor inner body)
    (h : Parses scope done items st out st') (hst : Spelled name inner st) (hk : Awaits name k st')
    (hitems : AllItems (bodyAt k fun r => ∃ f, r = body f) (items :: done)) :
    AllItems (bodyAt k fun r => ∃ f, r = body f) out := by
  induction h with
  | stop _ => exact hitems
  | piece hgo htake hread hadd hmore ih =>
      have hpiece := (quiet_of_take htake).trans (quiet_of_readPiece hread)
      exact ih (hst.quiet hpiece) hk
        (Piece.allItems_add (fun _ _ => trivial) (hasLeaf_readPiece _ _ _ hread) hadd hitems)
  | flags htop htake hopen hmore ih =>
      have hopening := quiet_of_group htake hopen
      exact ih (hst.quiet (hopening.trans ⟨List.suffix_rfl, id, rfl, rfl⟩)) hk hitems
  | @enclosed scope done bodies out items item st st₁ st₂ st₃ st₄ st₅ st₆ st' o flags htake hopen hinner henter
      hparses hclose hleave hmore ihbody ih =>
      have hst₂ : Spelled name inner st₂ := hst.quiet (quiet_of_group htake hopen)
      have hst₃ : Spelled name inner st₃ := by
        rcases enter_eq_ok henter with ⟨given, -, -, rfl⟩ | ⟨-, hquiet⟩
        · exact hst₂.opened given
        · exact hst₂.quiet hquiet
      have hleft : Quiet st₄ st₆ := (quiet_of_closeParen hclose).trans (quiet_of_leave hleave)
      have hlater : Later st₄ st' := hleft.later.trans hmore.later
      have hbodies := ihbody hst₃ (hk.of_later hlater) (by simp [AllItems])
      refine ih ((hparses.spelled hst₃).quiet hleft) hk (allItems_cons_cons.2 ⟨?_, hitems⟩)
      refine all_node_of_leave hleave (all_assemble.2 hbodies) (fun _ _ => trivial) ?_
      rintro given rfl rfl
      -- the group has the number of the name, so the name has just been read
      rcases enter_eq_ok henter with ⟨_, heq, -, rfl⟩ | ⟨hother, -⟩
      · cases heq
        obtain rfl := hst₂.given_eq (hk.of_later (hparses.later.trans hlater))
        have hwritten := rest_of_opening_capture hname hopen
        rw [← (rest_of_take htake).1] at hwritten
        obtain ⟨B, hB⟩ := hst.written st₂.rest (hwritten ▸ List.suffix_rfl)
        cases hinner
        obtain ⟨read, hread, hleads⟩ := hbody { flags := scope.flags } B
        obtain ⟨o', hagain⟩ := hleads.parses (st₂.opened (some name)) (st₂.opened (some name)).offset
        have hopened : (st₂.opened (some name)).rest = inner ++ .plain ')' :: B := hB
        rw [← facing_of_rest hopened] at hagain
        obtain ⟨rfl, -⟩ := hagain.unique hparses
        exact ⟨scope.flags, hread⟩
      · exact absurd rfl (hother given)
  | condition htake hopen hyes hclose hmore ihyes ih =>
      have hst₂ := hst.quiet (quiet_of_group htake hopen)
      have hleft := quiet_of_closeParen hclose
      have hbodies := ihyes hst₂ (hk.of_later (hleft.later.trans hmore.later)) (by simp [AllItems])
      exact ih ((hyes.spelled hst₂).quiet hleft) hk
        (allItems_cons_cons.2 ⟨⟨trivial, all_assemble.2 hbodies, trivial⟩, hitems⟩)
  | conditionElse htake hopen hyes hbar hno hclose hmore ihyes ihno ih =>
      have hst₂ := hst.quiet (quiet_of_group htake hopen)
      have hst₄ := (hyes.spelled hst₂).quiet (quiet_of_bar hbar)
      have hleft := quiet_of_closeParen hclose
      have hlater := hleft.later.trans hmore.later
      have hyesBodies := ihyes hst₂ (hk.of_later ((quiet_of_bar hbar).later.trans (hno.later.trans hlater)))
        (by simp [AllItems])
      have hnoBodies := ihno hst₄ (hk.of_later hlater) (by simp [AllItems])
      exact ih ((hno.spelled hst₄).quiet hleft) hk
        (allItems_cons_cons.2 ⟨⟨trivial, all_assemble.2 hyesBodies, all_assemble.2 hnoBodies⟩, hitems⟩)

/-- **In a whole pattern**, the group with the number of a name has the body that is written behind the name,
if the same is written wherever the name is. -/
theorem bodyAt_of_parse {text : List Char} {q : Pattern} (hname : '\\' ∉ name) (hbody : StandsFor inner body)
    (hparse : parse text = .ok q) (hk : q.names.lookup (String.ofList name) = some k)
    (hwritten : ∀ more, nameMark name ++ more <:+ tokens text → ∃ B, more = inner ++ .plain ')' :: B) :
    All (Regex.bodyAt k fun r => ∃ f, r = body f) q.body := by
  obtain ⟨-, out, st, hparses, -, rfl⟩ := parse_eq_ok.1 hparse
  exact all_assemble.2 (hparses.bodyAt hname hbody ⟨hwritten, by simp⟩ (Or.inl hk) (by simp [AllItems]))

end Named

end ServiceKeys.Regex
