import Mathlib.Logic.Relation
import ServiceKeys.Proofs.Regex.Language
import ServiceKeys.Regex.Search

/-!
# Matches in a text

From the ends of a pattern to the matches that a search reports.  `Cursor.inside text i` is the cursor
at an offset; a match at an offset is the first end of the pattern from there.  For a pattern whose
matches are never empty, `findAll` reports matches only (`matchAt_of_mem_findAll`), and a match that
it does not report begins inside of one that it does (`mem_findAll_or_covered`).
-/

namespace ServiceKeys.Regex

open Computability
open Relation (ReflTransGen)

/-! ## Groups and surroundings -/

theorem mem_ends_group {i : Nat} {r : Regex} {st st' : State} :
    st' ∈ ends (.group i r) st ↔ ∃ m ∈ ends r st, m.close i st.cursor = st' := List.mem_map

theorem mem_ends_recall {i : Nat} {st st' : State} :
    st' ∈ ends (.recall i .exact) st ↔ ∃ c, st.capture? i = some c ∧ st.Over c.text st' := by
  simp only [ends, List.mem_map, Option.mem_toList, Option.bind_eq_some_iff,
    Cursor.readText?_exact_iff, State.Over.iff_moved]
  constructor
  · rintro ⟨cur, ⟨c, hc, hover⟩, rfl⟩
    exact ⟨c, hc, cur, hover, rfl⟩
  · rintro ⟨c, hc, cur, hover, rfl⟩
    exact ⟨cur, ⟨c, hc, hover⟩, rfl⟩

/-- The first of the characters on one side of a place, if there is any, is not of a set. -/
def Clear (s : CharSet) (side : List Char) : Prop := ∀ c ∈ side.head?, s.accepts c = false

theorem mem_ends_notAfter {s : CharSet} {st st' : State} :
    st' ∈ ends (notAfter s) st ↔ st' = st ∧ Clear s st.cursor.before := by
  rcases st with ⟨⟨_ | ⟨c, before⟩, after, pos⟩, captures⟩
  · simp [notAfter, ends, Cursor.back?, Clear]
  · cases hc : s.accepts c <;>
      simp [notAfter, ends, Cursor.back?, Clear, Cursor.accept?, State.moved, hc]

theorem mem_ends_notBefore {s : CharSet} {st st' : State} :
    st' ∈ ends (notBefore s) st ↔ st' = st ∧ Clear s st.cursor.after := by
  rcases st with ⟨⟨before, _ | ⟨c, after⟩, pos⟩, captures⟩
  · simp [notBefore, ends, Cursor.back?, Clear, Cursor.accept?, State.moved]
  · cases hc : s.accepts c <;>
      simp [notBefore, ends, Cursor.back?, Clear, Cursor.accept?, State.moved, hc]

/-! ## Every end lies ahead -/

/-- Some text leads from one cursor to the other. -/
def Cursor.Ahead (a b : Cursor) : Prop := ∃ xs, a.Over xs b

theorem Cursor.Ahead.refl (a : Cursor) : a.Ahead a := ⟨[], .refl a⟩

theorem Cursor.Ahead.trans {a b c : Cursor} (hab : a.Ahead b) (hbc : b.Ahead c) : a.Ahead c := by
  obtain ⟨xs, hxs⟩ := hab
  obtain ⟨ys, hys⟩ := hbc
  exact ⟨xs ++ ys, hxs.append hys⟩

theorem ahead_of_readText? {rule : CaseRule} {ds : List Char} {a b : Cursor}
    (h : a.readText? rule ds = some b) : a.Ahead b := by
  induction ds generalizing a with
  | nil =>
      rw [Cursor.readText?, Option.some_inj] at h
      exact h ▸ .refl a
  | cons d ds ih =>
      rcases a with ⟨before, _ | ⟨c, after⟩, pos⟩
      · simp [Cursor.readText?] at h
      · rw [Cursor.readText?] at h
        split at h
        · exact Cursor.Ahead.trans ⟨[c], rfl, rfl, rfl⟩ (ih h)
        · simp at h

theorem ahead_of_mem_spanStops {s : CharSet} {lo : Nat} {hi : Option Nat} {mode : Mode}
    {a b : Cursor} (h : b ∈ spanStops s lo hi mode a) : a.Ahead b := by
  have hgreedy : ∀ least stops, stops.Sublist (stopsGo s hi a.before a.pos [] a.after) →
      b ∈ upTo least stops → a.Ahead b := by
    intro least stops hsub hb
    have hmem := hsub.mem ((List.takeWhile_sublist _).mem hb)
    rw [mem_stopsGo] at hmem
    obtain ⟨xs, -, -, hover⟩ := hmem.resolve_left (by simp)
    exact ⟨xs, hover⟩
  cases mode with
  | greedy => exact hgreedy _ _ (List.Sublist.refl _) h
  | reluctant =>
      obtain ⟨xs, -, -, -, hover⟩ := mem_reluctantStops.1 h
      exact ⟨xs, hover⟩
  | possessive => exact hgreedy _ _ (List.take_sublist _ _) h

section Rounds

variable {body : State → List State} {lo bound count : Nat} {hi : Option Nat} {last : Option Nat}
  {st st' : State}

/-- One round of a body. -/
def Round (body : State → List State) (st st' : State) : Prop := st' ∈ body st

theorem rounds_of_mem_greedyEnds (h : st' ∈ greedyEnds body lo hi bound count last st) :
    ReflTransGen (Round body) st st' := by
  induction bound generalizing count last st with
  | zero => simp [greedyEnds] at h
  | succ bound ih =>
      rw [greedyEnds] at h
      split at h
      · obtain ⟨m, hm, h⟩ := List.mem_flatMap.1 h
        exact .head hm (ih h)
      · split at h
        · rcases List.mem_append.1 h with h | h
          · obtain ⟨m, hm, h⟩ := List.mem_flatMap.1 h
            exact .head hm (ih h)
          · exact List.mem_singleton.1 h ▸ .refl
        · exact List.mem_singleton.1 h ▸ .refl

theorem rounds_of_mem_reluctantEnds (h : st' ∈ reluctantEnds body lo hi bound count last st) :
    ReflTransGen (Round body) st st' := by
  induction bound generalizing count last st with
  | zero => simp [reluctantEnds] at h
  | succ bound ih =>
      rw [reluctantEnds] at h
      split at h
      · obtain ⟨m, hm, h⟩ := List.mem_flatMap.1 h
        exact .head hm (ih h)
      · split at h
        · rcases List.mem_cons.1 h with rfl | h
          · exact .refl
          · obtain ⟨m, hm, h⟩ := List.mem_flatMap.1 h
            exact .head hm (ih h)
        · exact List.mem_singleton.1 h ▸ .refl

theorem rounds_of_loopPossessive
    (h : loopPossessive (fun s => (body s).head?) lo hi bound count last st = some st') :
    ReflTransGen (Round body) st st' := by
  induction bound generalizing count last st with
  | zero => simp [loopPossessive] at h
  | succ bound ih =>
      rw [loopPossessive] at h
      split at h
      · obtain ⟨m, hm, h⟩ := Option.bind_eq_some_iff.1 h
        exact .head (List.mem_of_head? hm) (ih h)
      · split at h
        · split at h
          · rename_i m hm
            exact .head (List.mem_of_head? hm) (ih h)
          · exact Option.some_inj.1 h ▸ .refl
        · exact Option.some_inj.1 h ▸ .refl

/-- The ends of a repetition are reached by rounds of its body. -/
theorem rounds_of_mem_loopEnds {mode : Mode} (h : st' ∈ loopEnds body lo hi mode st) :
    ReflTransGen (Round body) st st' := by
  cases mode with
  | greedy => exact rounds_of_mem_greedyEnds h
  | reluctant => exact rounds_of_mem_reluctantEnds h
  | possessive => exact rounds_of_loopPossessive (Option.mem_toList.1 h)

/-- A repetition that needs a round has one. -/
theorem exists_round_of_mem_loopEnds {mode : Mode} (hlo : 0 < lo)
    (h : st' ∈ loopEnds body lo hi mode st) :
    ∃ m ∈ body st, ReflTransGen (Round body) m st' := by
  obtain ⟨bound, hbound⟩ : ∃ bound, roundBound lo hi st = bound + 1 := by
    unfold roundBound
    split
    · exact ⟨_, rfl⟩
    · exact ⟨_, rfl⟩
  cases mode with
  | greedy =>
      rw [loopEnds, hbound, greedyEnds, if_pos hlo] at h
      obtain ⟨m, hm, h⟩ := List.mem_flatMap.1 h
      exact ⟨m, hm, rounds_of_mem_greedyEnds h⟩
  | reluctant =>
      rw [loopEnds, hbound, reluctantEnds, if_pos hlo] at h
      obtain ⟨m, hm, h⟩ := List.mem_flatMap.1 h
      exact ⟨m, hm, rounds_of_mem_reluctantEnds h⟩
  | possessive =>
      rw [loopEnds, hbound, loopPossessive, if_pos hlo] at h
      obtain ⟨m, hm, h⟩ := Option.bind_eq_some_iff.1 (Option.mem_toList.1 h)
      exact ⟨m, List.mem_of_head? hm, rounds_of_loopPossessive h⟩

end Rounds

/-- **Matching only moves forward**: every end of a pattern stands behind some text. -/
theorem ahead_of_mem_ends (r : Regex) {st st' : State} (h : st' ∈ ends r st) :
    st.cursor.Ahead st'.cursor := by
  induction r generalizing st st' with
  | empty => exact List.mem_singleton.1 h ▸ .refl _
  | one s =>
      obtain ⟨xs, -, hover, -⟩ := (denotes_one s st st').1 h
      exact ⟨xs, hover⟩
  | span s lo hi mode =>
      obtain ⟨cur, hcur, rfl⟩ := List.mem_map.1 h
      exact ahead_of_mem_spanStops hcur
  | seq a b iha ihb =>
      obtain ⟨m, hm, hst'⟩ := mem_ends_seq.1 h
      exact (iha hm).trans (ihb hst')
  | alt a b iha ihb =>
      rcases List.mem_append.1 h with h | h
      · exact iha h
      · exact ihb h
  | group i r ih =>
      obtain ⟨m, hm, rfl⟩ := mem_ends_group.1 h
      show st.cursor.Ahead m.cursor
      exact ih hm
  | «recall» i rule =>
      simp only [ends, List.mem_map, Option.mem_toList, Option.bind_eq_some_iff] at h
      obtain ⟨cur, ⟨c, -, hcur⟩, rfl⟩ := h
      exact ahead_of_readText? hcur
  | loop r lo hi mode ih =>
      have hrounds := rounds_of_mem_loopEnds h
      clear h
      induction hrounds with
      | refl => exact .refl _
      | tail _ hround ihrounds => exact ihrounds.trans (ih hround)
  | atomic r ih => exact ih (List.mem_of_head? (Option.mem_toList.1 h))
  | look back positive r ih =>
      -- looking around leaves the cursor where it is
      simp only [ends] at h
      split at h
      · exact List.mem_singleton.1 h ▸ .refl _
      · simp at h
      · simp at h
      · exact List.mem_singleton.1 h ▸ .refl _
  | branch i yes no ihy ihn =>
      rw [ends] at h
      split at h
      · exact ihy h
      · exact ihn h
  | anchor a =>
      rw [ends] at h
      split at h
      · exact List.mem_singleton.1 h ▸ .refl _
      · simp at h

/-! ## Cursors inside of a text -/

/-- The cursor at an offset of a text. -/
def Cursor.inside (text : List Char) (i : Nat) : Cursor :=
  ⟨(text.take i).reverse, text.drop i, i⟩

theorem Cursor.start_eq (text : List Char) : Cursor.start text = .inside text 0 := by
  simp [Cursor.start, Cursor.inside]

/-- Moving on from an offset of a text leads to a later offset of the same text. -/
theorem Cursor.over_inside_iff {text xs : List Char} {i : Nat} {b : Cursor} :
    (Cursor.inside text i).Over xs b ↔
      xs <+: text.drop i ∧ b = .inside text (i + xs.length) := by
  have hdrop : ∀ rest, text.drop i = xs ++ rest → text.drop (i + xs.length) = rest := by
    intro rest h
    rw [← List.drop_drop, h, List.drop_left]
  have htake : ∀ rest, text.drop i = xs ++ rest →
      (text.take (i + xs.length)).reverse = xs.reverse ++ (text.take i).reverse := by
    intro rest h
    rw [List.take_add, h, List.take_left, List.reverse_append]
  constructor
  · rintro ⟨h1, h2, h3⟩
    refine ⟨⟨b.after, h1.symm⟩, ?_⟩
    rcases b with ⟨before, after, pos⟩
    simp only [Cursor.inside, Cursor.mk.injEq] at h1 h2 h3 ⊢
    exact ⟨h2.trans (htake after h1).symm, (hdrop after h1).symm, h3⟩
  · rintro ⟨⟨rest, h⟩, rfl⟩
    refine ⟨?_, htake rest h.symm, rfl⟩
    simp only [Cursor.inside]
    rw [hdrop rest h.symm, h]

/-- A text that stands at an offset ends inside of the whole. -/
theorem length_le_of_isPrefix_drop {text xs : List Char} {i : Nat} (hi : i ≤ text.length)
    (h : xs <+: text.drop i) : i + xs.length ≤ text.length := by
  have := h.length_le
  rw [List.length_drop] at this
  omega

/-! ## The match at an offset -/

/-- The match of a pattern that begins at an offset of a text. -/
def matchInside (r : Regex) (text : List Char) (i : Nat) : Option Match :=
  matchAt r false (.inside text i)

theorem matchAt_false (r : Regex) (cur : Cursor) :
    matchAt r false cur = (ends r { cursor := cur }).head?.map (Match.mk cur) := by
  simp [matchAt, run_eq, findSome?_some]

/-- A match at an offset is one of the ends from there, and its offsets and its text are as they
should be. -/
theorem of_matchInside {r : Regex} {text : List Char} {i : Nat} {m : Match}
    (h : matchInside r text i = some m) :
    m.final ∈ ends r { cursor := .inside text i } ∧ m.first = i ∧
      m.text <+: text.drop i ∧ m.stop = i + m.text.length ∧
      m.final.cursor = .inside text m.stop := by
  rw [matchInside, matchAt_false, Option.map_eq_some_iff] at h
  obtain ⟨st, hst, rfl⟩ := h
  have hmem := List.mem_of_head? hst
  obtain ⟨xs, hxs⟩ := ahead_of_mem_ends r hmem
  obtain ⟨hstarts, hcur⟩ := Cursor.over_inside_iff.1 hxs
  have hstop : st.cursor.pos = i + xs.length := by rw [hcur]; rfl
  have htext : Match.text ⟨.inside text i, st⟩ = xs := by
    obtain ⟨rest, hrest⟩ := hstarts
    simp [Match.text, Match.stop, Match.first, Cursor.inside, hstop, ← hrest]
  refine ⟨hmem, rfl, htext ▸ hstarts, ?_, ?_⟩
  · rw [htext]
    exact hstop
  · show st.cursor = .inside text st.cursor.pos
    rw [hstop, hcur]

theorem exists_matchInside {r : Regex} {text : List Char} {i : Nat} {st : State}
    (h : st ∈ ends r { cursor := .inside text i }) : ∃ m, matchInside r text i = some m := by
  rw [matchInside, matchAt_false]
  cases hends : ends r { cursor := .inside text i } with
  | nil => simp [hends] at h
  | cons st' rest => exact ⟨⟨_, st'⟩, rfl⟩

/-! ## Searching for matches that are never empty -/

/-- Every match of the pattern takes at least one character. -/
def Advances (r : Regex) : Prop := ∀ st, ∀ st' ∈ ends r st, st.cursor.pos < st'.cursor.pos

theorem Denotes.advances {r : Regex} {L : Language Char} (h : Denotes r L) (hL : [] ∉ L) :
    Advances r := by
  intro st st' hst'
  obtain ⟨xs, hxs, hover⟩ := (h st st').1 hst'
  have hpos : 0 < xs.length := List.length_pos_iff.2 fun hnil => hL (hnil ▸ hxs)
  have := hover.1.pos_eq
  omega

/-- A list of patterns takes a character if its first pattern does. -/
theorem Advances.ofList_cons {r : Regex} (h : Advances r) (rs : List Regex) :
    Advances (ofList (r :: rs)) := by
  intro st st' hst'
  obtain ⟨m, hm, hst'⟩ := mem_ends_ofList_cons.1 hst'
  obtain ⟨xs, hxs⟩ := ahead_of_mem_ends _ hst'
  have hlt := h st m hm
  have := hxs.pos_eq
  omega

/-- A list of patterns takes a character if those behind its first do. -/
theorem Advances.ofList_cons_tail (r : Regex) {rs : List Regex} (h : Advances (ofList rs)) :
    Advances (ofList (r :: rs)) := by
  intro st st' hst'
  obtain ⟨m, hm, hst'⟩ := mem_ends_ofList_cons.1 hst'
  obtain ⟨xs, hxs⟩ := ahead_of_mem_ends _ hm
  have hlt := h m st' hst'
  have := hxs.pos_eq
  omega

section Advancing

variable {r : Regex} {text : List Char}

theorem first_lt_stop (hr : Advances r) {i : Nat} {m : Match}
    (h : matchInside r text i = some m) : i < m.stop :=
  hr _ _ (of_matchInside h).1

/-- The leftmost match from an offset on. -/
theorem searchFrom_inside {i : Nat} (hi : i ≤ text.length) :
    searchFrom r false (.inside text i) =
      (List.range' i (text.length + 1 - i)).findSome? (matchInside r text) := by
  -- by induction on what is left of the text
  obtain ⟨n, hn⟩ : ∃ n, text.length - i = n := ⟨_, rfl⟩
  induction n generalizing i with
  | zero =>
      have hend : i = text.length := by omega
      subst hend
      have hrange : text.length + 1 - text.length = 1 := by omega
      simp only [searchFrom, Cursor.inside, List.drop_length, searchGo, hrange,
        List.range'_one, List.findSome?_singleton, matchInside]
  | succ n ih =>
      have hlt : i < text.length := by omega
      have hnext : searchGo r false ((text.take (i + 1)).reverse) (i + 1) (text.drop (i + 1)) =
          (List.range' (i + 1) (text.length + 1 - (i + 1))).findSome? (matchInside r text) :=
        ih hlt (by omega)
      have hrange : text.length + 1 - i = (text.length + 1 - (i + 1)) + 1 := by omega
      rw [hrange, List.range'_succ, List.findSome?_cons, ← hnext]
      simp only [searchFrom, Cursor.inside, List.drop_eq_getElem_cons hlt, searchGo,
        matchInside, List.take_succ_eq_append_getElem hlt, List.reverse_append,
        List.reverse_singleton, List.singleton_append]
      cases matchAt r false _ <;> rfl

/-- One round of the search for all matches: either there is no match from an offset on, or the first
one is reported and the search goes on behind it. -/
theorem findAllGo_succ (hr : Advances r) (bound : Nat) {i : Nat} (hi : i ≤ text.length) :
    (findAllGo r (bound + 1) false (.inside text i) = [] ∧
      ∀ j, i ≤ j → j ≤ text.length → matchInside r text j = none) ∨
    ∃ j m, i ≤ j ∧ j ≤ text.length ∧ matchInside r text j = some m ∧
      (∀ l, i ≤ l → l < j → matchInside r text l = none) ∧
      findAllGo r (bound + 1) false (.inside text i) =
        m :: findAllGo r bound false (.inside text m.stop) := by
  rw [findAllGo, searchFrom_inside hi]
  cases hfind : (List.range' i (text.length + 1 - i)).findSome? (matchInside r text) with
  | none =>
      refine Or.inl ⟨rfl, ?_⟩
      intro j hij hj
      refine List.findSome?_eq_none_iff.1 hfind j ?_
      rw [List.mem_range'_1]
      omega
  | some m =>
      obtain ⟨l₁, j, l₂, hl, hm, hbefore⟩ := List.findSome?_eq_some_iff.1 hfind
      have hj : j ∈ List.range' i (text.length + 1 - i) := by simp [hl]
      rw [List.mem_range'_1] at hj
      have hjlen : j ≤ text.length := by omega
      refine Or.inr ⟨j, m, hj.1, hjlen, hm, ?_, ?_⟩
      · intro l hil hlj
        -- the offsets are tried in order, so those before `j` were tried without success
        refine hbefore l ?_
        have hsorted : (l₁ ++ j :: l₂).Pairwise (· < ·) := hl ▸ List.pairwise_lt_range'
        have hmem : l ∈ l₁ ++ j :: l₂ := by
          rw [← hl, List.mem_range'_1]
          omega
        rcases List.mem_append.1 hmem with hmem | hmem
        · exact hmem
        · rcases List.mem_cons.1 hmem with rfl | hmem
          · omega
          · have := (List.pairwise_cons.1 (List.pairwise_append.1 hsorted).2.1).1 l hmem
            omega
      · -- the match is not empty, so the next round is free to begin where it stops
        obtain ⟨-, hfirst, -, -, hcur⟩ := of_matchInside hm
        have hne : (m.stop == m.first) = false := by
          have := first_lt_stop hr hm
          rw [beq_eq_false_iff_ne, hfirst]
          omega
        show m :: findAllGo r bound (m.stop == m.first) m.final.cursor = _
        rw [hne, hcur]

theorem stop_le_length {i : Nat} {m : Match} (hi : i ≤ text.length)
    (h : matchInside r text i = some m) : m.stop ≤ text.length := by
  obtain ⟨-, -, hstarts, hstop, -⟩ := of_matchInside h
  rw [hstop]
  exact length_le_of_isPrefix_drop hi hstarts

/-- A match that takes a character begins in front of one. -/
theorem lt_length_of_matchInside (hr : Advances r) {i : Nat} {m : Match}
    (h : matchInside r text i = some m) : i < text.length := by
  obtain ⟨-, -, hprefix, hstop, -⟩ := of_matchInside h
  have hlt := first_lt_stop hr h
  have hle := hprefix.length_le
  rw [List.length_drop] at hle
  omega

theorem matchInside_of_mem_findAllGo (hr : Advances r) {bound i : Nat} {m : Match}
    (hi : i ≤ text.length) (h : m ∈ findAllGo r bound false (.inside text i)) :
    ∃ j ≤ text.length, matchInside r text j = some m := by
  induction bound generalizing i with
  | zero => simp [findAllGo] at h
  | succ bound ih =>
      rcases findAllGo_succ hr bound hi with
        ⟨hnil, -⟩ | ⟨j, m', -, hj, hm', -, hgo⟩
      · simp [hnil] at h
      · rw [hgo] at h
        rcases List.mem_cons.1 h with rfl | h
        · exact ⟨j, hj, hm'⟩
        · exact ih (stop_le_length hj hm') h

/-- **Every match that is reported is a match** at some offset. -/
theorem matchInside_of_mem_findAll (hr : Advances r) {m : Match} (h : m ∈ findAll r text) :
    ∃ j ≤ text.length, matchInside r text j = some m := by
  rw [findAll, Cursor.start_eq] at h
  exact matchInside_of_mem_findAllGo hr (Nat.zero_le _) h

theorem mem_findAllGo_or_covered (hr : Advances r) {bound i j : Nat} {m : Match}
    (hbound : text.length < bound + i) (hij : i ≤ j) (hj : j ≤ text.length)
    (h : matchInside r text j = some m) :
    m ∈ findAllGo r bound false (.inside text i) ∨
      ∃ m' ∈ findAllGo r bound false (.inside text i), m'.first < j ∧ j < m'.stop := by
  induction bound generalizing i with
  | zero => omega
  | succ bound ih =>
      have hi : i ≤ text.length := hij.trans hj
      rcases findAllGo_succ hr bound hi with ⟨-, hnone⟩ | ⟨l, m', hil, hl, hm', hfirst, hgo⟩
      · simp [hnone j hij hj] at h
      · rw [hgo]
        have hstop := first_lt_stop hr hm'
        -- the first match begins at `l`: behind `j` it would have been passed over
        rcases Nat.lt_trichotomy j l with hjl | rfl | hlj
        · simp [hfirst j hij hjl] at h
        · rw [hm', Option.some_inj] at h
          exact Or.inl (h ▸ List.mem_cons_self)
        · by_cases hcov : j < m'.stop
          · refine Or.inr ⟨m', List.mem_cons_self, ?_, hcov⟩
            rw [(of_matchInside hm').2.1]
            exact hlj
          · rcases ih (i := m'.stop) (by omega) (by omega) with hmem | ⟨n, hn, hlt⟩
            · exact Or.inl (List.mem_cons_of_mem _ hmem)
            · exact Or.inr ⟨n, List.mem_cons_of_mem _ hn, hlt⟩

/-- **A match that is not reported is covered**: it begins inside of one that is. -/
theorem mem_findAll_or_covered (hr : Advances r) {j : Nat} {m : Match} (hj : j ≤ text.length)
    (h : matchInside r text j = some m) :
    m ∈ findAll r text ∨ ∃ m' ∈ findAll r text, m'.first < j ∧ j < m'.stop := by
  rw [findAll, Cursor.start_eq]
  exact mem_findAllGo_or_covered hr (by omega) (Nat.zero_le _) hj h

/-- Where a match begins, one that is reported begins or goes on. -/
theorem exists_mem_findAll_around (hr : Advances r) {j : Nat} {m : Match} (hj : j ≤ text.length)
    (h : matchInside r text j = some m) :
    ∃ m' ∈ findAll r text, ∃ i ≤ j, matchInside r text i = some m' ∧ j < m'.stop := by
  rcases mem_findAll_or_covered hr hj h with hm | ⟨m', hm', hfirst, hstop⟩
  · exact ⟨m, hm, j, le_rfl, h, first_lt_stop hr h⟩
  · obtain ⟨i, -, hi⟩ := matchInside_of_mem_findAll hr hm'
    rw [(of_matchInside hi).2.1] at hfirst
    exact ⟨m', hm', i, hfirst.le, hi, hstop⟩

end Advancing

end ServiceKeys.Regex
