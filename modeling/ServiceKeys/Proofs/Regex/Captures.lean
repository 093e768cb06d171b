import ServiceKeys.Proofs.Regex.Between
import ServiceKeys.Proofs.Regex.Numbering

/-!
# What groups remember

Matching changes what is remembered in one place only, where a group is closed.  A property that closing
keeps is kept by a whole match (`Regex.keeps_of_mem_ends`).  Two things follow for the group with a given
number: it has taken part in every match of a pattern all ways through which pass it
(`isSome_capture?_of_passes`), and what it remembers is a text of its body (`text_of_capture?`).
-/

namespace ServiceKeys.Regex

variable {r : Regex} {st st' : State} {i k : Nat}

/-! ## What is kept -/

/-- At a group, closing it keeps a property of what is remembered. -/
def keepsAt (I : List (Nat × Capture) → Prop) : Regex → Prop
  | .group i r => ∀ st, ∀ m ∈ ends r st, I m.captures → I (m.close i st.cursor).captures
  | _ => True

/-- A condition that holds everywhere holds all over a pattern. -/
theorem all_of_forall {P : Regex → Prop} (h : ∀ r, P r) : All P r := by
  induction r with
  | seq a b iha ihb => exact ⟨iha, ihb⟩
  | alt a b iha ihb => exact ⟨iha, ihb⟩
  | group i r ih => exact ⟨h _, ih⟩
  | «recall» i rule => exact h _
  | loop r lo hi mode ih => exact ih
  | atomic r ih => exact ih
  | look back positive r ih => exact ⟨h _, ih⟩
  | branch i yes no ihy ihn => exact ⟨h _, ihy, ihn⟩
  | _ => trivial

theorem All.imp {P Q : Regex → Prop} (hr : All P r) (h : ∀ r, P r → Q r) : All Q r := by
  induction r with
  | seq a b iha ihb => exact ⟨iha hr.1, ihb hr.2⟩
  | alt a b iha ihb => exact ⟨iha hr.1, ihb hr.2⟩
  | group i r ih => exact ⟨h _ hr.1, ih hr.2⟩
  | «recall» i rule => exact h _ hr
  | loop r lo hi mode ih => exact ih hr
  | atomic r ih => exact ih hr
  | look back positive r ih => exact ⟨h _ hr.1, ih hr.2⟩
  | branch i yes no ihy ihn => exact ⟨h _ hr.1, ihy hr.2.1, ihn hr.2.2⟩
  | _ => trivial

/-- **What every group keeps, a match keeps.** -/
theorem keeps_of_mem_ends {I : List (Nat × Capture) → Prop} (hr : All (keepsAt I) r) (h : st' ∈ ends r st)
    (hst : I st.captures) : I st'.captures := by
  induction r generalizing st st' with
  | empty => exact List.mem_singleton.1 h ▸ hst
  | one s =>
      obtain ⟨cur, -, rfl⟩ := List.mem_map.1 h
      exact hst
  | span s lo hi mode =>
      obtain ⟨cur, -, rfl⟩ := List.mem_map.1 h
      exact hst
  | seq a b iha ihb =>
      obtain ⟨m, hm, hst'⟩ := mem_ends_seq.1 h
      exact ihb hr.2 hst' (iha hr.1 hm hst)
  | alt a b iha ihb =>
      rcases List.mem_append.1 h with h | h
      · exact iha hr.1 h hst
      · exact ihb hr.2 h hst
  | group i r ih =>
      obtain ⟨m, hm, rfl⟩ := mem_ends_group.1 h
      exact hr.1 st m hm (ih hr.2 hm hst)
  | «recall» i rule =>
      obtain ⟨cur, -, rfl⟩ := List.mem_map.1 h
      exact hst
  | loop r lo hi mode ih =>
      have hrounds := rounds_of_mem_loopEnds h
      clear h
      induction hrounds with
      | refl => exact hst
      | tail _ hround ihrounds => exact ih hr hround ihrounds
  | atomic r ih => exact ih hr (List.mem_of_head? (Option.mem_toList.1 h)) hst
  | look back positive r ih =>
      simp only [ends] at h
      split at h
      · -- a condition that holds keeps what was remembered on the way
        rename_i seen hseen
        obtain ⟨cur, -, hhead⟩ := Option.bind_eq_some_iff.1 hseen
        obtain rfl := List.mem_singleton.1 h
        have hmoved : I (st.moved cur).captures := hst
        have hkept : I seen.captures := ih hr.2 (List.mem_of_head? hhead) hmoved
        exact hkept
      · simp at h
      · simp at h
      · exact List.mem_singleton.1 h ▸ hst
  | branch i yes no ihy ihn =>
      rw [ends] at h
      split at h
      · exact ihy hr.2.1 h hst
      · exact ihn hr.2.2 h hst
  | anchor a =>
      rw [ends] at h
      split at h
      · exact List.mem_singleton.1 h ▸ hst
      · simp at h

/-! ## Groups that every match passes -/

theorem lookup_close (m : State) (i k : Nat) (start : Cursor) :
    (m.close i start).capture? k = if k = i then some ⟨start, m.cursor.pos⟩ else m.capture? k := by
  rw [State.capture?, State.close, List.lookup_cons]
  by_cases hk : k = i
  · simp [hk]
  · rw [if_neg hk, beq_eq_false_iff_ne.2 hk]
    rfl

/-- A group that has taken part goes on to have done so. -/
theorem isSome_capture?_of_mem_ends (h : st' ∈ ends r st) (hst : (st.capture? k).isSome) :
    (st'.capture? k).isSome := by
  refine keeps_of_mem_ends (I := fun captures => (captures.lookup k).isSome) (all_of_forall fun r => ?_) h hst
  cases r with
  | group i r =>
      intro st m _ hm
      show ((m.close i st.cursor).capture? k).isSome
      rw [lookup_close]
      split
      · rfl
      · exact hm
  | _ => trivial

/-- All ways through a pattern pass the group with a number, or ask for what it remembers. -/
def Passes (k : Nat) : Regex → Prop
  | .seq a b => Passes k a ∨ Passes k b
  | .alt a b => Passes k a ∧ Passes k b
  | .group i r => i = k ∨ Passes k r
  | .recall i _ => i = k
  | .loop r lo _ _ => 0 < lo ∧ Passes k r
  | .atomic r => Passes k r
  | .look _ positive r => positive = true ∧ Passes k r
  | .branch i yes no => (i = k ∨ Passes k yes) ∧ Passes k no
  | .empty => False
  | .one _ => False
  | .span _ _ _ _ => False
  | .anchor _ => False

instance decidablePasses (k : Nat) : DecidablePred (Passes k)
  | .seq a b => @instDecidableOr _ _ (decidablePasses k a) (decidablePasses k b)
  | .alt a b => @instDecidableAnd _ _ (decidablePasses k a) (decidablePasses k b)
  | .group _ r => @instDecidableOr _ _ inferInstance (decidablePasses k r)
  | .recall i _ => inferInstanceAs (Decidable (i = k))
  | .loop r _ _ _ => @instDecidableAnd _ _ inferInstance (decidablePasses k r)
  | .atomic r => decidablePasses k r
  | .look _ _ r => @instDecidableAnd _ _ inferInstance (decidablePasses k r)
  | .branch _ yes no =>
    @instDecidableAnd _ _ (@instDecidableOr _ _ inferInstance (decidablePasses k yes)) (decidablePasses k no)
  | .empty => .isFalse id
  | .one _ => .isFalse id
  | .span _ _ _ _ => .isFalse id
  | .anchor _ => .isFalse id

/-- **A group that all ways pass has taken part in every match.** -/
theorem isSome_capture?_of_passes (hr : Passes k r) (h : st' ∈ ends r st) : (st'.capture? k).isSome := by
  induction r generalizing st st' with
  | seq a b iha ihb =>
      obtain ⟨m, hm, hst'⟩ := mem_ends_seq.1 h
      rcases hr with ha | hb
      · exact isSome_capture?_of_mem_ends hst' (iha ha hm)
      · exact ihb hb hst'
  | alt a b iha ihb =>
      rcases List.mem_append.1 h with h | h
      · exact iha hr.1 h
      · exact ihb hr.2 h
  | group i r ih =>
      obtain ⟨m, hm, rfl⟩ := mem_ends_group.1 h
      rw [lookup_close]
      split
      · rfl
      · rename_i hne
        exact ih (hr.resolve_left (Ne.symm hne)) hm
  | «recall» i rule =>
      obtain rfl : i = k := hr
      obtain ⟨cur, hcur, rfl⟩ := List.mem_map.1 h
      obtain ⟨c, hc, -⟩ := Option.bind_eq_some_iff.1 (Option.mem_toList.1 hcur)
      exact Option.isSome_of_eq_some hc
  | loop r lo hi mode ih =>
      obtain ⟨m, hm, hrounds⟩ := exists_round_of_mem_loopEnds hr.1 h
      have hfirst := ih hr.2 hm
      clear h
      induction hrounds with
      | refl => exact hfirst
      | tail _ hround ihrounds => exact isSome_capture?_of_mem_ends hround ihrounds
  | atomic r ih => exact ih hr (List.mem_of_head? (Option.mem_toList.1 h))
  | look back positive r ih =>
      obtain ⟨hpositive, hr⟩ := hr
      simp only [ends] at h
      split at h
      · rename_i seen hseen
        obtain ⟨cur, -, hhead⟩ := Option.bind_eq_some_iff.1 hseen
        obtain rfl := List.mem_singleton.1 h
        show (seen.capture? k).isSome
        exact ih hr (List.mem_of_head? hhead)
      · simp at h
      · simp at hpositive
      · simp at hpositive
  | branch i yes no ihy ihn =>
      rw [ends] at h
      split at h
      · rename_i hasked
        rcases hr.1 with rfl | hyes
        · exact isSome_capture?_of_mem_ends h hasked
        · exact ihy hyes h
      · exact ihn hr.2 h
  | _ => exact hr.elim

/-! ## Texts of groups -/

/-- At the group with a number, its body satisfies a condition. -/
def bodyAt (k : Nat) (P : Regex → Prop) : Regex → Prop
  | .group i r => i = k → P r
  | _ => True

/-- **What a group remembers is a text of its body.** -/
theorem text_of_capture? {P : List Char → Prop} {cur : Cursor} {c : Capture}
    (hr : All (bodyAt k fun body => ∃ L, Denotes body L ∧ ∀ xs ∈ L, P xs) r)
    (h : st' ∈ ends r { cursor := cur }) (hc : st'.capture? k = some c) : P c.text := by
  have hkeeps : All (keepsAt fun captures => ∀ c, captures.lookup k = some c → P c.text) r := by
    refine hr.imp fun r hr => ?_
    cases r with
    | group i r =>
        intro st m hm hI c hc
        by_cases hi : i = k
        · obtain ⟨L, hL, htexts⟩ := hr hi
          obtain ⟨xs, hxs, -, c', hcaptures, rfl⟩ := hL.mem_ends_group (mem_ends_group.2 ⟨m, hm, rfl⟩)
          rw [hcaptures, List.lookup_cons, hi, beq_self_eq_true, Option.some_inj] at hc
          exact hc ▸ htexts _ hxs
        · refine hI c ?_
          have hclose := lookup_close m i k st.cursor
          rw [if_neg (Ne.symm hi)] at hclose
          exact hclose.symm.trans hc
    | _ => trivial
  exact keeps_of_mem_ends hkeeps h (by simp) c hc

/-! ## Matches that are found -/

theorem mem_ends_of_matchAt {mustMove : Bool} {cur : Cursor} {m : Match} (h : matchAt r mustMove cur = some m) :
    m.final ∈ ends r { cursor := m.start } := by
  rw [matchAt, run_eq] at h
  obtain ⟨st, hst, rfl⟩ := Option.map_eq_some_iff.1 h
  obtain ⟨st₁, hmem, htaken⟩ := List.exists_of_findSome?_eq_some hst
  split at htaken
  · cases htaken
  · exact Option.some_inj.1 htaken ▸ hmem

theorem mem_ends_of_searchGo {mustMove : Bool} {before after : List Char} {pos : Nat} {m : Match}
    (h : searchGo r mustMove before pos after = some m) : m.final ∈ ends r { cursor := m.start } := by
  induction after generalizing mustMove before pos with
  | nil => exact mem_ends_of_matchAt h
  | cons c after ih =>
      rw [searchGo] at h
      split at h
      · rename_i m' hm
        exact Option.some_inj.1 h ▸ mem_ends_of_matchAt hm
      · exact ih h

theorem mem_ends_of_mem_findAllGo {bound : Nat} {mustMove : Bool} {cur : Cursor} {m : Match}
    (h : m ∈ findAllGo r bound mustMove cur) : m.final ∈ ends r { cursor := m.start } := by
  induction bound generalizing mustMove cur with
  | zero => simp [findAllGo] at h
  | succ bound ih =>
      rw [findAllGo] at h
      split at h
      · simp at h
      · rename_i m' hm
        rcases List.mem_cons.1 h with rfl | h
        · exact mem_ends_of_searchGo hm
        · exact ih h

/-- **Every match that is found ends at an end of the pattern**, whether or not it is empty. -/
theorem mem_ends_of_mem_findAll {text : List Char} {m : Match} (h : m ∈ findAll r text) :
    m.final ∈ ends r { cursor := m.start } := mem_ends_of_mem_findAllGo h

end ServiceKeys.Regex
