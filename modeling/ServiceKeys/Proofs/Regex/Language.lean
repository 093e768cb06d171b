import ServiceKeys.Proofs.Regex.Ends
import ServiceKeys.Proofs.Text.CharClass
import Mathlib.Computability.Language

/-!
# The language of a pattern

What a pattern can move over.  `Cursor.Over` says that a cursor stands behind a text that another one
stands in front of; `Regex.Denotes r L` says that the ends of `r` are exactly the places behind the
texts of the language `L`, whatever stands around them and whatever the groups remember.  Patterns
without groups and without conditions on their surroundings have such a language, and it is put
together constructor by constructor: a sequence is a product, alternatives are a sum, rounds are a
star.
-/

namespace ServiceKeys.Regex

open Computability

/-! ## Moving over a text -/

/-- `a.Over xs b`: the cursor `b` stands right behind the text `xs` that `a` stands in front of. -/
structure Cursor.Over (a : Cursor) (xs : List Char) (b : Cursor) : Prop where
  after_eq : a.after = xs ++ b.after
  before_eq : b.before = xs.reverse ++ a.before
  pos_eq : b.pos = a.pos + xs.length

namespace Cursor.Over

variable {a b c : Cursor} {xs ys : List Char}

theorem nil_iff : a.Over [] b ↔ b = a := by
  constructor
  · rintro ⟨h1, h2, h3⟩
    cases a
    cases b
    simp_all
  · rintro rfl
    exact ⟨rfl, rfl, rfl⟩

theorem refl (a : Cursor) : a.Over [] a := nil_iff.2 rfl

theorem append (hab : a.Over xs b) (hbc : b.Over ys c) : a.Over (xs ++ ys) c where
  after_eq := by rw [hab.after_eq, hbc.after_eq, List.append_assoc]
  before_eq := by rw [hbc.before_eq, hab.before_eq, List.reverse_append, List.append_assoc]
  pos_eq := by rw [hbc.pos_eq, hab.pos_eq, List.length_append, Nat.add_assoc]

/-- A text in two parts is moved over in two steps. -/
theorem append_iff : a.Over (xs ++ ys) c ↔ ∃ b, a.Over xs b ∧ b.Over ys c := by
  constructor
  · rintro ⟨h1, h2, h3⟩
    refine ⟨⟨xs.reverse ++ a.before, ys ++ c.after, a.pos + xs.length⟩,
      ⟨by rw [h1, List.append_assoc], rfl, rfl⟩, rfl, ?_, ?_⟩
    · rw [h2, List.reverse_append, List.append_assoc]
    · rw [h3, List.length_append, Nat.add_assoc]
  · rintro ⟨b, hab, hbc⟩
    exact hab.append hbc

/-- The place behind a text is determined by the text. -/
theorem unique (hb : a.Over xs b) (hc : a.Over xs c) : b = c := by
  have hafter : b.after = c.after :=
    List.append_cancel_left (hb.after_eq.symm.trans hc.after_eq)
  have hbefore : b.before = c.before := hb.before_eq.trans hc.before_eq.symm
  have hpos : b.pos = c.pos := hb.pos_eq.trans hc.pos_eq.symm
  cases b
  cases c
  simp_all

theorem cons_iff {before after : List Char} {pos : Nat} {d e : Char} :
    Cursor.Over ⟨before, d :: after, pos⟩ (e :: xs) b ↔
      d = e ∧ Cursor.Over ⟨d :: before, after, pos + 1⟩ xs b := by
  constructor
  · rintro ⟨h1, h2, h3⟩
    obtain ⟨rfl, hafter⟩ : d = e ∧ after = xs ++ b.after := by simpa using h1
    exact ⟨rfl, hafter, by simpa using h2, by simpa [Nat.add_assoc, Nat.add_comm 1] using h3⟩
  · rintro ⟨rfl, h1, h2, h3⟩
    exact ⟨by simpa using h1, by simpa using h2, by simpa [Nat.add_assoc, Nat.add_comm 1] using h3⟩

theorem not_cons {before : List Char} {pos : Nat} {e : Char} :
    ¬ Cursor.Over ⟨before, [], pos⟩ (e :: xs) b := fun h => absurd h.after_eq (by simp)

/-- Moving over a text never lengthens what is left. -/
theorem length_after (h : a.Over xs b) : a.after.length = xs.length + b.after.length := by
  rw [h.after_eq, List.length_append]

end Cursor.Over

theorem Cursor.accept?_eq_some_iff {s : CharSet} {a b : Cursor} :
    a.accept? s = some b ↔ ∃ c, s.accepts c = true ∧ a.Over [c] b := by
  rcases a with ⟨before, _ | ⟨d, after⟩, pos⟩
  · constructor
    · intro h
      exact absurd h (by simp [accept?])
    · rintro ⟨c, _, h⟩
      exact absurd h.after_eq (by simp)
  · constructor
    · intro h
      by_cases hd : s.accepts d = true
      · simp only [accept?, hd, if_true, Option.some.injEq] at h
        subst h
        exact ⟨d, hd, rfl, rfl, rfl⟩
      · simp [accept?, hd] at h
    · rintro ⟨c, hc, h⟩
      obtain ⟨rfl, hafter⟩ : d = c ∧ after = b.after := by simpa using h.after_eq
      rw [accept?, if_pos hc]
      congr 1
      exact Over.unique ⟨rfl, rfl, rfl⟩ h

theorem Cursor.readText?_exact_iff {ds : List Char} {a b : Cursor} :
    a.readText? .exact ds = some b ↔ a.Over ds b := by
  induction ds generalizing a with
  | nil => rw [readText?, Option.some_inj, Over.nil_iff, eq_comm]
  | cons d ds ih =>
      rcases a with ⟨before, _ | ⟨c, after⟩, pos⟩
      · refine ⟨fun h => absurd h (by simp [readText?]), fun h => absurd h.after_eq (by simp)⟩
      · rw [readText?, Over.cons_iff]
        by_cases hcd : c = d
        · subst hcd
          rw [if_pos (by simp), ih]
          simp
        · simp [CaseRule.fold, hcd]

/-! ## States -/

/-- `st.Over xs st'`: the cursor moves over `xs` and the groups remember what they did. -/
def State.Over (st : State) (xs : List Char) (st' : State) : Prop :=
  st.cursor.Over xs st'.cursor ∧ st'.captures = st.captures

namespace State.Over

variable {a b c : State} {xs ys : List Char}

theorem iff_moved : a.Over xs b ↔ ∃ cur, a.cursor.Over xs cur ∧ a.moved cur = b := by
  constructor
  · rintro ⟨h, hc⟩
    refine ⟨b.cursor, h, ?_⟩
    cases b
    simp_all [State.moved]
  · rintro ⟨cur, h, rfl⟩
    exact ⟨h, rfl⟩

theorem nil_iff : a.Over [] b ↔ b = a := by
  rw [iff_moved]
  simp only [Cursor.Over.nil_iff, exists_eq_left]
  exact eq_comm

theorem append_iff : a.Over (xs ++ ys) c ↔ ∃ b, a.Over xs b ∧ b.Over ys c := by
  constructor
  · rintro ⟨h, hc⟩
    obtain ⟨m, hm, hmc⟩ := Cursor.Over.append_iff.1 h
    exact ⟨a.moved m, ⟨hm, rfl⟩, hmc, hc⟩
  · rintro ⟨b, ⟨hab, hb⟩, hbc, hc⟩
    exact ⟨hab.append hbc, hc.trans hb⟩

end State.Over

/-! ## Languages -/

/-- The ends of a pattern are the places behind the texts of a language. -/
def Denotes (r : Regex) (L : Language Char) : Prop :=
  ∀ st st', st' ∈ r.ends st ↔ ∃ xs ∈ L, st.Over xs st'

/-- The language of the texts with a property. -/
def texts (P : List Char → Prop) : Language Char := {xs | P xs}

theorem mem_texts {P : List Char → Prop} {xs : List Char} : xs ∈ texts P ↔ P xs := Iff.rfl

/-- The texts of one character of a set. -/
def CharSet.singles (s : CharSet) : Language Char :=
  texts fun xs => ∃ c, s.accepts c = true ∧ xs = [c]

/-- Whether a run of `n` characters stays within a limit. -/
def Within (limit : Option Nat) (n : Nat) : Prop := ∀ h ∈ limit, n ≤ h

/-- The texts of characters of a set, at least `lo` and at most `hi` of them. -/
def CharSet.runs (s : CharSet) (lo : Nat) (hi : Option Nat) : Language Char :=
  texts fun xs => (∀ c ∈ xs, s.accepts c = true) ∧ lo ≤ xs.length ∧ Within hi xs.length

theorem denotes_empty : Denotes .empty 1 := by
  intro st st'
  simp [ends, Language.mem_one, State.Over.nil_iff]

theorem denotes_one (s : CharSet) : Denotes (.one s) s.singles := by
  intro st st'
  simp only [ends, List.mem_map, Option.mem_toList, Cursor.accept?_eq_some_iff]
  constructor
  · rintro ⟨cur, ⟨c, hc, hover⟩, rfl⟩
    exact ⟨[c], ⟨c, hc, rfl⟩, hover, rfl⟩
  · rintro ⟨xs, ⟨c, hc, rfl⟩, hover⟩
    obtain ⟨cur, hcur, rfl⟩ := State.Over.iff_moved.1 hover
    exact ⟨cur, ⟨c, hc, hcur⟩, rfl⟩

theorem mem_ends_seq {a b : Regex} {st st' : State} :
    st' ∈ ends (.seq a b) st ↔ ∃ m ∈ ends a st, st' ∈ ends b m := List.mem_flatMap

theorem denotes_seq {a b : Regex} {L M : Language Char} (ha : Denotes a L) (hb : Denotes b M) :
    Denotes (.seq a b) (L * M) := by
  intro st st'
  rw [mem_ends_seq]
  simp only [Language.mem_mul]
  constructor
  · rintro ⟨m, hm, hst'⟩
    obtain ⟨xs, hxs, hover⟩ := (ha st m).1 hm
    obtain ⟨ys, hys, hover'⟩ := (hb m st').1 hst'
    exact ⟨xs ++ ys, ⟨xs, hxs, ys, hys, rfl⟩, State.Over.append_iff.2 ⟨m, hover, hover'⟩⟩
  · rintro ⟨_, ⟨xs, hxs, ys, hys, rfl⟩, hover⟩
    obtain ⟨m, hm, hst'⟩ := State.Over.append_iff.1 hover
    exact ⟨m, (ha st m).2 ⟨xs, hxs, hm⟩, (hb m st').2 ⟨ys, hys, hst'⟩⟩

theorem denotes_alt {a b : Regex} {L M : Language Char} (ha : Denotes a L) (hb : Denotes b M) :
    Denotes (.alt a b) (L + M) := by
  intro st st'
  simp only [ends, List.mem_append, ha st st', hb st st', Language.mem_add]
  constructor
  · rintro (⟨xs, hxs, h⟩ | ⟨xs, hxs, h⟩)
    · exact ⟨xs, Or.inl hxs, h⟩
    · exact ⟨xs, Or.inr hxs, h⟩
  · rintro ⟨xs, hxs | hxs, h⟩
    · exact Or.inl ⟨xs, hxs, h⟩
    · exact Or.inr ⟨xs, hxs, h⟩

theorem Denotes.congr {r : Regex} {L M : Language Char} (h : Denotes r L)
    (hLM : ∀ xs, xs ∈ L ↔ xs ∈ M) : Denotes r M := Language.ext hLM ▸ h

/-! ## Lists of patterns -/

theorem ends_ofList_cons (r : Regex) (rs : List Regex) (st : State) :
    ends (ofList (r :: rs)) st = (ends r st).flatMap (ends (ofList rs)) := by
  cases rs with
  | nil =>
      show ends r st = (ends r st).flatMap fun st => [st]
      rw [List.flatMap_singleton']
  | cons r' rs => rfl

theorem ends_ofList_append (rs rs' : List Regex) (st : State) :
    ends (ofList (rs ++ rs')) st = (ends (ofList rs) st).flatMap (ends (ofList rs')) := by
  induction rs generalizing st with
  | nil => simp [ofList, ends]
  | cons r rs ih =>
      rw [List.cons_append, ends_ofList_cons, ends_ofList_cons, List.flatMap_assoc]
      exact congrArg (List.flatMap · _) (funext ih)

theorem mem_ends_ofList_cons {r : Regex} {rs : List Regex} {st st' : State} :
    st' ∈ ends (ofList (r :: rs)) st ↔ ∃ m ∈ ends r st, st' ∈ ends (ofList rs) m := by
  cases rs with
  | nil => simp [ofList, ends]
  | cons r' rs => exact mem_ends_seq

theorem mem_ends_ofList_append {rs rs' : List Regex} {st st' : State} :
    st' ∈ ends (ofList (rs ++ rs')) st ↔
      ∃ m ∈ ends (ofList rs) st, st' ∈ ends (ofList rs') m := by
  induction rs generalizing st with
  | nil => simp [ofList, ends]
  | cons r rs ih =>
      rw [List.cons_append, mem_ends_ofList_cons]
      simp only [ih, mem_ends_ofList_cons]
      constructor
      · rintro ⟨m, hm, n, hn, h⟩
        exact ⟨n, ⟨m, hm, hn⟩, h⟩
      · rintro ⟨n, ⟨m, hm, hn⟩, h⟩
        exact ⟨m, hm, n, hn, h⟩

theorem denotes_ofList_nil : Denotes (ofList []) 1 := denotes_empty

theorem denotes_ofList_cons {r : Regex} {rs : List Regex} {L M : Language Char}
    (hr : Denotes r L) (hrs : Denotes (ofList rs) M) : Denotes (ofList (r :: rs)) (L * M) := by
  intro st st'
  rw [mem_ends_ofList_cons, ← mem_ends_seq]
  exact denotes_seq hr hrs st st'

theorem denotes_ofList_append {rs rs' : List Regex} {L M : Language Char}
    (hrs : Denotes (ofList rs) L) (hrs' : Denotes (ofList rs') M) :
    Denotes (ofList (rs ++ rs')) (L * M) := by
  intro st st'
  rw [mem_ends_ofList_append, ← mem_ends_seq]
  exact denotes_seq hrs hrs' st st'

/-- A single character stands for the text of it alone. -/
theorem denotes_char (c : Char) : Denotes (char c) (texts (· = [c])) := by
  apply (denotes_one (.single c)).congr
  intro xs
  simp [CharSet.singles, mem_texts, CharSet.accepts_single]

/-- A text stands for itself. -/
theorem denotes_literal (cs : List Char) : Denotes (literal cs) (texts (· = cs)) := by
  induction cs with
  | nil => exact denotes_ofList_nil
  | cons c cs ih =>
      apply (denotes_ofList_cons (denotes_char c) ih).congr
      intro xs
      simp only [Language.mem_mul, mem_texts, exists_eq_left, List.singleton_append]
      exact eq_comm

/-! ## Runs of characters -/

theorem within_zero (limit : Option Nat) : Within limit 0 := fun _ _ => Nat.zero_le _

theorem within_succ {limit : Option Nat} (h : (limit == some 0) = false) (n : Nat) :
    Within limit (n + 1) ↔ Within (limit.map (· - 1)) n := by
  cases limit with
  | none => simp [Within]
  | some h' =>
      have : h' ≠ 0 := by simpa using h
      simp only [Within, Option.mem_some_iff, forall_eq', Option.map_some]
      omega

theorem not_within_succ {limit : Option Nat} (h : (limit == some 0) = true) (n : Nat) :
    ¬ Within limit (n + 1) := by
  intro hw
  have := hw 0 (by simpa using h)
  omega

/-- The step that greedy and reluctant runs share: a run that begins with `c` moves over an accepted
`c` within the limit and goes on behind it. -/
theorem exists_run_cons {s : CharSet} {limit : Option Nat} {before after : List Char} {pos lo : Nat}
    {c : Char} {cur : Cursor} :
    (∃ d xs, (∀ e ∈ d :: xs, s.accepts e = true) ∧ lo ≤ xs.length ∧ Within limit (xs.length + 1) ∧
      Cursor.Over ⟨before, c :: after, pos⟩ (d :: xs) cur) ↔
    (limit == some 0 || !s.accepts c) = false ∧
      ∃ xs, (∀ e ∈ xs, s.accepts e = true) ∧ lo ≤ xs.length ∧
        Within (limit.map (· - 1)) xs.length ∧
        Cursor.Over ⟨c :: before, after, pos + 1⟩ xs cur := by
  constructor
  · rintro ⟨d, xs, hall, hlo, hw, hover⟩
    obtain ⟨rfl, hrest⟩ := Cursor.Over.cons_iff.1 hover
    have hlim : (limit == some 0) = false := by
      by_contra hne
      exact not_within_succ (by simpa using hne) _ hw
    refine ⟨by simp [hlim, hall c], xs, fun e he => hall e (List.mem_cons_of_mem _ he), hlo, ?_,
      hrest⟩
    exact (within_succ hlim _).1 hw
  · rintro ⟨hc, xs, hall, hlo, hw, hover⟩
    rw [Bool.or_eq_false_iff, Bool.not_eq_false'] at hc
    refine ⟨c, xs, ?_, hlo, (within_succ hc.1 _).2 hw, Cursor.Over.cons_iff.2 ⟨rfl, hover⟩⟩
    intro e he
    rcases List.mem_cons.1 he with rfl | he
    · exact hc.2
    · exact hall e he

theorem mem_stopsGo {s : CharSet} {limit : Option Nat} {before after : List Char} {pos : Nat}
    {passed : List Cursor} {cur : Cursor} :
    cur ∈ stopsGo s limit before pos passed after ↔
      cur ∈ passed ∨ ∃ xs, (∀ c ∈ xs, s.accepts c = true) ∧ Within limit xs.length ∧
        Cursor.Over ⟨before, after, pos⟩ xs cur := by
  induction after generalizing limit before pos passed with
  | nil =>
      rw [stopsGo, List.mem_cons]
      constructor
      · rintro (rfl | h)
        · exact Or.inr ⟨[], by simp, within_zero _, .refl _⟩
        · exact Or.inl h
      · rintro (h | ⟨xs, -, -, hover⟩)
        · exact Or.inr h
        · cases xs with
          | nil => exact Or.inl (Cursor.Over.nil_iff.1 hover)
          | cons e xs => exact absurd hover Cursor.Over.not_cons
  | cons c after ih =>
      -- a run ends at once, or it goes on with a character that is accepted within the limit
      have hsplit : (∃ xs, (∀ e ∈ xs, s.accepts e = true) ∧ Within limit xs.length ∧
            Cursor.Over ⟨before, c :: after, pos⟩ xs cur) ↔
          cur = ⟨before, c :: after, pos⟩ ∨
            ((limit == some 0 || !s.accepts c) = false ∧
              ∃ xs, (∀ e ∈ xs, s.accepts e = true) ∧ 0 ≤ xs.length ∧
                Within (limit.map (· - 1)) xs.length ∧
                Cursor.Over ⟨c :: before, after, pos + 1⟩ xs cur) := by
        rw [← exists_run_cons]
        constructor
        · rintro ⟨_ | ⟨d, xs⟩, hall, hw, hover⟩
          · exact Or.inl (Cursor.Over.nil_iff.1 hover)
          · exact Or.inr ⟨d, xs, hall, Nat.zero_le _, hw, hover⟩
        · rintro (rfl | ⟨d, xs, hall, -, hw, hover⟩)
          · exact ⟨[], by simp, within_zero _, .refl _⟩
          · exact ⟨d :: xs, hall, hw, hover⟩
      rw [stopsGo, hsplit]
      cases hc : (limit == some 0 || !s.accepts c) with
      | true => simp [or_comm]
      | false =>
          simp only [Bool.false_eq_true, if_false, ih, List.mem_cons, true_and, Nat.zero_le]
          tauto

/-- The places that a greedy run passes are listed from the farthest to the nearest. -/
theorem pairwise_stopsGo {s : CharSet} {limit : Option Nat} {before after : List Char} {pos : Nat}
    {passed : List Cursor} (hpassed : passed.Pairwise fun a b => b.pos < a.pos)
    (hpos : ∀ p ∈ passed, p.pos < pos) :
    (stopsGo s limit before pos passed after).Pairwise fun a b => b.pos < a.pos := by
  induction after generalizing limit before pos passed with
  | nil => exact .cons hpos hpassed
  | cons c after ih =>
      rw [stopsGo]
      split
      · exact .cons hpos hpassed
      · apply ih (.cons hpos hpassed)
        intro p hp
        rcases List.mem_cons.1 hp with rfl | hp
        · exact Nat.lt_succ_self _
        · exact Nat.lt_succ_of_lt (hpos p hp)

theorem mem_upTo {least : Nat} {stops : List Cursor} {cur : Cursor}
    (h : stops.Pairwise fun a b => b.pos < a.pos) :
    cur ∈ upTo least stops ↔ cur ∈ stops ∧ least ≤ cur.pos := by
  induction h with
  | nil => simp [upTo]
  | @cons a stops ha _ ih =>
      rw [upTo, List.takeWhile_cons]
      by_cases hlt : a.pos < least
      · -- the stops come nearer, so all that follow are too near as well
        simp only [hlt, decide_true, Bool.not_true, Bool.false_eq_true, if_false,
          List.not_mem_nil, false_iff, List.mem_cons]
        rintro ⟨rfl | hcur, hle⟩
        · omega
        · have := ha cur hcur
          omega
      · simp only [hlt, decide_false, Bool.not_false, if_true, List.mem_cons]
        rw [← upTo, ih]
        constructor
        · rintro (rfl | ⟨hcur, hle⟩)
          · exact ⟨Or.inl rfl, by omega⟩
          · exact ⟨Or.inr hcur, hle⟩
        · rintro ⟨rfl | hcur, hle⟩
          · exact Or.inl rfl
          · exact Or.inr ⟨hcur, hle⟩

theorem mem_reluctantStops {s : CharSet} {before after : List Char} {pos lo : Nat}
    {limit : Option Nat} {cur : Cursor} :
    cur ∈ reluctantStops s before pos lo limit after ↔
      ∃ xs, (∀ c ∈ xs, s.accepts c = true) ∧ lo ≤ xs.length ∧ Within limit xs.length ∧
        Cursor.Over ⟨before, after, pos⟩ xs cur := by
  induction after generalizing before pos lo limit with
  | nil =>
      have hempty : (∃ xs, (∀ c ∈ xs, s.accepts c = true) ∧ lo ≤ xs.length ∧
            Within limit xs.length ∧ Cursor.Over ⟨before, [], pos⟩ xs cur) ↔
          lo = 0 ∧ cur = ⟨before, [], pos⟩ := by
        constructor
        · rintro ⟨_ | ⟨e, xs⟩, -, hlo, -, hover⟩
          · exact ⟨Nat.le_zero.1 hlo, Cursor.Over.nil_iff.1 hover⟩
          · exact absurd hover Cursor.Over.not_cons
        · rintro ⟨rfl, rfl⟩
          exact ⟨[], by simp, le_rfl, within_zero _, .refl _⟩
      rw [hempty]
      cases lo <;> simp [reluctantStops]
  | cons c after ih =>
      cases lo with
      | zero =>
          rw [reluctantStops, List.mem_cons]
          cases hc : (limit == some 0 || !s.accepts c) with
          | true =>
              constructor
              · rintro (rfl | h)
                · exact ⟨[], by simp, le_rfl, within_zero _, .refl _⟩
                · simp at h
              · rintro ⟨_ | ⟨d, xs⟩, hall, -, hw, hover⟩
                · exact Or.inl (Cursor.Over.nil_iff.1 hover)
                · have hrun := exists_run_cons.1 ⟨d, xs, hall, Nat.zero_le xs.length, hw, hover⟩
                  exact absurd hrun.1 (by simp [hc])
          | false =>
              simp only [Bool.false_eq_true, if_false, ih]
              constructor
              · rintro (rfl | h)
                · exact ⟨[], by simp, le_rfl, within_zero _, .refl _⟩
                · obtain ⟨d, xs, hall, -, hw, hover⟩ := exists_run_cons.2 ⟨hc, h⟩
                  exact ⟨d :: xs, hall, Nat.zero_le _, hw, hover⟩
              · rintro ⟨_ | ⟨d, xs⟩, hall, -, hw, hover⟩
                · exact Or.inl (Cursor.Over.nil_iff.1 hover)
                · exact Or.inr (exists_run_cons.1 ⟨d, xs, hall, Nat.zero_le _, hw, hover⟩).2
      | succ lo =>
          rw [reluctantStops]
          -- characters are still due, so the run is not empty
          have hsplit : (∃ xs, (∀ e ∈ xs, s.accepts e = true) ∧ lo + 1 ≤ xs.length ∧
                Within limit xs.length ∧ Cursor.Over ⟨before, c :: after, pos⟩ xs cur) ↔
              ∃ d xs, (∀ e ∈ d :: xs, s.accepts e = true) ∧ lo ≤ xs.length ∧
                Within limit (xs.length + 1) ∧
                Cursor.Over ⟨before, c :: after, pos⟩ (d :: xs) cur := by
            constructor
            · rintro ⟨_ | ⟨d, xs⟩, hall, hlo, hw, hover⟩
              · simp at hlo
              · exact ⟨d, xs, hall, by simpa using hlo, hw, hover⟩
            · rintro ⟨d, xs, hall, hlo, hw, hover⟩
              exact ⟨d :: xs, hall, by simpa using hlo, hw, hover⟩
          rw [hsplit, exists_run_cons]
          cases hc : (limit == some 0 || !s.accepts c) with
          | true => simp
          | false => simp only [Bool.false_eq_true, if_false, ih, true_and]

/-- **A run of characters**, greedy or reluctant, can end behind every run that its bounds allow. -/
theorem denotes_span (s : CharSet) (lo : Nat) (hi : Option Nat) {mode : Mode}
    (hmode : mode ≠ .possessive) : Denotes (.span s lo hi mode) (s.runs lo hi) := by
  have hstops : ∀ a b : Cursor, b ∈ spanStops s lo hi mode a ↔ ∃ xs ∈ s.runs lo hi, a.Over xs b := by
    intro a b
    cases mode with
    | greedy =>
        -- all runs within the upper bound are listed, and the lower one cuts the list off
        rw [spanStops, mem_upTo (pairwise_stopsGo .nil (by simp)), mem_stopsGo]
        simp only [List.not_mem_nil, false_or]
        constructor
        · rintro ⟨⟨xs, hall, hw, hover⟩, hle⟩
          rw [hover.pos_eq] at hle
          exact ⟨xs, ⟨hall, by simpa using hle, hw⟩, hover⟩
        · rintro ⟨xs, ⟨hall, hlo, hw⟩, hover⟩
          refine ⟨⟨xs, hall, hw, hover⟩, ?_⟩
          rw [hover.pos_eq]
          exact Nat.add_le_add_left hlo _
    | reluctant =>
        rw [spanStops, mem_reluctantStops]
        constructor
        · rintro ⟨xs, hall, hlo, hw, hover⟩
          exact ⟨xs, ⟨hall, hlo, hw⟩, hover⟩
        · rintro ⟨xs, ⟨hall, hlo, hw⟩, hover⟩
          exact ⟨xs, hall, hlo, hw, hover⟩
    | possessive => exact absurd rfl hmode
  intro st st'
  simp only [ends, List.mem_map, hstops]
  constructor
  · rintro ⟨cur, ⟨xs, hxs, hover⟩, rfl⟩
    exact ⟨xs, hxs, hover, rfl⟩
  · rintro ⟨xs, hxs, hover⟩
    obtain ⟨cur, hcur, rfl⟩ := State.Over.iff_moved.1 hover
    exact ⟨cur, ⟨xs, hxs, hcur⟩, rfl⟩

theorem denotes_blanks : Denotes blanks (texts Text.Blanks) := by
  apply (denotes_span .blank 0 none (by decide)).congr
  intro xs
  simp [CharSet.runs, mem_texts, CharSet.accepts_blank, Text.Blanks, Within]

theorem denotes_blanks1 : Denotes blanks1 (texts fun xs => Text.Blanks xs ∧ xs ≠ []) := by
  apply (denotes_span .blank 1 none (by decide)).congr
  intro xs
  simp [CharSet.runs, mem_texts, CharSet.accepts_blank, Text.Blanks, Within, Nat.one_le_iff_ne_zero]

/-- A run of characters that are none of those listed. -/
theorem denotes_noneOf (cs : List Char) (lo : Nat) {mode : Mode} (hmode : mode ≠ .possessive) :
    Denotes (.span (.noneOf cs) lo none mode)
      (texts fun xs => (∀ c ∈ xs, c ∉ cs) ∧ lo ≤ xs.length) := by
  apply (denotes_span (.noneOf cs) lo none hmode).congr
  intro xs
  simp [CharSet.runs, mem_texts, CharSet.accepts_noneOf, Within]

/-- Blanks and the parenthesis that closes. -/
theorem denotes_close : Denotes (ofList [blanks, .char ')'])
    (texts fun xs => ∃ b, Text.Blanks b ∧ xs = b ++ [')']) := by
  apply (denotes_ofList_cons denotes_blanks
    (denotes_ofList_cons (denotes_char ')') denotes_ofList_nil)).congr
  intro xs
  simp only [mul_one, Language.mem_mul, mem_texts, exists_eq_left, eq_comm]

/-! ## Rounds -/

theorem ends_maybe (r : Regex) (st : State) : ends (maybe r) st = ends r st ++ [st] := by
  have hlast : greedyEnds (ends r) 0 (some 1) 1 1 (some st.cursor.pos) = fun st' => [st'] := by
    funext st'
    simp [greedyEnds, mayRepeat]
  show greedyEnds (ends r) 0 (some 1) 2 0 none st = _
  rw [greedyEnds]
  simp [mayRepeat, hlast]

theorem denotes_maybe {r : Regex} {L : Language Char} (h : Denotes r L) :
    Denotes (maybe r) (L + 1) := by
  intro st st'
  rw [ends_maybe]
  exact denotes_alt h denotes_empty st st'

/-- Rounds of a body that always moves: there are enough of them for every text of the star, because
each round leaves less of the text than the bound has rounds left. -/
theorem mem_greedyEnds_star {r : Regex} {L : Language Char} (h : Denotes r L) (hL : [] ∉ L)
    {bound count : Nat} {last : Option Nat} {st st' : State}
    (hlast : last ≠ some st.cursor.pos) (hbound : st.cursor.after.length < bound) :
    st' ∈ greedyEnds (ends r) 0 none bound count last st ↔ ∃ xs ∈ L∗, st.Over xs st' := by
  induction bound generalizing count last st with
  | zero => omega
  | succ bound ih =>
      have hmay : mayRepeat none count last st = true := by
        simp [mayRepeat, hlast]
      -- a round moves the cursor, so the next one may be tried and has less to read
      have hround : ∀ m, m ∈ ends r st →
          (some st.cursor.pos ≠ some m.cursor.pos ∧ m.cursor.after.length < bound) := by
        intro m hm
        obtain ⟨xs, hxs, hover, -⟩ := (h st m).1 hm
        have hne : xs.length ≠ 0 := by
          intro h0
          exact hL (List.length_eq_zero_iff.1 h0 ▸ hxs)
        have hpos := hover.pos_eq
        have hlen := hover.length_after
        refine ⟨?_, by omega⟩
        rw [Ne, Option.some_inj]
        omega
      rw [greedyEnds, if_neg (Nat.not_lt_zero _), if_pos hmay, List.mem_append, List.mem_flatMap,
        List.mem_singleton]
      constructor
      · rintro (⟨m, hm, hst'⟩ | rfl)
        · obtain ⟨hne, hlen⟩ := hround m hm
          obtain ⟨ys, hys, hover'⟩ := (ih hne hlen).1 hst'
          obtain ⟨xs, hxs, hover⟩ := (h st m).1 hm
          obtain ⟨S, rfl, hS⟩ := Language.mem_kstar.1 hys
          refine ⟨xs ++ S.flatten, Language.mem_kstar.2 ⟨xs :: S, rfl, ?_⟩,
            State.Over.append_iff.2 ⟨m, hover, hover'⟩⟩
          intro y hy
          rcases List.mem_cons.1 hy with rfl | hy
          · exact hxs
          · exact hS y hy
        · exact ⟨[], Language.nil_mem_kstar _, State.Over.nil_iff.2 rfl⟩
      · rintro ⟨_, hxs, hover⟩
        obtain ⟨S, rfl, hS⟩ := Language.mem_kstar.1 hxs
        cases S with
        | nil => exact Or.inr (State.Over.nil_iff.1 hover)
        | cons xs S =>
            obtain ⟨m, hm, hst'⟩ := State.Over.append_iff.1 hover
            have hmem : m ∈ ends r st := (h st m).2 ⟨xs, hS xs List.mem_cons_self, hm⟩
            obtain ⟨hne, hlen⟩ := hround m hmem
            refine Or.inl ⟨m, hmem, (ih hne hlen).2 ⟨S.flatten, ?_, hst'⟩⟩
            exact Language.mem_kstar.2 ⟨S, rfl, fun y hy => hS y (List.mem_cons_of_mem _ hy)⟩

/-- **Any number of rounds** of a pattern that always moves is the star of its language. -/
theorem denotes_star {r : Regex} {L : Language Char} (h : Denotes r L) (hL : [] ∉ L) :
    Denotes (.loop r 0 none .greedy) L∗ := by
  intro st st'
  refine mem_greedyEnds_star h hL (by simp) ?_
  simp only [roundBound]
  omega

/-! ## Ways of writing -/

section Written

variable {α β : Type} {f : α → List Char} {g : β → List Char} {r : Regex} {rs : List Regex}

/-- The language of what a way of writing gives. -/
def written (f : α → List Char) : Language Char := texts fun xs => ∃ a, f a = xs

theorem mem_written {xs : List Char} : xs ∈ written f ↔ ∃ a, f a = xs := Iff.rfl

theorem denotes_written_singleton (hr : Denotes r (written f)) : Denotes (ofList [r]) (written f) := hr

theorem denotes_written_literal (cs : List Char) : Denotes (literal cs) (written fun _ : Unit => cs) := by
  apply (denotes_literal cs).congr
  intro xs
  rw [mem_texts, mem_written, exists_const, eq_comm]

/-- What is written one after the other is read by one pattern after the other. -/
theorem denotes_written_cons (hr : Denotes r (written f)) (hrs : Denotes (ofList rs) (written g)) :
    Denotes (ofList (r :: rs)) (written fun p : α × β => f p.1 ++ g p.2) := by
  apply (denotes_ofList_cons hr hrs).congr
  intro xs
  simp only [Language.mem_mul, mem_written, Prod.exists]
  constructor
  · rintro ⟨_, ⟨a, rfl⟩, _, ⟨b, rfl⟩, rfl⟩
    exact ⟨a, b, rfl⟩
  · rintro ⟨a, b, rfl⟩
    exact ⟨_, ⟨a, rfl⟩, _, ⟨b, rfl⟩, rfl⟩

/-- A given text in front leaves nothing to choose. -/
theorem denotes_literal_cons (cs : List Char) (hrs : Denotes (ofList rs) (written g)) :
    Denotes (ofList (literal cs :: rs)) (written fun b => cs ++ g b) := by
  apply (denotes_ofList_cons (denotes_literal cs) hrs).congr
  intro xs
  simp only [Language.mem_mul, mem_texts, mem_written, exists_eq_left]
  constructor
  · rintro ⟨_, ⟨b, rfl⟩, rfl⟩
    exact ⟨b, rfl⟩
  · rintro ⟨b, rfl⟩
    exact ⟨_, ⟨b, rfl⟩, rfl⟩

end Written

end ServiceKeys.Regex
