import ServiceKeys.Proofs.Regex.Search
import ServiceKeys.Proofs.Text.Cut

/-!
# Matching between two texts

A cursor stands between what was read and what is left (`Cursor.between`).  Each pattern says what can
be cut off the text that is left: a word with conditions on its surroundings, a group that remembers
what it moved over, a place at an edge.  Where a pattern can end in several ways, the first of them is
preferred (`preferred`); for a run of characters this is the longest one.
-/

namespace ServiceKeys.Regex

open Text Computability

/-! ## Cursors between two texts -/

/-- The cursor between two texts. -/
def Cursor.between (front rest : List Char) : Cursor := ⟨front.reverse, rest, front.length⟩

theorem Cursor.inside_eq_between {content : List Char} {i : Nat} (hi : i ≤ content.length) :
    Cursor.inside content i = .between (content.take i) (content.drop i) := by
  rw [inside, between, List.length_take, Nat.min_eq_left hi]

theorem Cursor.inside_append (front rest : List Char) :
    Cursor.inside (front ++ rest) front.length = .between front rest := by
  rw [inside, between, List.take_left, List.drop_left]

theorem Cursor.over_between_iff {front rest xs : List Char} {b : Cursor} :
    (Cursor.between front rest).Over xs b ↔
      ∃ more, rest = xs ++ more ∧ b = .between (front ++ xs) more := by
  rw [← Cursor.inside_append, Cursor.over_inside_iff, List.drop_left]
  constructor
  · rintro ⟨⟨more, rfl⟩, rfl⟩
    refine ⟨more, rfl, ?_⟩
    rw [← List.append_assoc, ← List.length_append, Cursor.inside_append]
  · rintro ⟨more, rfl, rfl⟩
    refine ⟨List.prefix_append _ _, ?_⟩
    rw [← List.append_assoc, ← List.length_append, Cursor.inside_append]

theorem clear_between {s : CharSet} {front rest : List Char} :
    Clear s (Cursor.between front rest).before ↔ ∀ c ∈ front.getLast?, s.accepts c = false := by
  rw [Clear, Cursor.between, List.head?_reverse]

/-! ## Words and groups -/

/-- A text between two conditions on what stands around it. -/
theorem mem_ends_word {before after : CharSet} {cs : List Char} {st st' : State} :
    st' ∈ ends (ofList (notAfter before :: (cs.map .char ++ [notBefore after]))) st ↔
      Clear before st.cursor.before ∧ st.Over cs st' ∧ Clear after st'.cursor.after := by
  rw [mem_ends_ofList_cons]
  constructor
  · rintro ⟨m, hm, hword⟩
    obtain ⟨rfl, hbefore⟩ := mem_ends_notAfter.1 hm
    obtain ⟨n, hn, hst'⟩ := mem_ends_ofList_append.1 hword
    obtain ⟨rfl, hafter⟩ := mem_ends_notBefore.1 hst'
    obtain ⟨_, rfl, hover⟩ := (denotes_literal cs _ _).1 hn
    exact ⟨hbefore, hover, hafter⟩
  · rintro ⟨hbefore, hover, hafter⟩
    refine ⟨st, mem_ends_notAfter.2 ⟨rfl, hbefore⟩, mem_ends_ofList_append.2 ⟨st', ?_, ?_⟩⟩
    · exact (denotes_literal cs _ _).2 ⟨cs, rfl, hover⟩
    · exact mem_ends_notBefore.2 ⟨rfl, hafter⟩

/-- A group remembers the text that its pattern moved over. -/
theorem Denotes.mem_ends_group {r : Regex} {L : Language Char} (h : Denotes r L) {i : Nat}
    {st st' : State} (hst' : st' ∈ ends (.group i r) st) :
    ∃ xs ∈ L, st.cursor.Over xs st'.cursor ∧
      ∃ c, st'.captures = (i, c) :: st.captures ∧ c.text = xs := by
  obtain ⟨m, hm, rfl⟩ := Regex.mem_ends_group.1 hst'
  obtain ⟨xs, hxs, hover, hcaptures⟩ := (h st m).1 hm
  refine ⟨xs, hxs, hover, ⟨st.cursor, m.cursor.pos⟩, ?_, ?_⟩
  · rw [State.close, hcaptures]
  · show st.cursor.after.take (m.cursor.pos - st.cursor.pos) = xs
    rw [hover.pos_eq, Nat.add_sub_cancel_left, hover.after_eq, List.take_left]

theorem Denotes.exists_mem_ends_group {r : Regex} {L : Language Char} (h : Denotes r L) {i : Nat}
    {st : State} {xs : List Char} {cur : Cursor} (hxs : xs ∈ L) (hover : st.cursor.Over xs cur) :
    ∃ st' ∈ ends (.group i r) st, st'.cursor = cur := by
  refine ⟨(st.moved cur).close i st.cursor, ?_, rfl⟩
  exact Regex.mem_ends_group.2 ⟨st.moved cur, (h st _).2 ⟨xs, hxs, hover, rfl⟩, rfl⟩

/-! ## One pattern after the other -/

section Sequence

variable {r : Regex} {rs : List Regex} {L : Language Char} {front text xs more : List Char}
  {caps : List (Nat × Capture)} {st st' : State} {i : Nat}

/-- What a group remembers after it moved over a text. -/
def captureOf (front xs more : List Char) : Capture :=
  ⟨.between front (xs ++ more), (front ++ xs).length⟩

@[simp] theorem captureOf_text (front xs more : List Char) : (captureOf front xs more).text = xs := by
  simp [captureOf, Capture.text, Cursor.between]

@[simp] theorem capture?_cons (cur : Cursor) (caps : List (Nat × Capture)) (i j : Nat) (c : Capture) :
    State.capture? ⟨cur, (j, c) :: caps⟩ i = if i = j then some c else State.capture? ⟨cur, caps⟩ i := by
  by_cases h : i = j
  · simp [State.capture?, List.lookup, h]
  · simp [State.capture?, List.lookup, h, beq_eq_false_iff_ne.2 h]

theorem mem_ends_ofList_nil : st' ∈ ends (ofList []) st ↔ st' = st := List.mem_singleton

theorem Denotes.mem_ends_between (h : Denotes r L) :
    st' ∈ ends r ⟨.between front text, caps⟩ ↔
      ∃ xs ∈ L, ∃ more, text = xs ++ more ∧ st' = ⟨.between (front ++ xs) more, caps⟩ := by
  rw [h]
  constructor
  · rintro ⟨xs, hxs, hover, hcaps⟩
    obtain ⟨more, hmore, hcursor⟩ := Cursor.over_between_iff.1 hover
    rcases st' with ⟨cur, caps'⟩
    obtain rfl : caps' = caps := hcaps
    obtain rfl : cur = _ := hcursor
    exact ⟨xs, hxs, more, hmore, rfl⟩
  · rintro ⟨xs, hxs, more, hmore, rfl⟩
    exact ⟨xs, hxs, Cursor.over_between_iff.2 ⟨more, hmore, rfl⟩, rfl⟩

theorem Denotes.mem_ends_cons (h : Denotes r L) :
    st' ∈ ends (ofList (r :: rs)) ⟨.between front text, caps⟩ ↔
      ∃ xs ∈ L, ∃ more, text = xs ++ more ∧
        st' ∈ ends (ofList rs) ⟨.between (front ++ xs) more, caps⟩ := by
  simp only [mem_ends_ofList_cons, h.mem_ends_between]
  constructor
  · rintro ⟨_, ⟨xs, hxs, more, hmore, rfl⟩, hst'⟩
    exact ⟨xs, hxs, more, hmore, hst'⟩
  · rintro ⟨xs, hxs, more, hmore, hst'⟩
    exact ⟨_, ⟨xs, hxs, more, hmore, rfl⟩, hst'⟩

theorem Denotes.mem_ends_group_cons (h : Denotes r L) :
    st' ∈ ends (ofList (.group i r :: rs)) ⟨.between front text, caps⟩ ↔
      ∃ xs ∈ L, ∃ more, text = xs ++ more ∧
        st' ∈ ends (ofList rs) ⟨.between (front ++ xs) more, (i, captureOf front xs more) :: caps⟩ := by
  simp only [mem_ends_ofList_cons, Regex.mem_ends_group, h.mem_ends_between]
  constructor
  · rintro ⟨_, ⟨_, ⟨xs, hxs, more, rfl, rfl⟩, rfl⟩, hst'⟩
    exact ⟨xs, hxs, more, rfl, hst'⟩
  · rintro ⟨xs, hxs, more, rfl, hst'⟩
    exact ⟨_, ⟨_, ⟨xs, hxs, more, rfl, rfl⟩, rfl⟩, hst'⟩

theorem mem_ends_notAfter_cons {s : CharSet} :
    st' ∈ ends (ofList (notAfter s :: rs)) ⟨.between front text, caps⟩ ↔
      (∀ c ∈ front.getLast?, s.accepts c = false) ∧
        st' ∈ ends (ofList rs) ⟨.between front text, caps⟩ := by
  simp only [mem_ends_ofList_cons, mem_ends_notAfter, clear_between, and_assoc, exists_eq_left]

theorem mem_ends_anchor_cons {a : Anchor} :
    st' ∈ ends (ofList (.anchor a :: rs)) ⟨.between front text, caps⟩ ↔
      a.holds (.between front text) = true ∧
        st' ∈ ends (ofList rs) ⟨.between front text, caps⟩ := by
  rw [mem_ends_ofList_cons]
  cases hholds : a.holds (.between front text) <;> simp [ends, hholds]

theorem mem_ends_alt_cons {a b : Regex} :
    st' ∈ ends (ofList (.alt a b :: rs)) st ↔
      st' ∈ ends (ofList (a :: rs)) st ∨ st' ∈ ends (ofList (b :: rs)) st := by
  simp only [mem_ends_ofList_cons, ends, List.mem_append, or_and_right, exists_or]

theorem mem_ends_ofList_ofList {as : List Regex} :
    st' ∈ ends (ofList (ofList as :: rs)) st ↔ st' ∈ ends (ofList (as ++ rs)) st := by
  rw [mem_ends_ofList_cons, mem_ends_ofList_append]

theorem mem_ends_recall_cons {c : Capture} (h : caps.lookup i = some c) :
    st' ∈ ends (ofList (.recall i .exact :: rs)) ⟨.between front text, caps⟩ ↔
      ∃ more, text = c.text ++ more ∧
        st' ∈ ends (ofList rs) ⟨.between (front ++ c.text) more, caps⟩ := by
  have hcapture : State.capture? ⟨.between front text, caps⟩ i = some c := h
  simp only [mem_ends_ofList_cons, mem_ends_recall, hcapture]
  constructor
  · rintro ⟨⟨cur, caps'⟩, ⟨_, hc, hover, hcaps⟩, hst'⟩
    obtain rfl := Option.some.inj hc
    obtain rfl : caps' = caps := hcaps
    obtain ⟨more, hmore, rfl⟩ := Cursor.over_between_iff.1 hover
    exact ⟨more, hmore, hst'⟩
  · rintro ⟨more, hmore, hst'⟩
    have hover : State.Over ⟨.between front text, caps⟩ c.text
        ⟨.between (front ++ c.text) more, caps⟩ :=
      ⟨Cursor.over_between_iff.2 ⟨more, hmore, rfl⟩, rfl⟩
    exact ⟨_, ⟨c, rfl, hover⟩, hst'⟩

/-- An edge of a word: on exactly one side there is a word character. -/
theorem wordEdge_holds_iff : Anchor.holds (.wordEdge false false) (.between front text) = true ↔
    front.getLast?.any isWord ≠ text.head?.any isWord := by
  have hword : Category.word.holds false = isWord := rfl
  simp only [Anchor.holds, Cursor.between, List.head?_reverse, hword]
  cases front <;> cases text <;> simp

theorem lastLineEnd_holds_iff :
    Anchor.holds .lastLineEnd (.between front text) = true ↔ text = [] ∨ text = ['\n'] := by
  simp [Anchor.holds, Cursor.between]

end Sequence

/-! ## Patterns that fit -/

section Fits

variable {r : Regex} {rs : List Regex} {L : Language Char} {front xs more : List Char}
  {caps : List (Nat × Capture)} {st : State} {i : Nat}

/-- A pattern can be matched here. -/
def Fits (r : Regex) (st : State) : Prop := ∃ st', st' ∈ ends r st

theorem fits_ofList_nil : Fits (ofList []) st := ⟨st, mem_ends_ofList_nil.2 rfl⟩

theorem Denotes.fits_cons (h : Denotes r L) (hxs : xs ∈ L)
    (hfits : Fits (ofList rs) ⟨.between (front ++ xs) more, caps⟩) :
    Fits (ofList (r :: rs)) ⟨.between front (xs ++ more), caps⟩ :=
  hfits.imp fun _ hst => h.mem_ends_cons.2 ⟨xs, hxs, more, rfl, hst⟩

theorem Denotes.fits_group_cons (h : Denotes r L) (hxs : xs ∈ L)
    (hfits : Fits (ofList rs)
      ⟨.between (front ++ xs) more, (i, captureOf front xs more) :: caps⟩) :
    Fits (ofList (.group i r :: rs)) ⟨.between front (xs ++ more), caps⟩ :=
  hfits.imp fun _ hst => h.mem_ends_group_cons.2 ⟨xs, hxs, more, rfl, hst⟩

/-- Blanks need not be there. -/
theorem fits_blanks_cons (hfits : Fits (ofList rs) ⟨.between front more, caps⟩) :
    Fits (ofList (blanks :: rs)) ⟨.between front more, caps⟩ := by
  refine hfits.imp fun _ hst => denotes_blanks.mem_ends_cons.2 ⟨[], ?_, more, rfl, ?_⟩
  · simp [mem_texts, Blanks]
  · rwa [List.append_nil]

theorem fits_notAfter_cons {s : CharSet} (hfront : ∀ c ∈ front.getLast?, s.accepts c = false)
    (hfits : Fits (ofList rs) ⟨.between front more, caps⟩) :
    Fits (ofList (notAfter s :: rs)) ⟨.between front more, caps⟩ :=
  hfits.imp fun _ hst => mem_ends_notAfter_cons.2 ⟨hfront, hst⟩

theorem fits_anchor_cons {a : Anchor} (ha : a.holds (.between front more) = true)
    (hfits : Fits (ofList rs) ⟨.between front more, caps⟩) :
    Fits (ofList (.anchor a :: rs)) ⟨.between front more, caps⟩ :=
  hfits.imp fun _ hst => mem_ends_anchor_cons.2 ⟨ha, hst⟩

theorem fits_anchor_iff {a : Anchor} : Fits (.anchor a) st ↔ a.holds st.cursor = true := by
  cases hholds : a.holds st.cursor <;> simp [Fits, ends, hholds]

theorem fits_alt_cons {a b : Regex} :
    Fits (ofList (.alt a b :: rs)) st ↔ Fits (ofList (a :: rs)) st ∨ Fits (ofList (b :: rs)) st := by
  simp only [Fits, mem_ends_alt_cons, exists_or]

theorem fits_ofList_ofList {as : List Regex} :
    Fits (ofList (ofList as :: rs)) st ↔ Fits (ofList (as ++ rs)) st := by
  simp only [Fits, mem_ends_ofList_ofList]

end Fits

/-! ## The preferred end -/

section Preferred

variable {r : Regex} {rs rs' : List Regex} {s : CharSet} {st st' m : State}
  {caps : List (Nat × Capture)} {front xs rest : List Char}

/-- The end that a pattern prefers. -/
def preferred (r : Regex) (st : State) : Option State := (ends r st).head?

theorem mem_ends_of_preferred (h : preferred r st = some m) : m ∈ ends r st := List.mem_of_head? h

theorem Fits.exists_preferred (h : Fits r st) : ∃ m, preferred r st = some m := by
  obtain ⟨st', hst'⟩ := h
  cases hends : ends r st with
  | nil => simp [hends] at hst'
  | cons m _ => exact ⟨m, by rw [preferred, hends]; rfl⟩

theorem preferred_eq_none (h : ∀ m, m ∉ ends r st) : preferred r st = none := by
  rw [preferred, List.eq_nil_iff_forall_not_mem.2 h]
  rfl

/-- The only end is the preferred one. -/
theorem preferred_of_unique (hm : m ∈ ends r st) (h : ∀ m' ∈ ends r st, m' = m) :
    preferred r st = some m := by
  obtain ⟨m', hm'⟩ := Fits.exists_preferred ⟨m, hm⟩
  rw [hm', h m' (mem_ends_of_preferred hm')]

theorem preferred_ofList_cons (hr : preferred r st = some m) (hfits : Fits (ofList rs) m) :
    preferred (ofList (r :: rs)) st = preferred (ofList rs) m := by
  obtain ⟨others, hothers⟩ : ∃ others, ends r st = m :: others := by
    cases h : ends r st with
    | nil => simp [preferred, h] at hr
    | cons m₀ others =>
        obtain rfl : m₀ = m := by simpa [preferred, h] using hr
        exact ⟨others, rfl⟩
  obtain ⟨more, hmore⟩ := hfits.exists_preferred
  rw [preferred] at hmore
  rw [preferred, preferred, ends_ofList_cons, hothers, List.flatMap_cons, List.head?_append, hmore]
  rfl

/-- The preferred end of two lists of patterns is the preferred end of the second from some end of the
first. -/
theorem exists_preferred_of_append (h : preferred (ofList (rs ++ rs')) st = some st') :
    ∃ m ∈ ends (ofList rs) st, preferred (ofList rs') m = some st' := by
  rw [preferred, ends_ofList_append, ← findSome?_some, findSome?_flatMap] at h
  obtain ⟨m, hm, hst'⟩ := List.exists_of_findSome?_eq_some h
  rw [findSome?_some] at hst'
  exact ⟨m, hm, hst'⟩

/-- Matching a list of patterns comes down to matching what is left of it further on. -/
def ComesTo (rs : List Regex) (st : State) (rs' : List Regex) (st' : State) : Prop :=
  Fits (ofList rs') st' →
    Fits (ofList rs) st ∧ preferred (ofList rs) st = preferred (ofList rs') st'

theorem ComesTo.trans {rs rs' rs'' : List Regex} {st st' st'' : State}
    (h : ComesTo rs st rs' st') (h' : ComesTo rs' st' rs'' st'') : ComesTo rs st rs'' st'' := by
  intro hfits
  obtain ⟨hfits', heq'⟩ := h' hfits
  obtain ⟨hfits'', heq⟩ := h hfits'
  exact ⟨hfits'', heq.trans heq'⟩

/-- If the preferred end of the first pattern leads on, no other is tried. -/
theorem comesTo_cons (hr : preferred r st = some m) : ComesTo (r :: rs) st rs m := by
  intro hfits
  refine ⟨?_, preferred_ofList_cons hr hfits⟩
  exact hfits.imp fun m' hm' => mem_ends_ofList_cons.2 ⟨m, mem_ends_of_preferred hr, hm'⟩

theorem preferred_notAfter (h : ∀ c ∈ front.getLast?, s.accepts c = false) :
    preferred (notAfter s) ⟨.between front rest, caps⟩ = some ⟨.between front rest, caps⟩ := by
  refine preferred_of_unique (mem_ends_notAfter.2 ⟨rfl, clear_between.2 h⟩) fun m' hm' => ?_
  exact (mem_ends_notAfter.1 hm').1

theorem preferred_alt {a b : Regex} (h : preferred a st = some m) :
    preferred (.alt a b) st = some m := by
  rw [preferred] at h
  rw [preferred, ends, List.head?_append, h]
  rfl

theorem preferred_maybe (h : preferred r st = some m) : preferred (maybe r) st = some m := by
  rw [preferred] at h
  rw [preferred, ends_maybe, List.head?_append, h]
  rfl

theorem preferred_maybe_none (h : ¬ Fits r st) : preferred (maybe r) st = some st := by
  rw [preferred, ends_maybe, List.eq_nil_iff_forall_not_mem.2 fun m hm => h ⟨m, hm⟩]
  rfl

theorem preferred_anchor {a : Anchor} (h : a.holds st.cursor = true) :
    preferred (.anchor a) st = some st := by
  simp [preferred, ends, h]

theorem preferred_literal {cs : List Char} :
    preferred (literal cs) ⟨.between front (cs ++ rest), caps⟩ =
      some ⟨.between (front ++ cs) rest, caps⟩ := by
  refine preferred_of_unique ((denotes_literal cs).mem_ends_between.2 ⟨cs, rfl, rest, rfl, rfl⟩) ?_
  intro m' hm'
  obtain ⟨_, rfl, more, hmore, rfl⟩ := (denotes_literal cs).mem_ends_between.1 hm'
  rw [List.append_cancel_left hmore]

/-- A greedy run prefers to take all the characters that it can. -/
theorem preferred_span {lo : Nat} (hxs : ∀ c ∈ xs, s.accepts c = true)
    (hlo : lo ≤ xs.length) (hrest : ∀ c ∈ rest.head?, s.accepts c = false) :
    preferred (.span s lo none .greedy) ⟨.between front (xs ++ rest), caps⟩ =
      some ⟨.between (front ++ xs) rest, caps⟩ := by
  have hdenotes : Denotes (.span s lo none .greedy) _ := denotes_span s lo none (by decide)
  have hmem : (⟨.between (front ++ xs) rest, caps⟩ : State) ∈
      ends (.span s lo none .greedy) ⟨.between front (xs ++ rest), caps⟩ :=
    hdenotes.mem_ends_between.2 ⟨xs, ⟨hxs, hlo, by simp [Within]⟩, rest, rfl, rfl⟩
  obtain ⟨m, hm⟩ := Fits.exists_preferred ⟨_, hmem⟩
  -- the ends come nearer, and none is farther than this one
  have hpairwise : (ends (.span s lo none .greedy) ⟨.between front (xs ++ rest), caps⟩).Pairwise
      fun a b => b.cursor.pos < a.cursor.pos :=
    List.pairwise_map.2 ((pairwise_stopsGo .nil (by simp)).sublist (List.takeWhile_sublist _))
  have hfarthest : m.cursor.pos ≤ (front ++ xs).length := by
    obtain ⟨ys, ⟨hys, -, -⟩, more, hmore, rfl⟩ :=
      hdenotes.mem_ends_between.1 (mem_ends_of_preferred hm)
    show (front ++ ys).length ≤ (front ++ xs).length
    rcases append_cases hmore with ⟨as, rfl, rfl⟩ | ⟨as, -, rfl, -⟩
    · cases as with
      | nil => simp
      | cons c as =>
          have hc := hys c (by simp)
          rw [hrest c rfl] at hc
          exact absurd hc Bool.false_ne_true
    · simp
  rw [hm]
  cases hends : ends (.span s lo none .greedy) ⟨.between front (xs ++ rest), caps⟩ with
  | nil => simp [hends] at hmem
  | cons m₀ others =>
      obtain rfl : m₀ = m := by simpa [preferred, hends] using hm
      rw [hends] at hmem hpairwise
      rcases List.mem_cons.1 hmem with heq | hother
      · rw [heq]
      · have hlt := (List.pairwise_cons.1 hpairwise).1 _ hother
        exact absurd hlt (Nat.not_lt.2 hfarthest)

theorem preferred_group (i : Nat) (r : Regex) (st : State) :
    preferred (.group i r) st = (preferred r st).map fun st' => st'.close i st.cursor :=
  List.head?_map

theorem preferred_one {c : Char} (h : s.accepts c = true) :
    preferred (.one s) ⟨.between front (c :: rest), caps⟩ =
      some ⟨.between (front ++ [c]) rest, caps⟩ := by
  have hends : ∀ m, m ∈ ends (.one s) ⟨.between front (c :: rest), caps⟩ ↔
      m = ⟨.between (front ++ [c]) rest, caps⟩ := by
    intro m
    rw [(denotes_one s).mem_ends_between]
    constructor
    · rintro ⟨_, ⟨d, -, rfl⟩, more, hmore, rfl⟩
      obtain ⟨rfl, rfl⟩ := List.cons.inj hmore
      rfl
    · rintro rfl
      exact ⟨[c], ⟨c, h, rfl⟩, rest, rfl, rfl⟩
  exact preferred_of_unique ((hends _).2 rfl) fun m hm => (hends m).1 hm

/-- A reluctant run prefers to take nothing. -/
theorem preferred_reluctant (s : CharSet) (hi : Option Nat) (st : State) :
    preferred (.span s 0 hi .reluctant) st = some st := by
  rcases st with ⟨⟨before, after, pos⟩, caps⟩
  cases after with
  | nil => rfl
  | cons c after => rfl

/-! ### Matches -/

theorem matchStart?_eq (r : Regex) (text : List Char) :
    matchStart? r text = (preferred r ⟨.between [] text, []⟩).map (Match.mk (.between [] text)) :=
  matchAt_false r _

theorem matchInside_append (r : Regex) (front rest : List Char) :
    matchInside r (front ++ rest) front.length =
      (preferred r ⟨.between front rest, []⟩).map (Match.mk (.between front rest)) := by
  rw [matchInside, Cursor.inside_append, matchAt_false]
  rfl

theorem matchInside_of_preferred (h : preferred r ⟨.between front rest, []⟩ = some st) :
    matchInside r (front ++ rest) front.length = some ⟨.between front rest, st⟩ := by
  rw [matchInside_append, h]
  rfl

/-- A pattern that fits matches, and the match ends in one of the ends. -/
theorem Fits.exists_matchInside (h : Fits r ⟨.between front rest, []⟩) :
    ∃ st ∈ ends r ⟨.between front rest, []⟩,
      matchInside r (front ++ rest) front.length = some ⟨.between front rest, st⟩ := by
  obtain ⟨st, hst⟩ := h.exists_preferred
  exact ⟨st, mem_ends_of_preferred hst, matchInside_of_preferred hst⟩

theorem Fits.exists_matchStart? {text : List Char} (h : Fits r ⟨.between [] text, []⟩) :
    ∃ st ∈ ends r ⟨.between [] text, []⟩, matchStart? r text = some ⟨.between [] text, st⟩ := by
  obtain ⟨st, hst⟩ := h.exists_preferred
  exact ⟨st, mem_ends_of_preferred hst, by rw [matchStart?_eq, hst]; rfl⟩

theorem matchStart?_eq_none {text : List Char} (h : ¬ Fits r ⟨.between [] text, []⟩) :
    matchStart? r text = none := by
  rw [matchStart?_eq, preferred_eq_none fun st hst => h ⟨st, hst⟩]
  rfl

theorem isSome_matchStart?_iff {text : List Char} :
    (matchStart? r text).isSome = true ↔ Fits r ⟨.between [] text, []⟩ := by
  constructor
  · intro hsome
    by_contra hfits
    simp [matchStart?_eq_none hfits] at hsome
  · intro hfits
    obtain ⟨st, -, hst⟩ := hfits.exists_matchStart?
    rw [hst]
    rfl

/-- Nothing matches at an offset where the pattern does not fit. -/
theorem matchInside_eq_none {text : List Char} {l : Nat} (hl : l ≤ text.length)
    (h : ∀ front rest, text = front ++ rest → front.length = l → ¬ Fits r ⟨.between front rest, []⟩) :
    matchInside r text l = none := by
  have hcut := (List.take_append_drop l text).symm
  have hlength : (text.take l).length = l := by rw [List.length_take, Nat.min_eq_left hl]
  have hmatch := matchInside_append r (text.take l) (text.drop l)
  rw [← hcut, hlength] at hmatch
  rw [hmatch, preferred_eq_none fun st hst => h _ _ hcut hlength ⟨st, hst⟩]
  rfl

/-- The leftmost match is the one that a search finds. -/
theorem search?_eq_some {text : List Char} {i : Nat} {m : Match} (hi : i ≤ text.length)
    (hm : matchInside r text i = some m) (hnone : ∀ l < i, matchInside r text l = none) :
    search? r text = some m := by
  rw [search?, Cursor.start_eq, searchFrom_inside (Nat.zero_le _), List.findSome?_eq_some_iff]
  refine ⟨List.range' 0 i, i, List.range' (i + 1) (text.length - i), ?_, hm, ?_⟩
  · have hsplit : List.range' 0 i ++ List.range' (0 + i) (text.length - i + 1) =
        List.range' 0 (i + (text.length - i + 1)) := List.range'_append_1
    rw [Nat.zero_add] at hsplit
    rw [← List.range'_succ, hsplit]
    congr 1
    omega
  · intro l hl
    exact hnone l (by simpa using hl)

theorem search?_eq_none {text : List Char} (hnone : ∀ l ≤ text.length, matchInside r text l = none) :
    search? r text = none := by
  rw [search?, Cursor.start_eq, searchFrom_inside (Nat.zero_le _), List.findSome?_eq_none_iff]
  intro l hl
  rw [List.mem_range'_1] at hl
  exact hnone l (by omega)

/-- What a search finds is a match, and no other one begins before it. -/
theorem of_search? {text : List Char} {m : Match} (h : search? r text = some m) :
    ∃ i ≤ text.length, matchInside r text i = some m ∧ ∀ l < i, matchInside r text l = none := by
  have hex : ∃ i, i ≤ text.length ∧ (matchInside r text i).isSome = true := by
    by_contra hnone
    rw [search?_eq_none fun l hl => ?_] at h
    · simp at h
    · by_contra hl'
      exact hnone ⟨l, hl, Option.isSome_iff_ne_none.2 hl'⟩
  obtain ⟨hle, hsome⟩ := Nat.find_spec hex
  obtain ⟨m', hm'⟩ := Option.isSome_iff_exists.1 hsome
  have hfirst : ∀ l < Nat.find hex, matchInside r text l = none := by
    intro l hl
    by_contra hl'
    exact Nat.find_min hex hl ⟨hl.le.trans hle, Option.isSome_iff_ne_none.2 hl'⟩
  rw [search?_eq_some hle hm' hfirst] at h
  obtain rfl := Option.some.inj h
  exact ⟨_, hle, hm', hfirst⟩

theorem findAll_eq_nil {text : List Char} (h : search? r text = none) : findAll r text = [] := by
  rw [findAll, findAllGo, show searchFrom r false (.start text) = none from h]

end Preferred

end ServiceKeys.Regex
