import ServiceKeys.Regex.Parser

/-!
# Reading patterns

How the reader of written patterns gets through a text, one construct at a time.  `Reads` says that
reading comes from some tokens and the items read so far to fewer tokens and more items, whatever
stands in front and behind; it is the step relation of `alternatives`, without fuel and offsets.
There is one rule for each construct: a character, an escape, a set, a repetition, a look to either
side, and a group.
-/

namespace ServiceKeys.Regex

open Reader

/-! ## The reader monad -/

theorem bind_of_ok {α β : Type} {r : Reader α} {f : α → Reader β} {st st' : Progress} {a : α}
    (h : r st = .ok (a, st')) : (r >>= f) st = f a st' := by
  show Except.bind (r st) _ = _
  rw [h]
  rfl

/-- The state that faces the given tokens at an offset. -/
def Progress.facing (st : Progress) (ts : List Token) (offset : Nat) : Progress :=
  { st with rest := ts, offset }

/-- No backslash without a character behind it comes next. -/
def Whole (ts : List Token) : Prop := ts.head? ≠ some .dangling

theorem whole_nil : Whole [] := by simp [Whole]

theorem whole_plain (c : Char) (ts : List Token) : Whole (.plain c :: ts) := by simp [Whole]

theorem whole_escaped (c : Char) (ts : List Token) : Whole (.escaped c :: ts) := by simp [Whole]

section Primitives

variable {st : Progress} {t : Token} {ts : List Token} {o : Nat}

theorem get_self : (get : Reader Progress) st = .ok (st, st) := rfl

theorem modify_self {f : Progress → Progress} : (modify f : Reader Unit) st = .ok ((), f st) := rfl

theorem peek_facing : peek (st.facing ts o) = .ok (ts.head?, st.facing ts o) := rfl

theorem offset_facing : offset (st.facing ts o) = .ok (o, st.facing ts o) := rfl

theorem take_facing (hts : Whole ts) :
    take (st.facing (t :: ts) o) = .ok (some t, st.facing ts (o + t.width)) := by
  have hhead : (ts.head? == some .dangling) = false := beq_eq_false_iff_ne.2 hts
  show (if ts.head? == some .dangling then (throw _ : Reader (Option Token)) else _) _ = _
  rw [hhead]
  rfl

theorem accept_facing {c : Char} (hts : Whole ts) :
    accept c (st.facing (.plain c :: ts) o) = .ok (true, st.facing ts (o + 1)) := by
  rw [accept, bind_of_ok peek_facing, List.head?_cons, beq_self_eq_true, if_pos rfl,
    bind_of_ok (take_facing hts)]
  rfl

theorem accept_facing_ne {c : Char} (h : ts.head? ≠ some (.plain c)) :
    accept c (st.facing ts o) = .ok (false, st.facing ts o) := by
  have hhead : (ts.head? == some (.plain c)) = false := beq_eq_false_iff_ne.2 h
  rw [accept, bind_of_ok peek_facing, hhead]
  rfl

end Primitives

/-! ## Steps -/

/-- Reading comes from some tokens and items to others, at any offset and with any fuel that the
tokens do not exceed. -/
structure Reads (scope : Scope) (st : Progress) (ts : List Token) (items : List Item)
    (st' : Progress) (ts' : List Token) (items' : List Item) : Prop where
  shorter : ts'.length ≤ ts.length
  step : ∀ n done o, ts.length < n → ∃ m o', ts'.length < m ∧
    alternatives n scope done items (st.facing ts o) =
      alternatives m scope done items' (st'.facing ts' o')

section Rules

variable {scope : Scope} {st st' st'' : Progress} {ts ts' ts'' : List Token}
  {items items' items'' : List Item}

theorem Reads.refl : Reads scope st ts items st ts items :=
  ⟨Nat.le_refl _, fun n _ o hn => ⟨n, o, hn, rfl⟩⟩

theorem Reads.trans (h : Reads scope st ts items st' ts' items')
    (h' : Reads scope st' ts' items' st'' ts'' items'') :
    Reads scope st ts items st'' ts'' items'' := by
  refine ⟨Nat.le_trans h'.shorter h.shorter, ?_⟩
  intro n done o hn
  obtain ⟨m, o', hm, heq⟩ := h.step n done o hn
  obtain ⟨l, o'', hl, heq'⟩ := h'.step m done o' hm
  exact ⟨l, o'', hl, heq.trans heq'⟩

/-- What reading does with a token that ends nothing: it takes it and looks at what it is. -/
theorem alternatives_cons {n : Nat} {done : List (List Item)} {t : Token} {o : Nat}
    (hclose : t ≠ .plain ')') (hsingle : scope.single = false) (hts : Whole ts) :
    alternatives (n + 1) scope done items (st.facing (t :: ts) o) =
      readToken (alternatives n) scope o t done items (st.facing ts (o + t.width)) := by
  have hcond : (t == .plain ')' || (scope.single && t == .plain '|')) = false := by
    rw [hsingle, Bool.false_and, Bool.or_false]
    exact beq_eq_false_iff_ne.2 hclose
  rw [alternatives, bind_of_ok peek_facing, List.head?_cons]
  simp only [hcond, Bool.false_eq_true, if_false]
  rw [bind_of_ok offset_facing, bind_of_ok (take_facing hts)]

/-- Reading stops in front of a closing parenthesis and at the end. -/
theorem alternatives_stop {n : Nat} {done : List (List Item)} {o : Nat}
    (h : ts = [] ∨ ∃ rest, ts = .plain ')' :: rest) :
    alternatives (n + 1) scope done items (st.facing ts o) =
      .ok (items :: done, st.facing ts o) := by
  rw [alternatives, bind_of_ok peek_facing]
  rcases h with rfl | ⟨rest, rfl⟩
  · rfl
  · simp only [List.head?_cons, beq_self_eq_true, Bool.true_or, if_true]
    rfl

/-- The scopes of patterns without flags and conditions. -/
structure Ordinary (scope : Scope) : Prop where
  flags : scope.flags = {}
  single : scope.single = false

theorem ordinary_inner : Ordinary { flags := {} } := ⟨rfl, rfl⟩

/-- One construct is one step, if what reads it goes on with the fuel that is left. -/
theorem reads_of_readToken {t : Token} (hscope : Ordinary scope) (hclose : t ≠ .plain ')')
    (hts : Whole ts) (hlength : ts'.length ≤ ts.length)
    (h : ∀ n done o start, ts.length < n → ∃ o', readToken (alternatives n) scope start t done items
      (st.facing ts o) = alternatives n scope done items' (st'.facing ts' o')) :
    Reads scope st (t :: ts) items st' ts' items' := by
  refine ⟨Nat.le_succ_of_le hlength, ?_⟩
  intro n done o hn
  obtain ⟨n, rfl⟩ : ∃ m, n = m + 1 := ⟨n - 1, by simp at hn; omega⟩
  have hn' : ts.length < n := by simpa using hn
  obtain ⟨o', heq⟩ := h n done (o + t.width) o hn'
  refine ⟨n, o', by omega, ?_⟩
  rw [alternatives_cons hclose hscope.single hts, heq]

/-! ## Characters -/

/-- The characters that mean something in a pattern. -/
def operators : List Char := [')', '|', '[', '?', '*', '+', '\x7b', '.', '^', '$', '(']

/-- **A character that means nothing else stands for itself.** -/
theorem reads_char {c : Char} (hscope : Ordinary scope) (hc : c ∉ operators) (hts : Whole ts) :
    Reads scope st (.plain c :: ts) items st ts (codeItem {} c.toNat :: items) := by
  simp only [operators, List.mem_cons, List.not_mem_nil, or_false, not_or] at hc
  refine reads_of_readToken hscope (by simp [hc]) hts (Nat.le_refl _) fun n done o start _ => ⟨o, ?_⟩
  show readPlain (alternatives n) scope start c done items _ = _
  simp only [readPlain, hscope.flags, hc, beq_iff_eq, Bool.false_and, Bool.false_eq_true, if_false,
    Bool.or_eq_true, or_self]

/-- **An escape stands for what it reads as.** -/
theorem reads_escaped {c : Char} {item : Item} (hscope : Ordinary scope) (hts : Whole ts)
    (h : ∀ st, escapeItem {} c st = .ok (item, st)) :
    Reads scope st (.escaped c :: ts) items st ts (item :: items) := by
  refine reads_of_readToken hscope (by simp) hts (Nat.le_refl _) fun n done o start _ => ⟨o, ?_⟩
  show (escapeItem scope.flags c >>= _) _ = _
  rw [hscope.flags, bind_of_ok (h _)]

theorem escapeItem_special {flags : Flags} {c : Char} (hc : isSpecial c = true) (st : Progress) :
    escapeItem flags c st = .ok (codeItem flags c.toNat, st) := by
  simp only [isSpecial, List.contains_iff_mem] at hc
  repeat' (rcases List.mem_cons.1 hc with rfl | hc; · rfl)
  exact absurd hc List.not_mem_nil

theorem escapeItem_blank (st : Progress) : escapeItem {} 's' st = .ok (⟨.one .blank, .other⟩, st) := rfl

/-! ## Sets -/

/-- Reading the members of a set comes from some tokens to those behind the set. -/
structure ReadsSet (ts : List Token) (members : List SetItem) (ts' : List Token)
    (members' : List SetItem) : Prop where
  shorter : ts'.length ≤ ts.length
  step : ∀ st start n o, ts.length < n → ∃ o',
    setItems {} start n members (Progress.facing st ts o) =
      .ok (members', Progress.facing st ts' o')

theorem readsSet_close {members : List SetItem} (hmembers : members ≠ []) (hts : Whole ts) :
    ReadsSet (.plain ']' :: ts) members ts members := by
  refine ⟨Nat.le_succ _, ?_⟩
  intro st start n o hn
  obtain ⟨n, rfl⟩ : ∃ m, n = m + 1 := ⟨n - 1, by simp at hn; omega⟩
  have hcond : ((Token.plain ']' == .plain ']') && !members.isEmpty) = true := by
    simpa using hmembers
  rw [setItems, bind_of_ok (take_facing hts)]
  simp only [hcond, if_true]
  exact ⟨_, rfl⟩

section Members

variable {t : Token} {atom : SetAtom} {members members' : List SetItem}

/-- A member of a set. -/
theorem readsSet_atom (hclose : t ≠ .plain ']') (hts : Whole ts)
    (hatom : ∀ st, setAtom t st = .ok (atom, st)) (hnext : ts.head? ≠ some (.plain '-'))
    (h : ReadsSet ts (members ++ [atom.item {}]) ts' members') :
    ReadsSet (t :: ts) members ts' members' := by
  refine ⟨Nat.le_succ_of_le h.shorter, ?_⟩
  intro st start n o hn
  obtain ⟨n, rfl⟩ : ∃ m, n = m + 1 := ⟨n - 1, by simp at hn; omega⟩
  have hcond : (t == .plain ']' && !members.isEmpty) = false := by
    rw [beq_eq_false_iff_ne.2 hclose, Bool.false_and]
  obtain ⟨o', heq⟩ := h.step st start n (o + t.width) (by simpa using hn)
  refine ⟨o', ?_⟩
  rw [setItems, bind_of_ok (take_facing hts)]
  simp only [hcond, Bool.false_eq_true, if_false]
  rw [bind_of_ok (hatom _), bind_of_ok (accept_facing_ne hnext)]
  exact heq

/-- A hyphen at the end of a set is a member. -/
theorem readsSet_hyphen (hclose : t ≠ .plain ']') (hts : Whole ts)
    (hatom : ∀ st, setAtom t st = .ok (atom, st)) :
    ReadsSet (t :: .plain '-' :: .plain ']' :: ts) members ts
      (members ++ [atom.item {}, .char '-']) := by
  refine ⟨by simp only [List.length_cons]; omega, ?_⟩
  intro st start n o hn
  obtain ⟨n, rfl⟩ : ∃ m, n = m + 1 := ⟨n - 1, by simp at hn; omega⟩
  have hcond : (t == .plain ']' && !members.isEmpty) = false := by
    rw [beq_eq_false_iff_ne.2 hclose, Bool.false_and]
  rw [setItems, bind_of_ok (take_facing (whole_plain _ _))]
  simp only [hcond, Bool.false_eq_true, if_false]
  rw [bind_of_ok (hatom _), bind_of_ok (accept_facing (whole_plain _ _))]
  simp only [Bool.not_true, Bool.false_eq_true, if_false]
  rw [bind_of_ok (take_facing hts)]
  exact ⟨_, rfl⟩

/-- A range of a set. -/
theorem readsSet_range {a b : Char} (ha : a ≠ ']') (hb : b ≠ ']') (hab : a.toNat ≤ b.toNat)
    (hts : Whole ts) (h : ReadsSet ts (members ++ [.range a.toNat b.toNat]) ts' members') :
    ReadsSet (.plain a :: .plain '-' :: .plain b :: ts) members ts' members' := by
  have hshorter := h.shorter
  refine ⟨by simp only [List.length_cons]; omega, ?_⟩
  intro st start n o hn
  obtain ⟨n, rfl⟩ : ∃ m, n = m + 1 := ⟨n - 1, by simp at hn; omega⟩
  have hcond : (Token.plain a == .plain ']' && !members.isEmpty) = false := by
    rw [beq_eq_false_iff_ne.2 (by simpa using ha), Bool.false_and]
  have hcond' : (Token.plain b == .plain ']') = false :=
    beq_eq_false_iff_ne.2 (by simpa using hb)
  obtain ⟨o', heq⟩ := h.step st start n (o + 1 + 1 + 1) (by simp at hn; omega)
  refine ⟨o', ?_⟩
  rw [setItems, bind_of_ok (take_facing (whole_plain _ _))]
  simp only [hcond, Bool.false_eq_true, if_false]
  rw [bind_of_ok (show setAtom (.plain a) _ = .ok (.code a.toNat, _) from rfl),
    bind_of_ok (accept_facing (whole_plain _ _))]
  simp only [Bool.not_true, Bool.false_eq_true, if_false]
  rw [bind_of_ok (take_facing hts)]
  simp only [hcond', Bool.false_eq_true, if_false]
  rw [bind_of_ok (show setAtom (.plain b) _ = .ok (.code b.toNat, _) from rfl)]
  simp only [Nat.not_lt.2 hab, if_false]
  exact heq

end Members

theorem reads_of_setItem {item : Item} (hscope : Ordinary scope) (hts : Whole ts)
    (hlength : ts'.length ≤ ts.length)
    (h : ∀ o, ∃ o', setItem {} (st.facing ts o) = .ok (item, st.facing ts' o')) :
    Reads scope st (.plain '[' :: ts) items st ts' (item :: items) := by
  apply reads_of_readToken hscope (by simp) hts hlength
  intro n done o start _
  have hread : readToken (alternatives n) scope start (.plain '[') done items =
      setItem {} >>= fun item => alternatives n scope done (item :: items) := by
    simp only [readToken, readPlain, hscope.flags]
    rfl
  obtain ⟨o', heq⟩ := h o
  exact ⟨o', by rw [hread, bind_of_ok heq]⟩

/-- **A set stands for its members.** -/
theorem reads_set {members : List SetItem} (hscope : Ordinary scope) (hts : Whole ts)
    (hnot : ts.head? ≠ some (.plain '^')) (h : ReadsSet ts [] ts' members) :
    Reads scope st (.plain '[' :: ts) items st ts'
      (⟨.one (.ofItems .exact false members), .other⟩ :: items) := by
  apply reads_of_setItem hscope hts h.shorter
  intro o
  obtain ⟨o', heq⟩ := h.step st (o - 1) (ts.length + 1) o (Nat.lt_succ_self _)
  refine ⟨o', ?_⟩
  rw [setItem, bind_of_ok offset_facing, bind_of_ok (accept_facing_ne hnot), bind_of_ok get_self]
  show (setItems {} (o - 1) (ts.length + 1) [] >>= _) _ = _
  rw [bind_of_ok heq]
  rfl

/-- A set that begins with a caret stands for what is not a member. -/
theorem reads_setNot {members : List SetItem} (hscope : Ordinary scope) (hts : Whole ts)
    (h : ReadsSet ts [] ts' members) :
    Reads scope st (.plain '[' :: .plain '^' :: ts) items st ts'
      (⟨.one (.ofItems .exact true members), .other⟩ :: items) := by
  apply reads_of_setItem hscope (whole_plain _ _) (Nat.le_succ_of_le h.shorter)
  intro o
  obtain ⟨o', heq⟩ := h.step st (o - 1) (ts.length + 1) (o + 1) (Nat.lt_succ_self _)
  refine ⟨o', ?_⟩
  rw [setItem, bind_of_ok offset_facing, bind_of_ok (accept_facing hts), bind_of_ok get_self]
  show (setItems {} (o - 1) (ts.length + 1) [] >>= _) _ = _
  rw [bind_of_ok heq]
  rfl

/-! ## Repetitions -/

/-- The marks of the repetitions that are read here, with their bounds. -/
inductive Mark : Char → Bounds → Prop
  | maybe : Mark '?' ⟨0, some 1⟩
  | many : Mark '*' ⟨0, none⟩

/-- No second mark follows that would change a repetition. -/
def Settled (ts : List Token) : Prop :=
  ts.head? ≠ some (.plain '?') ∧ ts.head? ≠ some (.plain '+')

theorem readToken_mark {q : Char} {b : Bounds} (hq : Mark q b) (hscope : Ordinary scope) {n start : Nat}
    {done : List (List Item)} :
    readToken (alternatives n) scope start (.plain q) done items =
      repeatItem start b items >>= alternatives n scope done := by
  cases hq with
  | maybe =>
      simp only [readToken, readPlain, hscope.flags]
      rfl
  | many =>
      simp only [readToken, readPlain, hscope.flags]
      rfl

/-- **A mark repeats the item before it**, as often as possible. -/
theorem reads_repeat {q : Char} {b : Bounds} {r : Regex} (hscope : Ordinary scope) (hq : Mark q b)
    (hts : Whole ts) (hsettled : Settled ts) :
    Reads scope st (.plain q :: ts) (⟨r, .other⟩ :: items) st ts
      (⟨repeated r b .greedy, .repeated⟩ :: items) := by
  have hclose : Token.plain q ≠ .plain ')' := by cases hq <;> decide
  refine reads_of_readToken hscope hclose hts (Nat.le_refl _) fun n done o start _ => ⟨o, ?_⟩
  have hmode : repeatMode (st.facing ts o) = .ok (.greedy, st.facing ts o) := by
    rw [repeatMode, bind_of_ok (accept_facing_ne hsettled.1)]
    show (accept '+' >>= _) _ = _
    rw [bind_of_ok (accept_facing_ne hsettled.2)]
    rfl
  rw [readToken_mark hq hscope]
  show ((repeatMode >>= _) >>= _) _ = _
  rw [bind_of_ok (show (repeatMode >>= _) _ = _ by rw [bind_of_ok hmode]; rfl)]

/-- A mark with a question mark behind it repeats the item before it as seldom as possible. -/
theorem reads_repeatReluctant {q : Char} {b : Bounds} {r : Regex} (hscope : Ordinary scope)
    (hq : Mark q b) (hts : Whole ts) :
    Reads scope st (.plain q :: .plain '?' :: ts) (⟨r, .other⟩ :: items) st ts
      (⟨repeated r b .reluctant, .repeated⟩ :: items) := by
  have hclose : Token.plain q ≠ .plain ')' := by cases hq <;> decide
  refine reads_of_readToken hscope hclose (whole_plain _ _) (Nat.le_succ _)
    fun n done o start _ => ⟨o + 1, ?_⟩
  have hmode : repeatMode (st.facing (.plain '?' :: ts) o) =
      .ok (.reluctant, st.facing ts (o + 1)) := by
    rw [repeatMode, bind_of_ok (accept_facing hts)]
    rfl
  rw [readToken_mark hq hscope]
  show ((repeatMode >>= _) >>= _) _ = _
  rw [bind_of_ok (show (repeatMode >>= _) _ = _ by rw [bind_of_ok hmode]; rfl)]

/-! ## Groups -/

/-- The inside of a group, read up to its closing parenthesis. -/
theorem alternatives_of_reads {n o : Nat} (hn : ts.length < n)
    (h : Reads scope st ts [] st' (.plain ')' :: ts') items) :
    ∃ o', alternatives n scope [] [] (st.facing ts o) =
      .ok ([items], st'.facing (.plain ')' :: ts') o') := by
  obtain ⟨m, o', hm, heq⟩ := h.step n [] o hn
  obtain ⟨m, rfl⟩ : ∃ l, m = l + 1 := ⟨m - 1, by simp at hm; omega⟩
  exact ⟨o', heq.trans (alternatives_stop (Or.inr ⟨ts', rfl⟩))⟩

theorem closeParen_facing {start o : Nat} (hts : Whole ts) :
    closeParen start (st.facing (.plain ')' :: ts) o) = .ok ((), st.facing ts (o + 1)) := by
  rw [closeParen, bind_of_ok (accept_facing hts)]
  rfl

theorem readToken_paren (hscope : Ordinary scope) {n start : Nat} {done : List (List Item)} :
    readToken (alternatives n) scope start (.plain '(') done items =
      readGroup (alternatives n) scope start done items := by
  simp only [readToken, readPlain, hscope.flags]
  rfl

/-- One group is one step, if what reads it behind its mark goes on with the fuel that is left. -/
theorem reads_of_readGroup (mark : List Token) (hscope : Ordinary scope) (hmark : Whole (mark ++ ts))
    (hlength : ts'.length < ts.length)
    (h : ∀ n done o start, ts.length < n → ∃ o', readGroup (alternatives n) scope start done items
      (st.facing (mark ++ ts) o) = alternatives n scope done items' (st'.facing ts' o')) :
    Reads scope st (.plain '(' :: (mark ++ ts)) items st' ts' items' := by
  have hle : ts.length ≤ (mark ++ ts).length := (List.suffix_append mark ts).length_le
  refine reads_of_readToken hscope (by simp) hmark (by omega) fun n done o start hn => ?_
  rw [readToken_paren hscope]
  exact h n done o start (by omega)

theorem takeSome_facing {t : Token} {o : Nat} (hts : Whole ts) :
    takeSome (st.facing (t :: ts) o) = .ok (t, st.facing ts (o + t.width)) := by
  rw [takeSome, bind_of_ok (take_facing hts)]
  rfl

theorem opening_notAfter {flags : Flags} {start o : Nat} (hts : Whole ts) :
    opening flags start (st.facing (.plain '?' :: .plain '<' :: .plain '!' :: ts) o) =
      .ok (.look true false, st.facing ts (o + 1 + 1 + 1)) := by
  rw [opening, bind_of_ok (accept_facing (whole_plain _ _))]
  show (takeSome >>= _) _ = _
  rw [bind_of_ok (takeSome_facing (whole_plain _ _))]
  show (takeSome >>= _) _ = _
  rw [bind_of_ok (takeSome_facing hts)]
  rfl

theorem opening_notBefore {flags : Flags} {start o : Nat} (hts : Whole ts) :
    opening flags start (st.facing (.plain '?' :: .plain '!' :: ts) o) =
      .ok (.look false false, st.facing ts (o + 1 + 1)) := by
  rw [opening, bind_of_ok (accept_facing (whole_plain _ _))]
  show (takeSome >>= _) _ = _
  rw [bind_of_ok (takeSome_facing hts)]
  rfl

theorem opening_plain {flags : Flags} {start o : Nat} (hts : Whole ts) :
    opening flags start (st.facing (.plain '?' :: .plain ':' :: ts) o) =
      .ok (.plain [] [], st.facing ts (o + 1 + 1)) := by
  rw [opening, bind_of_ok (accept_facing (whole_plain _ _))]
  show (takeSome >>= _) _ = _
  rw [bind_of_ok (takeSome_facing hts)]
  rfl

theorem lookBehind_one (s : CharSet) (st : Progress) :
    lookBehind false (.one s) st = .ok (notAfter s, st) := by
  have hpending : st.pending.or none = st.pending := Option.or_none
  show Except.ok (notAfter s, { st with pending := st.pending.or none }) = _
  rw [hpending]

/-- **A look behind** at one character of a set. -/
theorem reads_notAfter {s : CharSet} (hscope : Ordinary scope) (hts : Whole ts) (hts' : Whole ts')
    (h : ∀ st, Reads { flags := {} } st ts [] st (.plain ')' :: ts') [⟨.one s, .other⟩]) :
    Reads scope st (.plain '(' :: .plain '?' :: .plain '<' :: .plain '!' :: ts) items st ts'
      (⟨notAfter s, .other⟩ :: items) := by
  refine reads_of_readGroup [.plain '?', .plain '<', .plain '!'] hscope (whole_plain _ _) (h st).shorter
    fun n done o start hfuel => ?_
  simp only [readGroup, hscope.flags, List.cons_append, List.nil_append]
  rw [bind_of_ok (opening_notAfter hts)]
  simp only []
  rw [bind_of_ok get_self, bind_of_ok modify_self]
  -- The inside is read with a note that this is a look behind.
  obtain ⟨o', heq⟩ := alternatives_of_reads (o := o + 1 + 1 + 1) hfuel
    (h { st with behindFrom := st.behindFrom.or (some st.nextGroup) })
  refine ⟨o' + 1, ?_⟩
  show (alternatives n { flags := {} } [] [] >>= _)
    (Progress.facing { st with behindFrom := st.behindFrom.or (some st.nextGroup) } ts
      (o + 1 + 1 + 1)) = _
  rw [bind_of_ok heq, bind_of_ok modify_self]
  show (closeParen start >>= _) (st.facing (.plain ')' :: ts') o') = _
  rw [bind_of_ok (closeParen_facing hts')]
  show (lookBehind false (.one s) >>= _) _ = _
  rw [bind_of_ok (lookBehind_one s _)]

/-- **A look ahead** at one character of a set. -/
theorem reads_notBefore {s : CharSet} (hscope : Ordinary scope) (hts : Whole ts) (hts' : Whole ts')
    (h : Reads { flags := {} } st ts [] st (.plain ')' :: ts') [⟨.one s, .other⟩]) :
    Reads scope st (.plain '(' :: .plain '?' :: .plain '!' :: ts) items st ts'
      (⟨notBefore s, .other⟩ :: items) := by
  refine reads_of_readGroup [.plain '?', .plain '!'] hscope (whole_plain _ _) h.shorter
    fun n done o start hfuel => ?_
  obtain ⟨o', heq⟩ := alternatives_of_reads (o := o + 1 + 1) hfuel h
  refine ⟨o' + 1, ?_⟩
  simp only [readGroup, hscope.flags, List.cons_append, List.nil_append]
  rw [bind_of_ok (opening_notBefore hts)]
  simp only []
  rw [bind_of_ok heq, bind_of_ok (closeParen_facing hts')]
  rfl

/-- **A group that remembers nothing** stands for its inside. -/
theorem reads_plainGroup {inside : List Item} (hscope : Ordinary scope) (hts : Whole ts)
    (hts' : Whole ts') (h : Reads { flags := {} } st ts [] st (.plain ')' :: ts') inside) :
    Reads scope st (.plain '(' :: .plain '?' :: .plain ':' :: ts) items st ts'
      (⟨assemble [inside], .other⟩ :: items) := by
  refine reads_of_readGroup [.plain '?', .plain ':'] hscope (whole_plain _ _) h.shorter
    fun n done o start hfuel => ?_
  obtain ⟨o', heq⟩ := alternatives_of_reads (o := o + 1 + 1) hfuel h
  refine ⟨o' + 1, ?_⟩
  simp only [readGroup, hscope.flags, List.cons_append, List.nil_append]
  rw [bind_of_ok (opening_plain hts)]
  show (alternatives n { flags := {} } [] [] >>= _) _ = _
  rw [bind_of_ok heq, bind_of_ok (closeParen_facing hts')]

/-! ## Named groups -/

theorem takeUntilGo_facing {closing : Char} {what : String} {cs name : List Char} {n o : Nat}
    (hcs : closing ∉ cs) (hname : name ++ cs ≠ []) (hn : cs.length < n) (hts : Whole ts) :
    takeUntilGo closing what n name (st.facing (cs.map .plain ++ .plain closing :: ts) o) =
      .ok (name ++ cs, st.facing ts (o + cs.length + 1)) := by
  induction cs generalizing n o name with
  | nil =>
      obtain ⟨n, rfl⟩ : ∃ m, n = m + 1 := ⟨n - 1, by simp at hn; omega⟩
      have hempty : name.isEmpty = false := by simpa using hname
      rw [takeUntilGo, List.map_nil, List.nil_append, bind_of_ok (take_facing hts)]
      simp only [beq_self_eq_true, if_true, hempty, Bool.false_eq_true, if_false, List.append_nil]
      rfl
  | cons c cs ih =>
      obtain ⟨n, rfl⟩ : ∃ m, n = m + 1 := ⟨n - 1, by simp at hn; omega⟩
      obtain ⟨hc, hcs⟩ : closing ≠ c ∧ closing ∉ cs := by simpa using hcs
      have hwhole : Whole (cs.map Token.plain ++ .plain closing :: ts) := by
        cases cs <;> exact whole_plain _ _
      have hcond : (Token.plain c == .plain closing) = false :=
        beq_eq_false_iff_ne.2 (by simpa using hc.symm)
      rw [takeUntilGo, List.map_cons, List.cons_append, bind_of_ok (take_facing hwhole)]
      simp only [hcond, Bool.false_eq_true, if_false]
      rw [ih hcs (by simp [Token.chars]) (by simpa using hn)]
      simp only [Token.chars, Token.width, List.append_assoc, List.singleton_append,
        List.length_cons]
      congr 3
      omega

/-- The state behind the name of a group. -/
def Progress.named (st : Progress) (name : List Char) : Progress :=
  { st with nextGroup := st.nextGroup + 1,
            names := st.names ++ [(String.ofList name, st.nextGroup)] }

/-- The state behind a group that is closed. -/
def Progress.closed (st : Progress) (index : Nat) (r : Regex) : Progress :=
  { st with widths := (index, r.width (groupWidth st)) :: st.widths }

theorem groupName_facing {closing : Char} {name : List Char} {o : Nat} (hname : closing ∉ name)
    (hvalid : Text.isName name = true) (hts : Whole ts) :
    groupName closing (st.facing (name.map .plain ++ .plain closing :: ts) o) =
      .ok (name, st.facing ts (o + name.length + 1)) := by
  have hne : [] ++ name ≠ [] := by
    rintro h
    rw [List.nil_append] at h
    simp [h, Text.isName] at hvalid
  have htake : takeUntil closing "group name"
      (st.facing (name.map .plain ++ .plain closing :: ts) o) =
        .ok (name, st.facing ts (o + name.length + 1)) := by
    rw [takeUntil, bind_of_ok get_self]
    refine takeUntilGo_facing hname hne ?_ hts
    simp only [Progress.facing, List.length_append, List.length_map]
    omega
  rw [groupName, bind_of_ok htake]
  simp only [hvalid, Bool.not_true, Bool.false_eq_true, if_false]
  rfl

theorem opening_named {flags : Flags} {name : List Char} {start o : Nat} (hname : '>' ∉ name)
    (hvalid : Text.isName name = true) (hts : Whole ts) :
    opening flags start (st.facing (.plain '?' :: .plain 'P' :: .plain '<' ::
        (name.map .plain ++ .plain '>' :: ts)) o) =
      .ok (.capture (some name), st.facing ts (o + 1 + 1 + 1 + name.length + 1)) := by
  have hwhole : Whole (name.map Token.plain ++ .plain '>' :: ts) := by
    cases name <;> exact whole_plain _ _
  rw [opening, bind_of_ok (accept_facing (whole_plain _ _))]
  show (takeSome >>= _) _ = _
  rw [bind_of_ok (takeSome_facing (whole_plain _ _))]
  show (accept '<' >>= _) _ = _
  rw [bind_of_ok (accept_facing hwhole)]
  show (groupName '>' >>= _) _ = _
  rw [bind_of_ok (groupName_facing hname hvalid hts)]
  rfl

theorem openGroup_named {name : List Char} {o : Nat}
    (hnew : st.names.lookup (String.ofList name) = none) :
    openGroup (some name) (st.facing ts o) = .ok (st.nextGroup, (st.named name).facing ts o) := by
  have hnew' : (st.facing ts o).names.lookup (String.ofList name) = none := hnew
  rw [openGroup, bind_of_ok get_self]
  simp only [hnew']
  rfl

/-- **A named group** remembers its inside under the next number. -/
theorem reads_named (name : List Char) {inside : List Item} (hscope : Ordinary scope)
    (hname : '>' ∉ name) (hvalid : Text.isName name = true)
    (hnew : st.names.lookup (String.ofList name) = none) (hts : Whole ts) (hts' : Whole ts')
    (h : Reads { flags := {} } (st.named name) ts [] (st.named name) (.plain ')' :: ts') inside) :
    Reads scope st (.plain '(' :: .plain '?' :: .plain 'P' :: .plain '<' ::
        (name.map .plain ++ .plain '>' :: ts)) items
      ((st.named name).closed st.nextGroup (assemble [inside])) ts'
      (⟨.group st.nextGroup (assemble [inside]), .other⟩ :: items) := by
  have hshorter := h.shorter
  simp only [List.length_cons] at hshorter
  refine reads_of_readToken hscope (by simp) (whole_plain _ _)
    (by simp only [List.length_cons, List.length_append]; omega) ?_
  intro n done o start hn
  have hfuel : ts.length < n := by
    simp only [List.length_cons, List.length_append] at hn
    omega
  obtain ⟨o', heq⟩ := alternatives_of_reads (o := o + 1 + 1 + 1 + name.length + 1) hfuel h
  refine ⟨o' + 1, ?_⟩
  rw [readToken_paren hscope, readGroup]
  simp only [hscope.flags]
  rw [bind_of_ok (opening_named hname hvalid hts)]
  simp only []
  rw [bind_of_ok (openGroup_named hnew), bind_of_ok heq, bind_of_ok (closeParen_facing hts'),
    bind_of_ok (show closeGroup _ _ _ = .ok ((), _) from rfl)]
  rfl

end Rules

/-! ## Whole patterns -/

/-- **A text is read to its end.** -/
theorem parse_of_reads {text : List Char} {st : Progress} {items : List Item}
    (hwhole : Whole (tokens text))
    (h : Reads { flags := {}, top := true } { rest := [] } (tokens text) [] st [] items)
    (hflags : st.global = {}) (hasked : st.asked = []) (hpending : st.pending = none) :
    parse text = .ok { body := assemble [items], names := st.names } := by
  have hdangling : ((tokens text).head? == some .dangling) = false := beq_eq_false_iff_ne.2 hwhole
  obtain ⟨m, o, hm, heq⟩ := h.step (2 * (tokens text).length + 2) [] 0 (by omega)
  obtain ⟨m, rfl⟩ : ∃ l, m = l + 1 := ⟨m - 1, by simp at hm; omega⟩
  rw [alternatives_stop (Or.inl rfl)] at heq
  have hread : wholePattern { rest := tokens text } =
      .ok ({ body := assemble [items], names := st.names }, st.facing [] o) := by
    rw [wholePattern, bind_of_ok get_self]
    simp only [hdangling, Bool.false_eq_true, if_false]
    rw [show ({ rest := tokens text } : Progress) = Progress.facing { rest := [] } (tokens text) 0
      from rfl, bind_of_ok heq, bind_of_ok get_self]
    simp only [Progress.facing, hflags, hasked, hpending]
    rfl
  show (Except.map Prod.fst (wholePattern { rest := tokens text })) = _
  rw [hread]
  rfl

end ServiceKeys.Regex
