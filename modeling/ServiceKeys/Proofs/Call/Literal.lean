import ServiceKeys.Proofs.Call.Scan
import ServiceKeys.Proofs.Regex.Between

/-!
# Literals and arguments at offsets

A literal is a key between equal quotes.  It has nothing but quotes and key characters (`LiteralAt`),
and the argument of a call stands between a parenthesis or a blank on either side, so no other literal
comes near it (`OpensAt.alone`, `Alone.eq_of_near`).  A parenthesis is in no head and in no argument, so
one of them is enough to tell a call (`OpensAt.unique`).
-/

namespace ServiceKeys.Call

open Regex Text

/-! ## Characters at offsets -/

section Offsets

variable {xs ys text : List Char} {p i : Nat}

/-- The characters of a text that stands at an offset. -/
theorem exists_mem_of_prefix (h : xs <+: text.drop p) (hle : p ≤ i) (hlt : i < p + xs.length) :
    ∃ c ∈ xs, text[i]? = some c := by
  obtain ⟨rest, hrest⟩ := h
  obtain ⟨k, rfl⟩ := Nat.exists_eq_add_of_le hle
  have hk : k < xs.length := by omega
  refine ⟨xs[k], List.getElem_mem hk, ?_⟩
  rw [← List.getElem?_drop, ← hrest, List.getElem?_append_left hk, List.getElem?_eq_getElem hk]

theorem prefix_drop_append (h : xs ++ ys <+: text.drop p) :
    xs <+: text.drop p ∧ ys <+: text.drop (p + xs.length) := by
  obtain ⟨rest, hrest⟩ := h
  refine ⟨⟨ys ++ rest, by rw [← hrest, List.append_assoc]⟩, rest, ?_⟩
  rw [← List.drop_drop, ← hrest, List.append_assoc, List.drop_left]

theorem prefix_drop_cons {c : Char} (h : c :: xs <+: text.drop p) :
    text[p]? = some c ∧ xs <+: text.drop (p + 1) := by
  obtain ⟨rest, hrest⟩ := h
  rw [← List.head?_drop, ← List.drop_drop, ← hrest]
  exact ⟨rfl, rest, rfl⟩

/-- A character at an offset of a text that does not have it stands elsewhere. -/
theorem notMem_of_getElem? {c : Char} (hc : text[i]? = some c) (hxs : c ∉ xs)
    (h : xs <+: text.drop p) : i < p ∨ p + xs.length ≤ i := by
  by_contra hin
  obtain ⟨d, hd, hline⟩ := exists_mem_of_prefix h (i := i) (by omega) (by omega)
  obtain rfl : c = d := Option.some.inj (hc.symm.trans hline)
  exact hxs hd

end Offsets

/-! ## Literals -/

/-- A key, as it may stand between quotes. -/
def IsKey (key : List Char) : Prop := key ≠ [] ∧ ∀ c ∈ key, isKeyChar c = true

/-- A key stands between equal quotes at an offset. -/
def LiteralAt (text key : List Char) (o : Nat) : Prop :=
  ∃ q, quotes.accepts q = true ∧ q :: (key ++ [q]) <+: text.drop o

section Literals

variable {text key key' : List Char} {o f i : Nat} {m : Match}

theorem LiteralAt.quote (h : LiteralAt text key o) :
    ∃ q, quotes.accepts q = true ∧ text[o]? = some q ∧ text[o + key.length + 1]? = some q := by
  obtain ⟨q, hq, hstands⟩ := h
  obtain ⟨hfirst, hrest⟩ := prefix_drop_cons hstands
  have hlast := (prefix_drop_cons (prefix_drop_append hrest).2).1
  rw [Nat.add_right_comm] at hlast
  exact ⟨q, hq, hfirst, hlast⟩

theorem LiteralAt.inner (h : LiteralAt text key o) (hlo : o < i) (hhi : i ≤ o + key.length) :
    ∃ c ∈ key, text[i]? = some c := by
  obtain ⟨q, -, hstands⟩ := h
  exact exists_mem_of_prefix (prefix_drop_append (prefix_drop_cons hstands).2).1 hlo (by omega)

/-- A character that no literal has. -/
def Outside (c : Char) : Prop := isKeyChar c = false ∧ quotes.accepts c = false

/-- A literal has no such character. -/
theorem LiteralAt.not_outside (h : LiteralAt text key o) (hkey : IsKey key) (hlo : o ≤ i)
    (hhi : i ≤ o + key.length + 1) {c : Char} (hc : text[i]? = some c) : ¬ Outside c := by
  rintro ⟨hchar, hquote⟩
  obtain ⟨q, hq, hfirst, hlast⟩ := h.quote
  rcases (by omega : i = o ∨ (o < i ∧ i ≤ o + key.length) ∨ i = o + key.length + 1) with
    rfl | ⟨hlo, hhi⟩ | rfl
  · obtain rfl : q = c := Option.some.inj (hfirst.symm.trans hc)
    exact Bool.false_ne_true (hquote.symm.trans hq)
  · obtain ⟨d, hd, hline⟩ := h.inner hlo hhi
    obtain rfl : d = c := Option.some.inj (hline.symm.trans hc)
    exact Bool.false_ne_true (hchar.symm.trans (hkey.2 d hd))
  · obtain rfl : q = c := Option.some.inj (hlast.symm.trans hc)
    exact Bool.false_ne_true (hquote.symm.trans hq)

theorem not_key_of_quote {q : Char} (hq : quotes.accepts q = true) : isKeyChar q = false :=
  not_key_of_sign q (quote_mem_signs hq)

theorem mem_ends_quotedKey {front left : List Char} {st' : State} :
    st' ∈ ends quotedKey ⟨.between front left, []⟩ ↔
      ∃ q key more, quotes.accepts q = true ∧ IsKey key ∧ left = q :: (key ++ q :: more) ∧
        st' = ⟨.between (((front ++ [q]) ++ key) ++ [q]) more,
          [(2, captureOf (front ++ [q]) key (q :: more)), (1, captureOf front [q] (key ++ q :: more))]⟩ := by
  have hrun : Denotes (.span (.wordOr ['$', '.', ':', '-']) 1 none .greedy) (texts IsKey) := by
    apply (denotes_span _ 1 none (by decide)).congr
    intro xs
    have haccepts : ∀ c, (CharSet.wordOr ['$', '.', ':', '-']).accepts c = isKeyChar c :=
      CharSet.accepts_keyChar
    simp [CharSet.runs, mem_texts, haccepts, IsKey, Within, Nat.one_le_iff_ne_zero, and_comm]
  rw [quotedKey, (denotes_one quotes).mem_ends_group_cons]
  constructor
  · rintro ⟨_, ⟨q, hq, rfl⟩, left, rfl, h⟩
    obtain ⟨key, hkey, left, rfl, h⟩ := hrun.mem_ends_group_cons.1 h
    obtain ⟨more, hmore, h⟩ := (mem_ends_recall_cons (c := captureOf front [q] _) rfl).1 h
    rw [captureOf_text] at hmore h
    obtain rfl : left = q :: more := hmore
    exact ⟨q, key, more, hq, hkey, rfl, mem_ends_ofList_nil.1 h⟩
  · rintro ⟨q, key, more, hq, hkey, rfl, rfl⟩
    refine ⟨[q], ⟨q, hq, rfl⟩, key ++ q :: more, rfl, ?_⟩
    refine hrun.mem_ends_group_cons.2 ⟨key, hkey, q :: more, rfl, ?_⟩
    refine (mem_ends_recall_cons (c := captureOf front [q] (key ++ q :: more)) rfl).2 ⟨more, ?_, ?_⟩
    · rw [captureOf_text]
      rfl
    · rw [captureOf_text]
      exact mem_ends_ofList_nil.2 rfl

theorem advances_quotedKey : Advances quotedKey := by
  refine Advances.ofList_cons ?_ _
  intro st st' hst'
  obtain ⟨m, hm, rfl⟩ := mem_ends_group.1 hst'
  obtain ⟨_, ⟨q, -, rfl⟩, hover, -⟩ := (denotes_one quotes _ _).1 hm
  show st.cursor.pos < m.cursor.pos
  rw [hover.pos_eq]
  exact Nat.lt_succ_self _

/-- What a match of a quoted key says. -/
theorem of_matchInside_quotedKey (h : matchInside quotedKey text o = some m) :
    ∃ key, IsKey key ∧ LiteralAt text key o ∧ m.first = o ∧ m.stop = o + key.length + 2 ∧
      m.group? 2 = some key := by
  have hle := (lt_length_of_matchInside advances_quotedKey h).le
  obtain ⟨hfinal, hfirst, -, -, -⟩ := of_matchInside h
  rw [Cursor.inside_eq_between hle] at hfinal
  obtain ⟨q, key, more, hq, hkey, htext, hfinal⟩ := mem_ends_quotedKey.1 hfinal
  refine ⟨key, hkey, ⟨q, hq, more, by simp [htext]⟩, hfirst, ?_, ?_⟩
  · rw [Match.stop, hfinal]
    simp only [Cursor.between, List.length_append, List.length_take, List.length_singleton]
    omega
  · rw [Match.group?, hfinal]
    simp

/-- Where a literal stands, it is matched. -/
theorem LiteralAt.exists_matchInside (h : LiteralAt text key o) (hkey : IsKey key) :
    ∃ m, matchInside quotedKey text o = some m ∧ m.group? 2 = some key := by
  obtain ⟨q, hq, more, hmore⟩ := h
  have hle : o ≤ text.length := by
    by_contra hlt
    rw [List.drop_eq_nil_of_le (by omega)] at hmore
    simp at hmore
  have htext : text.drop o = q :: (key ++ q :: more) := by simpa using hmore.symm
  obtain ⟨m, hm⟩ : ∃ m, matchInside quotedKey text o = some m := by
    have hfits : Fits quotedKey ⟨.between (text.take o) (text.drop o), []⟩ :=
      ⟨_, mem_ends_quotedKey.2 ⟨q, key, more, hq, hkey, htext, rfl⟩⟩
    rw [← Cursor.inside_eq_between hle] at hfits
    obtain ⟨st, hst⟩ := hfits
    exact Regex.exists_matchInside hst
  obtain ⟨key', hkey', ⟨q', hq', more', hmore'⟩, -, -, hgroup⟩ := of_matchInside_quotedKey hm
  -- the key ends at the first quote
  have hcut : key ++ q :: more = key' ++ q' :: more' := by
    have heq := htext.symm.trans hmore'.symm
    exact (List.cons.inj (by simpa using heq)).2
  obtain ⟨rfl, -, -⟩ := append_cons_unique hkey.2 hkey'.2 (not_key_of_quote hq) (not_key_of_quote hq') hcut
  exact ⟨m, hm, hgroup⟩

/-- A literal whose neighbours are of no literal. -/
structure Alone (text key : List Char) (o : Nat) : Prop where
  isKey : IsKey key
  literal : LiteralAt text key o
  before : ∃ c, 1 ≤ o ∧ text[o - 1]? = some c ∧ Outside c
  after : ∃ c, text[o + key.length + 2]? = some c ∧ Outside c

/-- **No other literal comes near a literal that stands alone.** -/
theorem Alone.eq_of_near (h : Alone text key o) (hkey' : IsKey key') (h' : LiteralAt text key' f)
    (hlo : o ≤ f + key'.length + 2) (hhi : f ≤ o + key.length + 2) : f = o := by
  obtain ⟨c, hpos, hc, hbefore⟩ := h.before
  obtain ⟨d, hd, hafter⟩ := h.after
  obtain ⟨q, hq, hfirst, -⟩ := h'.quote
  have hlen : 0 < key'.length := List.length_pos_iff.2 hkey'.1
  rcases Nat.lt_trichotomy f o with hlt | heq | hgt
  · -- it would have the character in front
    exact absurd hbefore (h'.not_outside hkey' (by omega) (by omega) hc)
  · exact heq
  · exfalso
    rcases (by omega : f ≤ o + key.length ∨ f = o + key.length + 1 ∨ f = o + key.length + 2) with
      hin | rfl | rfl
    · -- it would begin in the key, where no quote is
      obtain ⟨e, he, hline⟩ := h.literal.inner hgt hin
      obtain rfl : e = q := Option.some.inj (hline.symm.trans hfirst)
      exact Bool.false_ne_true ((not_key_of_quote hq).symm.trans (h.isKey.2 e he))
    · -- it would begin with the closing quote and have the character behind
      exact absurd hafter (h'.not_outside hkey' (by omega) (by omega) hd)
    · exact absurd hafter (h'.not_outside hkey' le_rfl (by omega) hd)

/-- A literal that stands alone is found, and whatever else is found does not touch it. -/
theorem Alone.exists_mem_findAll (h : Alone text key o) :
    ∃ m ∈ findAll quotedKey text, m.first = o ∧ m.stop = o + key.length + 2 ∧
      m.group? 2 = some key ∧
      ∀ m' ∈ findAll quotedKey text, m'.first ≤ m.stop → m.first ≤ m'.stop → m' = m := by
  obtain ⟨m, hm, hgroup⟩ := h.literal.exists_matchInside h.isKey
  obtain ⟨key', -, -, hfirst, hstop, hgroup'⟩ := of_matchInside_quotedKey hm
  obtain rfl : key' = key := Option.some.inj (hgroup'.symm.trans hgroup)
  have hnear : ∀ m' ∈ findAll quotedKey text, m'.first ≤ m.stop → m.first ≤ m'.stop → m' = m := by
    intro m' hm' hhi hlo
    obtain ⟨j, -, hj⟩ := matchInside_of_mem_findAll advances_quotedKey hm'
    obtain ⟨key'', hkey'', hliteral, hfirst', hstop', -⟩ := of_matchInside_quotedKey hj
    obtain rfl : j = o := h.eq_of_near hkey'' hliteral (by omega) (by omega)
    exact Option.some.inj (hj.symm.trans hm)
  refine ⟨m, ?_, hfirst, hstop, hgroup, hnear⟩
  have hle := (lt_length_of_matchInside advances_quotedKey hm).le
  rcases mem_findAll_or_covered advances_quotedKey hle hm with hmem | ⟨m', hm', hlo, hhi⟩
  · exact hmem
  · obtain rfl := hnear m' hm' (by omega) (by omega)
    exact hm'

/-- The key under a column of a literal that stands alone is the key of that literal, if it is one. -/
theorem Alone.keyAt?_eq (h : Alone text key o) {column : Int} (hlo : (o : Int) ≤ column)
    (hhi : column ≤ (o + key.length + 2 : Nat)) (forms : List (List Char)) :
    ∃ m : Match, m.first = o ∧ m.stop = o + key.length + 2 ∧
      keyAt? text column forms = if (forms.any fun form => encloses (pattern form key) text m ||
        encloses (continuation form key) text m) = true then some key else none := by
  obtain ⟨m, hm, hfirst, hstop, hgroup, hnear⟩ := h.exists_mem_findAll
  refine ⟨m, hfirst, hstop, ?_⟩
  have hkeyOf : keyOf? text forms m = if (forms.any fun form => encloses (pattern form key) text m ||
      encloses (continuation form key) text m) = true then some key else none := by
    rw [keyOf?, hgroup, Option.filter_some]
  rw [← hkeyOf, keyAt?]
  -- all the literals under the column are this one
  have htouch : ∀ m', m' ∈ (findAll quotedKey text).filter (fun m =>
      (m.first : Int) ≤ column && column ≤ (m.stop : Int)) ↔ m' = m := by
    intro m'
    rw [List.mem_filter, Bool.and_eq_true, decide_eq_true_eq, decide_eq_true_eq]
    constructor
    · rintro ⟨hm', hlo', hhi'⟩
      exact hnear m' hm' (by omega) (by omega)
    · rintro rfl
      exact ⟨hm, by omega, by omega⟩
  cases hlist : (findAll quotedKey text).filter (fun m =>
      (m.first : Int) ≤ column && column ≤ (m.stop : Int)) with
  | nil =>
      have hmem := (htouch m).2 rfl
      rw [hlist] at hmem
      simp at hmem
  | cons m₀ others =>
      rw [hlist] at htouch
      obtain rfl := (htouch m₀).1 List.mem_cons_self
      have hothers : ∀ m' ∈ others, m' = m₀ := fun m' hm' => (htouch m').1 (List.mem_cons_of_mem _ hm')
      rw [List.findSome?_cons]
      cases hsome : keyOf? text forms m₀ with
      | some k => rfl
      | none =>
          refine List.findSome?_eq_none_iff.2 fun m' hm' => ?_
          rw [hothers m' hm', hsome]

end Literals

/-! ## Arguments -/

/-- An argument stands at the offset of its parenthesis. -/
def OpensAt (text key : List Char) (g : Nat) (arg : List Char) : Prop :=
  Argument key arg ∧ '(' :: arg <+: text.drop g

section Arguments

variable {text key key' head arg arg' : List Char} {p g : Nat}

theorem OpensAt.paren (h : OpensAt text key g arg) : text[g]? = some '(' := (prefix_drop_cons h.2).1

theorem OpensAt.rest (h : OpensAt text key g arg) : arg <+: text.drop (g + 1) :=
  (prefix_drop_cons h.2).2

/-- **One parenthesis tells the call**: where a call reaches over the parenthesis of an argument, this
is its own parenthesis and its own argument. -/
theorem OpensAt.unique (hkey : ∀ c ∈ key, isKeyChar c = true) (hkey' : ∀ c ∈ key', isKeyChar c = true)
    (hhead : '(' ∉ head) (hstands : head <+: text.drop p) (h : OpensAt text key (p + head.length) arg)
    (h' : OpensAt text key' g arg') (hlo : p ≤ g) (hhi : g < p + head.length + 1 + arg.length) :
    p + head.length = g ∧ arg = arg' := by
  have hbehind := notMem_of_getElem? h'.paren (notMem_argument hkey h.1).1 h.rest
  have hinside := notMem_of_getElem? h'.paren hhead hstands
  obtain rfl : p + head.length = g := by omega
  obtain ⟨rest, hrest⟩ := h.rest
  obtain ⟨rest', hrest'⟩ := h'.rest
  exact ⟨rfl, (argument_unique hkey hkey' h.1 h'.1 (hrest.trans hrest'.symm)).1⟩

/-- The offset of the quote in an argument whose parenthesis stands at an offset. -/
def quoteAt (g : Nat) (arg : List Char) : Nat := g + 1 + (arg.takeWhile isBlank).length

theorem outside_of_blank {c : Char} (h : isBlank c = true) : Outside c := by
  refine ⟨?_, ?_⟩
  · by_contra hkey
    exact Bool.false_ne_true ((not_blank_of_key (by simpa using hkey)).symm.trans h)
  · by_contra hquote
    have hsign := quote_mem_signs (by simpa using hquote)
    exact Bool.false_ne_true ((not_blank_of_sign c (List.mem_cons_of_mem _ hsign)).symm.trans h)

theorem outside_of_paren {c : Char} (h : c ∈ ['(', ')']) : Outside c := by
  have hparens : ∀ c ∈ ['(', ')'], isKeyChar c = false ∧ quotes.accepts c = false := by decide
  exact hparens c h

/-- What follows the literal of an argument is of no literal. -/
theorem outside_of_tail {b : List Char} (hb : Blanks b) {c : Char} (hc : c ∈ b ++ [')']) :
    Outside c := by
  rcases List.mem_append.1 hc with hc | hc
  · exact outside_of_blank (hb c hc)
  · exact outside_of_paren (List.mem_cons_of_mem _ hc)

/-- The parts of an argument at their offsets: blanks, the key between quotes, blanks and the
parenthesis. -/
theorem OpensAt.parts (h : OpensAt text key g arg) :
    ∃ q b, quotes.accepts q = true ∧ Blanks b ∧
      arg = arg.takeWhile isBlank ++ (q :: (key ++ [q]) ++ (b ++ [')'])) ∧
      (q :: (key ++ [q])) <+: text.drop (quoteAt g arg) ∧
      b ++ [')'] <+: text.drop (quoteAt g arg + key.length + 2) ∧
      quoteAt g arg + key.length + 2 + b.length = g + arg.length := by
  obtain ⟨a, q, b, ha, hq, hb, harg⟩ := h.1
  have hblank : isBlank q = false := not_blank_of_sign q (List.mem_cons_of_mem _ (quote_mem_signs hq))
  have hlead : arg.takeWhile isBlank = a := by
    rw [harg, List.takeWhile_append_of_pos ha, List.takeWhile_cons, hblank]
    simp
  have hshape : arg = a ++ (q :: (key ++ [q]) ++ (b ++ [')'])) := by
    rw [harg]
    simp
  have hstands := h.rest
  rw [hshape] at hstands
  obtain ⟨-, hstands⟩ := prefix_drop_append hstands
  obtain ⟨hliteral, htail⟩ := prefix_drop_append hstands
  refine ⟨q, b, hq, hb, by rw [hlead]; exact hshape, ?_, ?_, ?_⟩
  · rw [quoteAt, hlead]
    exact hliteral
  · rw [quoteAt, hlead]
    have hlength : (q :: (key ++ [q])).length = key.length + 2 := by simp
    rw [hlength, ← Nat.add_assoc] at htail
    exact htail
  · have hlength := congrArg List.length hshape
    simp only [List.length_append, List.length_cons, List.length_nil] at hlength
    rw [quoteAt, hlead]
    omega

/-- What stands between the parenthesis and the quote is blank. -/
theorem OpensAt.blank (h : OpensAt text key g arg) {i : Nat} (hlo : g < i) (hhi : i < quoteAt g arg) :
    ∃ c, isBlank c = true ∧ text[i]? = some c := by
  have hstands := h.rest
  rw [← List.takeWhile_append_dropWhile (p := isBlank) (l := arg)] at hstands
  obtain ⟨c, hc, hline⟩ := exists_mem_of_prefix (prefix_drop_append hstands).1 (i := i) hlo hhi
  exact ⟨c, List.mem_takeWhile_imp hc, hline⟩

/-- **The literal of an argument stands alone.** -/
theorem OpensAt.alone (h : OpensAt text key g arg) (hkey : IsKey key) :
    Alone text key (quoteAt g arg) := by
  obtain ⟨q, b, hq, hb, -, hliteral, htail, -⟩ := h.parts
  have hlo : g + 1 ≤ quoteAt g arg := Nat.le_add_right _ _
  refine ⟨hkey, ⟨q, hq, hliteral⟩, ?_, ?_⟩
  · rcases Nat.eq_or_lt_of_le hlo with heq | hlt
    · refine ⟨'(', by omega, ?_, outside_of_paren (by simp)⟩
      rw [← heq, Nat.add_sub_cancel]
      exact h.paren
    · obtain ⟨c, hc, hline⟩ := h.blank (i := quoteAt g arg - 1) (by omega) (by omega)
      exact ⟨c, by omega, hline, outside_of_blank hc⟩
  · obtain ⟨c, hc, hline⟩ := exists_mem_of_prefix htail le_rfl (by simp)
    exact ⟨c, hline, outside_of_tail hb hc⟩

end Arguments

end ServiceKeys.Call
