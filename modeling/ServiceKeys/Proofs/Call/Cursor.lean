import ServiceKeys.Proofs.Call.Literal

/-!
# The key under a cursor

`keyAt?` looks for quoted keys on a line with one pattern and for calls with others, and a key counts
if its literal lies inside of the span of the first call of a form.  Main statements:

* a key that is found belongs to a call on the line, or to one whose receiver stands on a line before,
  and the column is on a literal of the key that is the call's argument or stands in its type
  arguments (`keyAt?_sound`);
* on the argument of a call that the scan of the line reports, the key is found if and only if the call
  is the first one of the key for some form (`keyAt?_on_site`).

For the first, a literal inside of a call cannot reach from the type arguments into the argument: it
has no parenthesis.  For the second, the literal of an argument stands alone, so no other one is in
question, and a call that covers it ends with it.
-/

namespace ServiceKeys.Call

open Regex Text

/-! ## First calls -/

/-- The first call of a form with a key. -/
def FirstCall (form : String) (key text : List Char) (p : Nat) (xs : List Char) : Prop :=
  CallAt [form] key text p xs ∧ ∀ p' xs', CallAt [form] key text p' xs' → p ≤ p'

section Calls

variable {form : String} {forms : List String} {key text xs : List Char} {p : Nat}

theorem callAt_singleton : CallAt [form] key text p xs ↔
    Untouched text p ∧ xs <+: text.drop p ∧ CallText (names form.toList) key xs := by
  simp [CallAt]

/-- The head and the argument of a call at their offsets. -/
theorem CallAt.opensAt (h : CallAt [form] key text p xs) (hform : WellNamed form) :
    ∃ head arg, Head (names form.toList) head ∧ '(' ∉ head ∧ head <+: text.drop p ∧
      OpensAt text key (p + head.length) arg ∧ xs = head ++ '(' :: arg := by
  obtain ⟨-, hstands, head, arg, hhead, harg, rfl⟩ := callAt_singleton.1 h
  obtain ⟨hleft, hright⟩ := prefix_drop_append hstands
  exact ⟨head, arg, hhead, notMem_head hform hhead (by simp), hleft, ⟨harg, hright⟩, rfl⟩

/-- A literal lies inside of the first match of a form's pattern if and only if it lies inside of the
form's first call. -/
theorem encloses_pattern_iff (hform : WellNamed form) (hkey : ∀ c ∈ key, isKeyChar c = true)
    {m : Match} : encloses (pattern form.toList key) text m = true ↔
      ∃ p xs, FirstCall form key text p xs ∧ p ≤ m.first ∧ m.stop ≤ p + xs.length := by
  have hcall : ∀ {i : Nat} {call : Match}, matchInside (pattern form.toList key) text i = some call →
      CallAt [form] key text i call.text := by
    intro i call hi
    obtain ⟨huntouched, hcall⟩ := callText_of_matchInside hi
    exact callAt_singleton.2 ⟨huntouched, (of_matchInside hi).2.2.1, hcall⟩
  have hmatch : ∀ {p : Nat} {xs : List Char}, CallAt [form] key text p xs →
      ∃ call, matchInside (pattern form.toList key) text p = some call ∧ call.text = xs := by
    intro p xs h
    obtain ⟨huntouched, hstands, hcall⟩ := callAt_singleton.1 h
    exact matchInside_of_callText hform hkey huntouched hstands hcall
  rw [encloses, Option.any_eq_true]
  constructor
  · rintro ⟨call, hsearch, hspan⟩
    rw [Bool.and_eq_true, decide_eq_true_eq, decide_eq_true_eq] at hspan
    obtain ⟨i, -, hi, hnone⟩ := of_search? hsearch
    obtain ⟨-, hfirst, -, hstop, -⟩ := of_matchInside hi
    refine ⟨i, call.text, ⟨hcall hi, ?_⟩, hfirst ▸ hspan.1, hstop ▸ hspan.2⟩
    intro p' xs' hcall'
    by_contra hlt
    obtain ⟨call', hcall', -⟩ := hmatch hcall'
    rw [hnone p' (Nat.lt_of_not_le hlt)] at hcall'
    simp at hcall'
  · rintro ⟨p, xs, ⟨hfirst, hothers⟩, hlo, hhi⟩
    have hle : p ≤ text.length := by
      have := hfirst.stop_le
      omega
    obtain ⟨call, hp, rfl⟩ := hmatch hfirst
    obtain ⟨-, hfirst', -, hstop, -⟩ := of_matchInside hp
    refine ⟨call, search?_eq_some hle hp fun l hl => ?_, ?_⟩
    · by_contra hsome
      obtain ⟨other, hother⟩ := Option.ne_none_iff_exists'.1 hsome
      exact absurd (hothers l _ (hcall hother)) (by omega)
    · rw [Bool.and_eq_true, decide_eq_true_eq, decide_eq_true_eq]
      omega

/-- A call of a key covers the literal of an argument with that key if and only if both end at the same
parenthesis. -/
theorem CallAt.covers_iff (h : CallAt [form] key text p xs) (hform : WellNamed form) (hkey : IsKey key)
    {g : Nat} {arg : List Char} (h' : OpensAt text key g arg) :
    p ≤ quoteAt g arg ∧ quoteAt g arg + key.length + 2 ≤ p + xs.length ↔
      p + xs.length = g + 1 + arg.length := by
  obtain ⟨head, arg₀, hhead, hparen, hstands, hopens, rfl⟩ := h.opensAt hform
  obtain ⟨q, b, hq, -, -, hliteral, -, hlength⟩ := h'.parts
  have hlo : g + 1 ≤ quoteAt g arg := Nat.le_add_right _ _
  rw [List.length_append, List.length_cons]
  constructor
  · rintro ⟨hle, hstop⟩
    -- the call begins with a name, and there is none between the parenthesis and the key
    have hpg : p ≤ g := by
      by_contra hgt
      obtain ⟨c, rest, rfl, hc⟩ := starts_head hform hhead
      have hline := (prefix_drop_cons hstands).1
      rcases Nat.eq_or_lt_of_le hle with rfl | hlt
      · obtain ⟨q', hq', hquote, -⟩ := LiteralAt.quote ⟨q, hq, hliteral⟩
        obtain rfl : q' = c := Option.some.inj (hquote.symm.trans hline)
        exact Bool.false_ne_true ((not_name_of_sign (quote_mem_signs hq')).symm.trans hc)
      · obtain ⟨e, he, hblank⟩ := h'.blank (Nat.lt_of_not_le hgt) hlt
        obtain rfl : e = c := Option.some.inj (hblank.symm.trans hline)
        exact Bool.false_ne_true ((not_continue_of_blank he).symm.trans hc)
    obtain ⟨hg, rfl⟩ := OpensAt.unique hkey.2 hkey.2 hparen hstands hopens h' hpg (by omega)
    omega
  · intro hstop
    refine ⟨?_, by omega⟩
    -- its parenthesis does not stand in the argument, so it begins before that
    have hoff := notMem_of_getElem? hopens.paren (notMem_argument hkey.2 h'.1).1 h'.rest
    omega

/-- What a literal lies in, if it lies inside of a call without its receiver. -/
theorem of_encloses_continuation {m : Match}
    (h : encloses (continuation form.toList key) text m = true) :
    ∃ dot xs, IsDot dot ∧ CallText [lastName form.toList] key xs ∧ dot ++ xs <+: text.drop 0 ∧
      m.stop ≤ 0 + (dot ++ xs).length := by
  rw [encloses, Option.any_eq_true] at h
  obtain ⟨call, hsearch, hspan⟩ := h
  rw [Bool.and_eq_true, decide_eq_true_eq, decide_eq_true_eq] at hspan
  obtain ⟨i, hi, hmatch, -⟩ := of_search? hsearch
  obtain ⟨hfinal, -, -, -, hcursor⟩ := of_matchInside hmatch
  obtain ⟨hbefore, dot, xs, hdot, hxs, hover⟩ := of_mem_ends_continuation hfinal
  obtain rfl : i = 0 := by
    have hlength := congrArg List.length hbefore
    simp only [Cursor.inside, List.length_reverse, List.length_take, List.length_nil] at hlength
    omega
  obtain ⟨hstands, hstop⟩ := Cursor.over_inside_iff.1 hover
  refine ⟨dot, xs, hdot, hxs, hstands, ?_⟩
  have hpos : call.stop = 0 + (dot ++ xs).length := congrArg Cursor.pos hstop
  omega

theorem lastName_mem (form : List Char) : lastName form ∈ names form := by
  rw [lastName, List.getLast?_eq_some_getLast (names_ne_nil form)]
  exact List.getLast_mem _

/-- A call whose argument lies inside of a call without its receiver is the first of its form: there is
no parenthesis before its own. -/
theorem firstCall_of_continuation {head arg : List Char}
    (h : CallAt [form] key text p (head ++ '(' :: arg)) (hform : WellNamed form) (hkey : IsKey key)
    (hopens : OpensAt text key (p + head.length) arg) {form' : String} (hform' : WellNamed form')
    {m : Match} (hm : m.stop = quoteAt (p + head.length) arg + key.length + 2)
    (hencloses : encloses (continuation form'.toList key) text m = true) :
    FirstCall form key text p (head ++ '(' :: arg) := by
  obtain ⟨dot, call, hdot, ⟨head', arg', hhead', harg', rfl⟩, hstands, hle⟩ :=
    of_encloses_continuation hencloses
  have hlo : p + head.length + 1 ≤ quoteAt (p + head.length) arg := Nat.le_add_right _ _
  have hparen' : '(' ∉ dot ++ head' := by
    have hlast : ∀ n ∈ [lastName form'.toList], BareName n :=
      List.forall_mem_singleton.2 (hform' _ (lastName_mem _))
    have h₁ := notMem_dot hdot (by decide : '(' ∈ signs) (by decide)
    have h₂ := notMem_head hlast hhead' (by simp : '(' ∈ ['(', ')'])
    simp [h₁, h₂]
  rw [← List.append_assoc] at hstands hle
  obtain ⟨hleft, hright⟩ := prefix_drop_append hstands
  obtain ⟨hg, -⟩ := OpensAt.unique hkey.2 hkey.2 hparen' hleft ⟨harg', hright⟩ hopens (Nat.zero_le _)
    (by rw [List.length_append, List.length_cons] at hle; omega)
  refine ⟨h, fun p' xs' h' => ?_⟩
  by_contra hlt
  -- the parenthesis of an earlier call is not before this one, so that call would cover this one
  obtain ⟨head'', arg'', -, -, -, hopens'', rfl⟩ := h'.opensAt hform
  have hbehind := notMem_of_getElem? hopens''.paren hparen' hleft
  obtain ⟨huntouched, hstands₀, hcall₀⟩ := callAt_singleton.1 h
  obtain ⟨huntouched', hstands', hcall'⟩ := callAt_singleton.1 h'
  obtain ⟨m₀, hm₀, -⟩ := matchInside_of_callText hform hkey.2 huntouched hstands₀ hcall₀
  obtain ⟨m', hm', htext⟩ := matchInside_of_callText hform hkey.2 huntouched' hstands' hcall'
  refine not_covered hform hkey.2 hm' hm₀ (Nat.lt_of_not_le hlt) ?_
  have hlength := congrArg List.length htext
  rw [List.length_append, List.length_cons] at hlength
  rw [(of_matchInside hm').2.2.2.1]
  omega

/-- **On the argument of a call**, the key is found if and only if some form's first call of the key
ends with this one. -/
theorem keyAt?_on_argument (hforms : ∀ form ∈ forms, WellNamed form) (hkey : IsKey key)
    {head arg : List Char} (h : CallAt forms key text p (head ++ '(' :: arg))
    (hopens : OpensAt text key (p + head.length) arg) {column : Int}
    (hlo : (quoteAt (p + head.length) arg : Int) ≤ column)
    (hhi : column ≤ (quoteAt (p + head.length) arg + key.length + 2 : Nat)) :
    (keyAt? text column (forms.map String.toList) = some key ∨
      keyAt? text column (forms.map String.toList) = none) ∧
    (keyAt? text column (forms.map String.toList) = some key ↔ ∃ form ∈ forms, ∃ p' xs',
      FirstCall form key text p' xs' ∧ p' + xs'.length = p + (head ++ '(' :: arg).length) := by
  obtain ⟨m, hfirst, hstop, heq⟩ :=
    (hopens.alone hkey).keyAt?_eq hlo hhi (forms.map String.toList)
  have hend : p + (head ++ '(' :: arg).length = p + head.length + 1 + arg.length := by
    rw [List.length_append, List.length_cons]
    omega
  have hany : ((forms.map String.toList).any fun form => encloses (pattern form key) text m ||
      encloses (continuation form key) text m) = true ↔ ∃ form ∈ forms, ∃ p' xs',
        FirstCall form key text p' xs' ∧ p' + xs'.length = p + (head ++ '(' :: arg).length := by
    rw [List.any_map, List.any_eq_true, hend]
    constructor
    · rintro ⟨form', hform', hin⟩
      rw [Function.comp_apply, Bool.or_eq_true] at hin
      rcases hin with hin | hin
      · obtain ⟨p', xs', hcall, hle, hge⟩ :=
          (encloses_pattern_iff (hforms form' hform') hkey.2).1 hin
        refine ⟨form', hform', p', xs', hcall, ?_⟩
        exact (hcall.1.covers_iff (hforms form' hform') hkey hopens).1 ⟨by omega, by omega⟩
      · obtain ⟨huntouched, hstands, form, hform, hcall⟩ := h
        have hown := callAt_singleton.2 ⟨huntouched, hstands, hcall⟩
        exact ⟨form, hform, p, _, firstCall_of_continuation hown (hforms form hform) hkey hopens
          (hforms form' hform') hstop hin, hend⟩
    · rintro ⟨form', hform', p', xs', hcall, hstop'⟩
      have hcovers := (hcall.1.covers_iff (hforms form' hform') hkey hopens).2 hstop'
      have hin := (encloses_pattern_iff (hforms form' hform') hkey.2 (m := m)).2
        ⟨p', xs', hcall, by omega, by omega⟩
      refine ⟨form', hform', ?_⟩
      rw [Function.comp_apply, hin, Bool.true_or]
  rw [heq, ← hany]
  split
  · rename_i hc
    exact ⟨Or.inl rfl, fun _ => hc, fun _ => rfl⟩
  · rename_i hc
    exact ⟨Or.inr rfl, fun hsome => absurd hsome (by simp), fun hin => absurd hin hc⟩

end Calls

/-! ## What a found key belongs to -/

/-- A call on a line with a key as its only argument: a call of one of the forms, or, at the start of
the line, a call of the last name of one of the forms behind a dot. -/
structure LineCall (forms : List String) (key text : List Char) where
  /-- The text before the call. -/
  before : List Char
  opening : List Char
  types : List Char
  gap : List Char
  lead : List Char
  quote : Char
  trail : List Char
  /-- The text behind the call. -/
  after : List Char
  opens : (Untouched text before.length ∧ ∃ form ∈ forms, Callee (names form.toList) opening) ∨
    (before = [] ∧ ∃ form ∈ forms, ∃ dot, IsDot dot ∧ opening = dot ++ lastName form.toList)
  typed : TypeArguments types
  blank : Blanks gap ∧ Blanks lead ∧ Blanks trail
  quoted : quotes.accepts quote = true
  text_eq : text = before ++ (opening ++ (types ++ (gap ++ '(' :: (lead ++ quote :: (key ++ quote ::
    (trail ++ ')' :: after))))))

namespace LineCall

variable {forms : List String} {key text : List Char}

/-- The offset of the type arguments. -/
def typesStart (call : LineCall forms key text) : Nat := (call.before ++ call.opening).length

/-- The offset of the quote in front of the argument. -/
def argumentStart (call : LineCall forms key text) : Nat :=
  (call.before ++ (call.opening ++ (call.types ++ (call.gap ++ '(' :: call.lead)))).length

/-- A column is on a literal of the key that is the argument of a call or stands in its type
arguments. -/
def Touches (call : LineCall forms key text) (column : Int) : Prop :=
  ∃ o, LiteralAt text key o ∧ (o : Int) ≤ column ∧ column ≤ (o + key.length + 2 : Nat) ∧
    (o = call.argumentStart ∨
      (call.typesStart ≤ o ∧ o + key.length + 2 ≤ call.typesStart + call.types.length))

end LineCall

section Sound

variable {forms : List String} {key text opening types gap arg : List Char} {p o : Nat}

/-- **A literal inside of a call** is its argument or stands in its type arguments: there are no quotes
before and behind these, and it does not reach over the parenthesis. -/
theorem literal_in_call (hkey : IsKey key) (hquotes : ∀ q, quotes.accepts q = true → q ∉ opening)
    (hgap : Blanks gap) (hstands : opening ++ (types ++ gap) <+: text.drop p)
    (hopens : OpensAt text key (p + (opening ++ (types ++ gap)).length) arg)
    (hliteral : LiteralAt text key o) (hlo : p ≤ o)
    (hhi : o + key.length + 2 ≤ p + (opening ++ (types ++ gap)).length + 1 + arg.length) :
    o = quoteAt (p + (opening ++ (types ++ gap)).length) arg ∨
      (p + opening.length ≤ o ∧ o + key.length + 2 ≤ p + opening.length + types.length) := by
  obtain ⟨hopening, hrest⟩ := prefix_drop_append hstands
  obtain ⟨-, hgap'⟩ := prefix_drop_append hrest
  obtain ⟨q, hq, hfirst, hlast⟩ := hliteral.quote
  have hblank : q ∉ gap := notMem_blanks (List.mem_cons_of_mem _ (quote_mem_signs hq)) hgap
  have hlength : (opening ++ (types ++ gap)).length = opening.length + types.length + gap.length := by
    simp only [List.length_append]
    omega
  generalize hg : p + (opening ++ (types ++ gap)).length = g at hopens hhi ⊢
  rcases Nat.lt_or_ge g o with hbehind | hbefore
  · -- in the argument only the quotes around the key are quotes
    left
    have halone := hopens.alone hkey
    by_contra hne
    obtain ⟨q', b, hq', hb, -, -, htail, hend⟩ := hopens.parts
    rcases Nat.lt_or_ge o (quoteAt g arg) with hlt | hge
    · obtain ⟨c, hc, hline⟩ := hopens.blank hbehind hlt
      obtain rfl : c = q := Option.some.inj (hline.symm.trans hfirst)
      exact Bool.false_ne_true ((outside_of_blank hc).2.symm.trans hq)
    · rcases Nat.lt_or_ge (quoteAt g arg + key.length + 2) o with hfar | hnear
      · obtain ⟨c, hc, hline⟩ := exists_mem_of_prefix htail (i := o) hfar.le (by simp; omega)
        obtain rfl : c = q := Option.some.inj (hline.symm.trans hfirst)
        exact Bool.false_ne_true ((outside_of_tail hb hc).2.symm.trans hq)
      · exact hne (halone.eq_of_near hkey hliteral (by omega) hnear)
  · right
    -- the parenthesis is no character of the literal, so the literal ends before it
    have hend : o + key.length + 2 ≤ g := by
      by_contra hover
      exact hliteral.not_outside hkey (i := g) (by omega) (by omega) hopens.paren
        (outside_of_paren (by simp))
    have h₁ := notMem_of_getElem? hfirst (hquotes q hq) hopening
    have h₂ := notMem_of_getElem? hlast hblank hgap'
    omega

/-- The call around a literal that lies inside of it. -/
theorem exists_lineCall (hkey : IsKey key) (hp : p ≤ text.length)
    (hopening : (Untouched text p ∧ ∃ form ∈ forms, Callee (names form.toList) opening) ∨
      (p = 0 ∧ ∃ form ∈ forms, ∃ dot, IsDot dot ∧ opening = dot ++ lastName form.toList))
    (hquotes : ∀ q, quotes.accepts q = true → q ∉ opening) (htypes : TypeArguments types)
    (hgap : Blanks gap) (harg : Argument key arg)
    (hstands : (opening ++ (types ++ gap)) ++ '(' :: arg <+: text.drop p) (hliteral : LiteralAt text key o)
    (hlo : p ≤ o) (hhi : o + key.length + 2 ≤ p + ((opening ++ (types ++ gap)) ++ '(' :: arg).length)
    {column : Int} (hcolumn : (o : Int) ≤ column ∧ column ≤ (o + key.length + 2 : Nat)) :
    ∃ call : LineCall forms key text, call.Touches column := by
  obtain ⟨hleft, hright⟩ := prefix_drop_append hstands
  have hopens : OpensAt text key (p + (opening ++ (types ++ gap)).length) arg := ⟨harg, hright⟩
  obtain ⟨a, q, b, ha, hq, hb, rfl⟩ := id harg
  obtain ⟨after, hafter⟩ := hstands
  have hblank : isBlank q = false := not_blank_of_sign q (List.mem_cons_of_mem _ (quote_mem_signs hq))
  have htake : (text.take p).length = p := by rw [List.length_take, Nat.min_eq_left hp]
  refine ⟨⟨text.take p, opening, types, gap, a, q, b, after, ?_, htypes, ⟨hgap, ha, hb⟩, hq, ?_⟩,
    o, hliteral, hcolumn.1, hcolumn.2, ?_⟩
  · rw [htake]
    exact hopening.imp id fun ⟨hzero, hform⟩ => ⟨by rw [hzero, List.take_zero], hform⟩
  · conv_lhs => rw [← List.take_append_drop p text, ← hafter]
    simp
  · rw [List.length_append, List.length_cons] at hhi
    rcases literal_in_call hkey hquotes hgap hleft hopens hliteral hlo (by omega) with heq | hin
    · left
      rw [heq, quoteAt, List.takeWhile_append_of_pos ha, List.takeWhile_cons, hblank]
      simp only [LineCall.argumentStart, List.length_append, List.length_cons, htake]
      simp
      omega
    · right
      simp only [LineCall.typesStart, List.length_append, htake]
      exact hin

theorem callee_singleton {name xs : List Char} (h : Callee [name] xs) : xs = name := by
  rcases h with _ | ⟨_, _, hrest⟩
  · rfl
  · cases hrest

theorem quote_ne_mark {q : Char} (h : quotes.accepts q = true) : q ≠ '?' := by
  rintro rfl
  exact absurd (accepts_quotes.1 h) (by decide)

end Sound

/-- **No key is made up.**  If forms are ones that settings accept and a key is found under a column of
a line, then it is a key, the line has a call with it as the only argument, and the column is on a
literal of it that is this argument or stands in the call's type arguments.  The call is one of one of
the forms, or it stands at the start of the line and is a call of a form's last name behind a dot. -/
theorem keyAt?_sound {forms : List String} {key text : List Char} {column : Int}
    (hforms : ∀ form ∈ forms, Settings.checkCallForm (.text form) = .ok form)
    (h : keyAt? text column (forms.map String.toList) = some key) :
    (key ≠ [] ∧ ∀ c ∈ key, isKeyChar c = true) ∧
      ∃ call : LineCall forms key text, call.Touches column := by
  obtain ⟨m, hm, hkeyOf⟩ := List.exists_of_findSome?_eq_some h
  rw [List.mem_filter, Bool.and_eq_true, decide_eq_true_eq, decide_eq_true_eq] at hm
  obtain ⟨hm, hcolumn⟩ := hm
  obtain ⟨o, -, hmatch⟩ := matchInside_of_mem_findAll advances_quotedKey hm
  obtain ⟨key', hkey, hliteral, hfirst, hstop, hgroup⟩ := of_matchInside_quotedKey hmatch
  rw [hfirst, hstop] at hcolumn
  rw [keyOf?, hgroup, Option.filter_some] at hkeyOf
  split at hkeyOf
  · rename_i hany
    obtain rfl := Option.some.inj hkeyOf
    rw [List.any_map, List.any_eq_true] at hany
    obtain ⟨form, hform, hin⟩ := hany
    rw [Function.comp_apply, Bool.or_eq_true] at hin
    have hnamed := wellNamed_of_check (hforms form hform)
    refine ⟨hkey, ?_⟩
    rcases hin with hin | hin
    · obtain ⟨p, xs, ⟨hcall, -⟩, hle, hge⟩ := (encloses_pattern_iff hnamed hkey.2).1 hin
      have hlength := hcall.stop_le
      obtain ⟨huntouched, hstands, _, arg, ⟨callee, types, gap, hcallee, htypes, hgap, rfl⟩, harg,
        rfl⟩ := callAt_singleton.1 hcall
      refine exists_lineCall hkey (by omega) (Or.inl ⟨huntouched, form, hform, hcallee⟩) ?_ htypes hgap
        harg hstands hliteral (by omega) (by omega) hcolumn
      exact fun q hq => notMem_callee hnamed hcallee (quote_mem_signs hq) (quote_ne_mark hq)
    · obtain ⟨dot, _, hdot, ⟨_, arg, ⟨callee, types, gap, hcallee, htypes, hgap, rfl⟩, harg, rfl⟩,
        hstands, hge⟩ := of_encloses_continuation hin
      obtain rfl := callee_singleton hcallee
      have hshape : dot ++ ((lastName form.toList ++ (types ++ gap)) ++ '(' :: arg) =
          ((dot ++ lastName form.toList) ++ (types ++ gap)) ++ '(' :: arg := by simp
      rw [hshape] at hstands hge
      refine exists_lineCall hkey (Nat.zero_le _) (Or.inr ⟨rfl, form, hform, dot, hdot, rfl⟩) ?_ htypes
        hgap harg hstands hliteral (Nat.zero_le _) (by omega) hcolumn
      intro q hq hmem
      rcases List.mem_append.1 hmem with hmem | hmem
      · exact notMem_dot hdot (quote_mem_signs hq) (quote_ne_mark hq) hmem
      · exact notMem_bareName (List.mem_cons_of_mem _ (quote_mem_signs hq))
          (hnamed _ (lastName_mem _)) hmem
  · simp at hkeyOf

/-- A call without its receiver, and a column on the key in its type arguments. -/
theorem keyAt?_sound_sample :
    (∀ form ∈ ["di.get"], Settings.checkCallForm (.text form) = .ok form) ∧
    keyAt? "  ?.get<'mail'>( \"mail\" )".toList 9 (["di.get"].map String.toList) =
      some "mail".toList ∧
    ∃ call : LineCall ["di.get"] "mail".toList "  ?.get<'mail'>( \"mail\" )".toList,
      call.Touches 9 := by
  have hforms : ∀ form ∈ ["di.get"], Settings.checkCallForm (.text form) = .ok form :=
    List.forall_mem_singleton.2 rfl
  have hfound : keyAt? "  ?.get<'mail'>( \"mail\" )".toList 9 (["di.get"].map String.toList) =
      some "mail".toList := by decide +kernel
  exact ⟨hforms, hfound, (keyAt?_sound hforms hfound).2⟩

/-! ## On the sites of a line -/

section Sites

variable {form : String} {key text : List Char} {p : Nat}

/-- The offset of the quote in a call. -/
def quoteOffset (call : List Char) : Nat :=
  quoteAt (call.takeWhile (· != '(')).length ((call.dropWhile (· != '(')).drop 1)

theorem quoteOffset_eq {head arg : List Char} (h : '(' ∉ head) :
    p + quoteOffset (head ++ '(' :: arg) = quoteAt (p + head.length) arg := by
  have hplain : ∀ c ∈ head, (c != '(') = true := fun c hc => bne_iff_ne.2 fun heq => h (heq ▸ hc)
  rw [quoteOffset, List.takeWhile_append_of_pos hplain, List.dropWhile_append_of_pos hplain]
  simp [quoteAt]
  omega

/-- The first site that is reported for a form alone is its first call. -/
theorem head?_sites_eq_some_iff (hform : WellNamed form) (hkey : ∀ c ∈ key, isKeyChar c = true)
    {s : Site} : (sites text [pattern form.toList key]).head? = some s ↔
      ∃ p xs, FirstCall form key text p xs ∧ s = siteAt text p xs := by
  obtain ⟨calls, hsorted, hmem, hsites⟩ :=
    exists_calls text (List.forall_mem_singleton.2 hform) hkey
  rw [List.map_singleton] at hsites
  rw [hsites, List.head?_map, Option.map_eq_some_iff]
  constructor
  · rintro ⟨⟨p, xs⟩, hhead, rfl⟩
    refine ⟨p, xs, ⟨(hmem p xs).1 (List.mem_of_head? hhead), fun p' xs' h' => ?_⟩, rfl⟩
    obtain ⟨rest, rfl⟩ : ∃ rest, calls = (p, xs) :: rest := List.head?_eq_some_iff.1 hhead
    rcases List.mem_cons.1 ((hmem p' xs').2 h') with heq | hrest
    · rw [(Prod.mk.inj heq).1]
    · exact ((List.pairwise_cons.1 hsorted).1 _ hrest).le
  · rintro ⟨p, xs, ⟨hcall, hothers⟩, rfl⟩
    cases calls with
    | nil => simpa using (hmem p xs).2 hcall
    | cons call rest =>
        refine ⟨call, rfl, ?_⟩
        rcases List.mem_cons.1 ((hmem p xs).2 hcall) with rfl | hrest
        · rfl
        · have hlt := (List.pairwise_cons.1 hsorted).1 _ hrest
          have hle := hothers call.1 call.2 ((hmem _ _).1 List.mem_cons_self)
          omega

/-- The place of an offset of a single line. -/
theorem positionOf_single (h : '\n' ∉ text) (hp : p ≤ text.length) : positionOf text p = ⟨0, p⟩ := by
  have hplace : positionOf ([] ++ (text ++ [])) (([] : List Char).length + p) = _ :=
    positionOf_line (by simp [WholeLines]) h hp
  simpa using hplace

end Sites

/-- **The key under a column of a site.**  Let forms be ones that settings accept, and let the scan of a
single line report a site of a key.  Then the key stands between quotes where the call has its
argument, and from the column of the first quote to the one behind the second the key is found if and
only if, for some of the forms, the first site that is reported for this form alone ends where the site
ends; otherwise nothing is found. -/
theorem keyAt?_on_site {forms : List String} {key text : List Char}
    (hforms : ∀ form ∈ forms, Settings.checkCallForm (.text form) = .ok form)
    (hkey : key ≠ [] ∧ ∀ c ∈ key, isKeyChar c = true) (htext : '\n' ∉ text) {s : Site}
    (hs : s ∈ sites text (forms.map fun form => pattern form.toList key)) {column : Int}
    (hlo : (s.start.column + quoteOffset s.text.toList : Nat) ≤ column)
    (hhi : column ≤ (s.start.column + quoteOffset s.text.toList + key.length + 2 : Nat)) :
    LiteralAt text key (s.start.column + quoteOffset s.text.toList) ∧
    keyAt? text column (forms.map String.toList) =
      if ∃ form ∈ forms, (sites text [pattern form.toList key]).head?.map Site.stop = some s.stop then
        some key else none := by
  have hnamed : ∀ form ∈ forms, WellNamed form := fun form hform => wellNamed_of_check (hforms form hform)
  obtain ⟨p, xs, hcall, rfl⟩ := (mem_sites_iff hnamed hkey.2).1 hs
  have hle := hcall.stop_le
  obtain ⟨huntouched, hstands, form₀, hform₀, hcall₀⟩ := id hcall
  obtain ⟨head, arg, -, hparen, -, hopens, rfl⟩ :=
    (callAt_singleton.2 ⟨huntouched, hstands, hcall₀⟩).opensAt (hnamed form₀ hform₀)
  have hstart : (siteAt text p (head ++ '(' :: arg)).start.column = p := by
    rw [siteAt, positionOf_single htext (by omega)]
  have hquote : (siteAt text p (head ++ '(' :: arg)).start.column +
      quoteOffset (siteAt text p (head ++ '(' :: arg)).text.toList = quoteAt (p + head.length) arg := by
    rw [hstart]
    simp only [siteAt, String.toList_ofList]
    exact quoteOffset_eq hparen
  rw [hquote] at hlo hhi ⊢
  refine ⟨(hopens.alone hkey).literal, ?_⟩
  obtain ⟨hcases, hiff⟩ := keyAt?_on_argument hnamed hkey hcall hopens hlo hhi
  -- a first call and a first site end at the same place
  have hsite : (∃ form ∈ forms, (sites text [pattern form.toList key]).head?.map Site.stop =
      some (siteAt text p (head ++ '(' :: arg)).stop) ↔
      ∃ form ∈ forms, ∃ p' xs', FirstCall form key text p' xs' ∧
        p' + xs'.length = p + (head ++ '(' :: arg).length := by
    refine exists_congr fun form => and_congr_right fun hform => ?_
    rw [Option.map_eq_some_iff]
    constructor
    · rintro ⟨first, hfirst, hstop⟩
      obtain ⟨p', xs', hcall', rfl⟩ := (head?_sites_eq_some_iff (hnamed form hform) hkey.2).1 hfirst
      exact ⟨p', xs', hcall', positionOf_inj hcall'.1.stop_le hle hstop⟩
    · rintro ⟨p', xs', hcall', hstop⟩
      refine ⟨_, (head?_sites_eq_some_iff (hnamed form hform) hkey.2).2 ⟨p', xs', hcall', rfl⟩, ?_⟩
      exact congrArg (positionOf text) hstop
  split
  · rename_i hfirst
    exact hiff.2 (hsite.1 hfirst)
  · rename_i hnone
    exact hcases.resolve_left fun hsome => hnone (hsite.2 (hiff.1 hsome))

/-- The second call on a line is the first of its form, and a column on the quote of its argument. -/
theorem keyAt?_on_site_sample :
    (∀ form ∈ ["di.get", "di.resolve"], Settings.checkCallForm (.text form) = .ok form) ∧
    ("mail".toList ≠ [] ∧ ∀ c ∈ "mail".toList, isKeyChar c = true) ∧
    '\n' ∉ "di.get<'mail'>( 'mail' ) di?.resolve('mail')".toList ∧
    ⟨⟨0, 25⟩, ⟨0, 44⟩, "di?.resolve('mail')"⟩ ∈
      sites "di.get<'mail'>( 'mail' ) di?.resolve('mail')".toList
        (["di.get", "di.resolve"].map fun form => pattern form.toList "mail".toList) ∧
    LiteralAt "di.get<'mail'>( 'mail' ) di?.resolve('mail')".toList "mail".toList 37 ∧
    keyAt? "di.get<'mail'>( 'mail' ) di?.resolve('mail')".toList 37
        (["di.get", "di.resolve"].map String.toList) =
      if ∃ form ∈ ["di.get", "di.resolve"], (sites "di.get<'mail'>( 'mail' ) di?.resolve('mail')".toList
          [pattern form.toList "mail".toList]).head?.map Site.stop = some ⟨0, 44⟩ then
        some "mail".toList else none := by
  have hforms : ∀ form ∈ ["di.get", "di.resolve"], Settings.checkCallForm (.text form) = .ok form :=
    List.forall_mem_cons.2 ⟨rfl, List.forall_mem_singleton.2 rfl⟩
  have hkey : "mail".toList ≠ [] ∧ ∀ c ∈ "mail".toList, isKeyChar c = true := by decide
  have hline : '\n' ∉ "di.get<'mail'>( 'mail' ) di?.resolve('mail')".toList := by decide
  have hs : ⟨⟨0, 25⟩, ⟨0, 44⟩, "di?.resolve('mail')"⟩ ∈
      sites "di.get<'mail'>( 'mail' ) di?.resolve('mail')".toList
        (["di.get", "di.resolve"].map fun form => pattern form.toList "mail".toList) := by
    rw [sites, List.mem_mergeSort]
    decide +kernel
  exact ⟨hforms, hkey, hline, hs, keyAt?_on_site hforms hkey hline hs (by decide) (by decide)⟩

/-- A line with the same call twice: both are reported, but on the argument of the second nothing is
found, because only the first call of a form is looked at. -/
theorem keyAt?_second_call :
    Settings.checkCallForm (.text "container.resolve") = .ok "container.resolve" ∧
    ⟨⟨0, 23⟩, ⟨0, 45⟩, "container.resolve('a')"⟩ ∈
      sites "container.resolve('a') container.resolve('a')".toList
        [pattern "container.resolve".toList "a".toList] ∧
    quoteOffset "container.resolve('a')".toList = 18 ∧
    keyAt? "container.resolve('a') container.resolve('a')".toList (23 + 18)
      ["container.resolve".toList] = none := by
  refine ⟨rfl, ?_, by decide, by decide +kernel⟩
  rw [sites, List.mem_mergeSort]
  decide +kernel

end ServiceKeys.Call
