import ServiceKeys.Proofs.Call.Unambiguous
import ServiceKeys.Proofs.Text.Lines
import ServiceKeys.Settings.Build

/-!
# The calls of a text

`sites` looks for the calls of a text twice, line by line and over line ends, and for every form.  It
reports exactly the calls of the grammar: a call is found because no other call of its form covers
it, a call on one line is one of the whole text at the same place, and the forms agree on where a
call ends.
-/

namespace ServiceKeys.Call

open Regex Text

/-! ## Calls at offsets -/

/-- No name leads up to an offset. -/
def Untouched (content : List Char) (p : Nat) : Prop :=
  ∀ c ∈ (content.take p).getLast?, isIdentifierContinue c = false

/-- A call of one of the forms stands at an offset. -/
def CallAt (forms : List String) (key content : List Char) (p : Nat) (xs : List Char) : Prop :=
  Untouched content p ∧ xs <+: content.drop p ∧
    ∃ form ∈ forms, CallText (names form.toList) key xs

/-- The site of a text at an offset. -/
def siteAt (content : List Char) (p : Nat) (xs : List Char) : Site :=
  { start := positionOf content p, stop := positionOf content (p + xs.length),
    text := String.ofList xs }

theorem clear_inside_iff {content : List Char} {p : Nat} :
    Clear (.wordOr ['$']) (Cursor.inside content p).before ↔ Untouched content p := by
  simp only [Clear, Cursor.inside, List.head?_reverse, CharSet.accepts_nameChar, Untouched]

theorem callText_ne_nil {names : List (List Char)} {key xs : List Char}
    (h : CallText names key xs) : xs ≠ [] := by
  obtain ⟨head, arg, -, -, rfl⟩ := h
  simp

theorem CallAt.stop_le {forms : List String} {key content xs : List Char} {p : Nat}
    (h : CallAt forms key content p xs) : p + xs.length ≤ content.length := by
  obtain ⟨-, hstarts, _, -, hcall⟩ := h
  refine length_le_of_isPrefix_drop ?_ hstarts
  by_contra hp
  rw [List.drop_eq_nil_of_le (by omega), List.prefix_nil] at hstarts
  exact callText_ne_nil hcall hstarts

/-- A place inside of a text that stands at an offset cuts it, and where no name leads up to the place,
none ends the left part. -/
theorem exists_cut {content xs rest : List Char} {p q : Nat} (hxs : xs ++ rest = content.drop p)
    (hpq : p < q) (hq : q < p + xs.length) (huntouched : Untouched content q) :
    ∃ as bs, xs = as ++ bs ∧ as.length = q - p ∧ as ≠ [] ∧ bs ≠ [] ∧
      (∀ c ∈ as.getLast?, isIdentifierContinue c = false) ∧ bs ++ rest = content.drop q := by
  have hlength : (xs.take (q - p)).length = q - p := List.length_take_of_le (by omega)
  have hsplit : q = p + (q - p) := by omega
  have hleft : xs.take (q - p) ≠ [] := List.length_pos_iff.1 (by omega)
  refine ⟨_, _, (List.take_append_drop (q - p) xs).symm, hlength, hleft, ?_, ?_, ?_⟩
  · rw [Ne, List.drop_eq_nil_iff]
    omega
  · -- what stands before the place ends in what the text has read so far
    have hbefore : content.take q = content.take p ++ xs.take (q - p) := by
      rw [hsplit, List.take_add, ← hxs, List.take_append_of_le_length (by omega),
        Nat.add_sub_cancel_left]
    intro c hc
    refine huntouched c ?_
    rw [hbefore, List.getLast?_append_of_ne_nil _ hleft]
    exact hc
  · rw [hsplit, ← List.drop_drop, ← hxs, List.drop_append_of_le_length (by omega),
      Nat.add_sub_cancel_left]

/-- A form whose names are bare names. -/
def WellNamed (form : String) : Prop := ∀ n ∈ names form.toList, BareName n

/-- Every form that settings accept is well named. -/
theorem wellNamed_of_check {form : String}
    (h : Settings.checkCallForm (.text form) = .ok form) : WellNamed form := by
  intro n hn
  obtain ⟨piece, hpiece, rfl⟩ := List.mem_map.1 hn
  have hall : (Settings.callNames form.toList).all isIdentifier = true := by
    by_contra hall
    simp [Settings.checkCallForm, hall] at h
  exact bareName_trim (List.all_eq_true.1 hall _ (List.mem_map_of_mem hpiece))

/-! ## The matches of a pattern -/

section Pattern

variable {form : String} {key text : List Char}

theorem advances_pattern (form key : List Char) : Advances (pattern form key) := by
  intro st st' hst'
  obtain ⟨-, xs, hcall, hover⟩ := exists_end_pattern_iff.1 ⟨st', hst', rfl⟩
  have hpos := List.length_pos_iff.2 (callText_ne_nil hcall)
  have := hover.pos_eq
  omega

/-- A match at an offset is a call there. -/
theorem callText_of_matchInside {i : Nat} {m : Match}
    (h : matchInside (pattern form.toList key) text i = some m) :
    Untouched text i ∧ CallText (names form.toList) key m.text := by
  obtain ⟨hmem, -, hstarts, hstop, -⟩ := of_matchInside h
  obtain ⟨hclear, xs, hcall, hover⟩ := exists_end_pattern_iff.1 ⟨m.final, hmem, rfl⟩
  obtain ⟨hstarts', hcur⟩ := Cursor.over_inside_iff.1 hover
  have hlength : i + xs.length = i + m.text.length := by
    rw [← hstop, Match.stop, hcur]
    rfl
  have htext : xs = m.text := (List.prefix_of_prefix_length_le hstarts' hstarts
    (by omega)).eq_of_length (by omega)
  exact ⟨clear_inside_iff.1 hclear, htext ▸ hcall⟩

/-- Where a call stands, the pattern matches it and nothing else. -/
theorem matchInside_of_callText (hform : WellNamed form) (hkey : ∀ c ∈ key, isKeyChar c = true)
    {p : Nat} {xs : List Char} (hp : Untouched text p) (hstarts : xs <+: text.drop p)
    (hcall : CallText (names form.toList) key xs) :
    ∃ m, matchInside (pattern form.toList key) text p = some m ∧ m.text = xs := by
  obtain ⟨st, hst, -⟩ : ∃ st ∈ ends (pattern form.toList key) { cursor := .inside text p },
      st.cursor = .inside text (p + xs.length) :=
    exists_end_pattern_iff.2 ⟨clear_inside_iff.2 hp, xs, hcall,
      Cursor.over_inside_iff.2 ⟨hstarts, rfl⟩⟩
  obtain ⟨m, hm⟩ := exists_matchInside hst
  obtain ⟨-, hcall'⟩ := callText_of_matchInside hm
  obtain ⟨rest, hrest⟩ := hstarts
  obtain ⟨rest', hrest'⟩ := (of_matchInside hm).2.2.1
  obtain ⟨htext, -⟩ := callText_unique hform hform hkey hkey hcall' hcall (hrest'.trans hrest.symm)
  exact ⟨m, hm, htext⟩

/-- No match begins inside of another one. -/
theorem not_covered (hform : WellNamed form) (hkey : ∀ c ∈ key, isKeyChar c = true) {i j : Nat}
    {m m' : Match} (hm : matchInside (pattern form.toList key) text i = some m)
    (hm' : matchInside (pattern form.toList key) text j = some m') (hij : i < j)
    (hj : j < m.stop) : False := by
  obtain ⟨-, hcall⟩ := callText_of_matchInside hm
  obtain ⟨huntouched, hcall'⟩ := callText_of_matchInside hm'
  obtain ⟨-, -, ⟨rest, hrest⟩, hstop, -⟩ := of_matchInside hm
  obtain ⟨-, -, ⟨rest', hrest'⟩, -, -⟩ := of_matchInside hm'
  obtain ⟨as, bs, hcut, -, hleft, hright, hlast, hdrop⟩ :=
    exists_cut hrest hij (by omega) huntouched
  exact callText_separate hform hkey hleft hright hlast (hcut ▸ hcall) hcall'
    (hdrop.trans hrest'.symm)

/-- **The matches of a pattern are the calls of its form.** -/
theorem exists_mem_findAll_iff (hform : WellNamed form) (hkey : ∀ c ∈ key, isKeyChar c = true)
    {p : Nat} {xs : List Char} :
    (∃ m ∈ findAll (pattern form.toList key) text, m.first = p ∧ m.text = xs) ↔
      Untouched text p ∧ xs <+: text.drop p ∧ CallText (names form.toList) key xs := by
  have hadv := advances_pattern form.toList key
  constructor
  · rintro ⟨m, hm, rfl, rfl⟩
    obtain ⟨j, -, hmatch⟩ := matchInside_of_mem_findAll hadv hm
    obtain ⟨-, hfirst, hstarts, -, -⟩ := of_matchInside hmatch
    obtain ⟨huntouched, hcall⟩ := callText_of_matchInside hmatch
    rw [hfirst]
    exact ⟨huntouched, hstarts, hcall⟩
  · rintro ⟨huntouched, hstarts, hcall⟩
    have hp : p ≤ text.length := by
      have := CallAt.stop_le ⟨huntouched, hstarts, form, List.mem_singleton_self form, hcall⟩
      omega
    -- the match is reported unless another one covers it, and none does
    obtain ⟨m, hmatch, rfl⟩ := matchInside_of_callText hform hkey huntouched hstarts hcall
    rcases mem_findAll_or_covered hadv hp hmatch with hmem | ⟨m', hm', hfirst, hstop⟩
    · exact ⟨m, hmem, (of_matchInside hmatch).2.1, rfl⟩
    · obtain ⟨j, -, hmatch'⟩ := matchInside_of_mem_findAll hadv hm'
      rw [(of_matchInside hmatch').2.1] at hfirst
      exact absurd (not_covered hform hkey hmatch' hmatch hfirst hstop) id

end Pattern

/-! ## Both passes -/

theorem mem_lineSites_iff {r : Regex} {n : Nat} {ls : List (List Char)} {s : Site} :
    s ∈ lineSites r n ls ↔ ∃ i line, ls[i]? = some line ∧ ∃ m ∈ findAll r line,
      s = { start := ⟨n + i, m.first⟩, stop := ⟨n + i, m.stop⟩, text := String.ofList m.text } := by
  induction ls generalizing n with
  | nil => simp [lineSites]
  | cons line ls ih =>
      rw [lineSites, List.mem_append, ih, List.mem_map]
      constructor
      · rintro (⟨m, hm, rfl⟩ | ⟨i, line', hline, m, hm, rfl⟩)
        · exact ⟨0, line, rfl, m, hm, rfl⟩
        · refine ⟨i + 1, line', by simpa using hline, m, hm, ?_⟩
          simp only [Nat.add_right_comm n 1 i, Nat.add_assoc]
      · rintro ⟨i, line', hline, m, hm, rfl⟩
        cases i with
        | zero =>
            obtain rfl : line = line' := by simpa using hline
            exact Or.inl ⟨m, hm, rfl⟩
        | succ i =>
            refine Or.inr ⟨i, line', by simpa using hline, m, hm, ?_⟩
            simp only [Nat.add_right_comm n 1 i, Nat.add_assoc]

section Passes

variable {form : String} {key content : List Char}

theorem mem_textSites_iff (hform : WellNamed form) (hkey : ∀ c ∈ key, isKeyChar c = true)
    {s : Site} :
    s ∈ textSites (pattern form.toList key) content ↔
      ∃ p xs, CallAt [form] key content p xs ∧ s = siteAt content p xs := by
  have hadv := advances_pattern form.toList key
  simp only [textSites, List.mem_map, CallAt, List.mem_singleton, exists_eq_left,
    ← exists_mem_findAll_iff hform hkey]
  constructor
  · rintro ⟨m, hm, rfl⟩
    obtain ⟨j, -, hmatch⟩ := matchInside_of_mem_findAll hadv hm
    obtain ⟨-, hfirst, -, hstop, -⟩ := of_matchInside hmatch
    exact ⟨m.first, m.text, ⟨m, hm, rfl, rfl⟩, by rw [siteAt, hfirst, ← hstop]⟩
  · rintro ⟨p, xs, ⟨m, hm, rfl, rfl⟩, rfl⟩
    obtain ⟨j, -, hmatch⟩ := matchInside_of_mem_findAll hadv hm
    obtain ⟨-, hfirst, -, hstop, -⟩ := of_matchInside hmatch
    exact ⟨m, hm, by rw [siteAt, hfirst, ← hstop]⟩

/-- A call on one line of a text is a call of the text, at the offset of the line and the column. -/
theorem callAt_of_line {forms : List String} {above line below xs : List Char}
    (habove : WholeLines above) {i : Nat} (h : CallAt forms key line i xs) :
    CallAt forms key (above ++ (line ++ below)) (above.length + i) xs := by
  have hi : i ≤ line.length := by
    have := h.stop_le
    omega
  obtain ⟨huntouched, ⟨rest, hrest⟩, hcall⟩ := h
  refine ⟨?_, ⟨rest ++ below, ?_⟩, hcall⟩
  · intro c hc
    rw [List.take_length_add_append, List.take_append_of_le_length hi] at hc
    by_cases hleft : line.take i = []
    · -- Only a line feed can stand before the first column.
      rw [hleft, List.append_nil] at hc
      rw [habove c hc]
      decide
    · rw [List.getLast?_append_of_ne_nil _ hleft] at hc
      exact huntouched c hc
  · rw [List.drop_length_add_append, List.drop_append_of_le_length hi, ← hrest, List.append_assoc]

/-- **The line by line pass finds nothing new**: each of its sites is one of the whole text. -/
theorem lineSites_subset (hform : WellNamed form) (hkey : ∀ c ∈ key, isKeyChar c = true) {s : Site}
    (h : s ∈ lineSites (pattern form.toList key) 0 (lines content)) :
    s ∈ textSites (pattern form.toList key) content := by
  obtain ⟨i, line, hline, m, hm, rfl⟩ := mem_lineSites_iff.1 h
  obtain ⟨above, below, rfl, habove, hcount, hfree⟩ := lines_cut hline
  obtain ⟨j, -, hmatch⟩ := matchInside_of_mem_findAll (advances_pattern form.toList key) hm
  obtain ⟨-, hfirst, -, hstop, -⟩ := of_matchInside hmatch
  have hcall : CallAt [form] key line m.first m.text := by
    obtain ⟨huntouched, hstarts, hcall⟩ := (exists_mem_findAll_iff hform hkey).1 ⟨m, hm, rfl, rfl⟩
    exact ⟨huntouched, hstarts, form, List.mem_singleton_self form, hcall⟩
  have hle := hcall.stop_le
  refine (mem_textSites_iff hform hkey).2
    ⟨above.length + m.first, m.text, callAt_of_line habove hcall, ?_⟩
  rw [siteAt, positionOf_line habove hfree (by omega), Nat.add_assoc,
    positionOf_line habove hfree hle, hcount, hstop, hfirst, Nat.zero_add]

end Passes

/-! ## All forms -/

section Forms

variable {forms : List String} {key content : List Char}

/-- Every call has its own site: the start tells the offset, and the offset the call. -/
theorem callAt_unique (hforms : ∀ form ∈ forms, WellNamed form)
    {key' : List Char} (hkey : ∀ c ∈ key, isKeyChar c = true)
    (hkey' : ∀ c ∈ key', isKeyChar c = true) {p p' : Nat} {xs xs' : List Char}
    (h : CallAt forms key content p xs) (h' : CallAt forms key' content p' xs')
    (heq : positionOf content p = positionOf content p') : p = p' ∧ xs = xs' ∧ key = key' := by
  have hle := h.stop_le
  have hle' := h'.stop_le
  obtain rfl := positionOf_inj (by omega) (by omega) heq
  obtain ⟨-, ⟨rest, hrest⟩, form, hform, hcall⟩ := h
  obtain ⟨-, ⟨rest', hrest'⟩, form', hform', hcall'⟩ := h'
  exact ⟨rfl, callText_unique (hforms form hform) (hforms form' hform') hkey hkey' hcall hcall'
    (hrest.trans hrest'.symm)⟩

theorem mem_found_iff (hforms : ∀ form ∈ forms, WellNamed form)
    (hkey : ∀ c ∈ key, isKeyChar c = true) {s : Site} :
    s ∈ ((forms.map fun form => pattern form.toList key).flatMap fun r =>
        lineSites r 0 (lines content) ++ textSites r content) ↔
      ∃ p xs, CallAt forms key content p xs ∧ s = siteAt content p xs := by
  rw [List.flatMap_map, List.mem_flatMap]
  constructor
  · rintro ⟨form, hform, hs⟩
    have htext : s ∈ textSites (pattern form.toList key) content :=
      (List.mem_append.1 hs).elim (lineSites_subset (hforms form hform) hkey) id
    obtain ⟨p, xs, ⟨huntouched, hstarts, form', hform', hcall⟩, rfl⟩ :=
      (mem_textSites_iff (hforms form hform) hkey).1 htext
    obtain rfl := List.mem_singleton.1 hform'
    exact ⟨p, xs, ⟨huntouched, hstarts, form', hform, hcall⟩, rfl⟩
  · rintro ⟨p, xs, ⟨huntouched, hstarts, form, hform, hcall⟩, rfl⟩
    refine ⟨form, hform, List.mem_append_right _ ((mem_textSites_iff (hforms form hform) hkey).2 ?_)⟩
    exact ⟨p, xs, ⟨huntouched, hstarts, form, List.mem_singleton_self form, hcall⟩, rfl⟩

/-- **The sites of a text are its calls.** -/
theorem mem_sites_iff (hforms : ∀ form ∈ forms, WellNamed form)
    (hkey : ∀ c ∈ key, isKeyChar c = true) {s : Site} :
    s ∈ sites content (forms.map fun form => pattern form.toList key) ↔
      ∃ p xs, CallAt forms key content p xs ∧ s = siteAt content p xs := by
  rw [sites, List.mem_mergeSort, ← mem_found_iff hforms hkey]
  constructor
  · exact fun h => (distinctBy_sublist _).mem h
  · intro h
    -- what is kept in place of a site has the same start, so it is the same site
    obtain ⟨t, ht, hstart⟩ : ∃ t ∈ distinctBy Site.start _, t.start = s.start :=
      exists_mem_distinctBy h
    obtain ⟨p, xs, hcall, rfl⟩ := (mem_found_iff hforms hkey).1 h
    obtain ⟨p', xs', hcall', rfl⟩ :=
      (mem_found_iff hforms hkey).1 ((distinctBy_sublist _).mem ht)
    obtain ⟨rfl, rfl, -⟩ := callAt_unique hforms hkey hkey hcall' hcall hstart
    exact ht

theorem positionLe_iff {a b : Position} : positionLe a b = true ↔ a.Before b ∨ a = b := by
  rcases a with ⟨line, column⟩
  rcases b with ⟨line', column'⟩
  simp only [positionLe, Bool.or_eq_true, Bool.and_eq_true, decide_eq_true_eq, beq_iff_eq,
    Position.Before, Position.mk.injEq]
  omega

/-- **The sites of a text stand in order**, and no two of them start at the same place. -/
theorem pairwise_sites (content : List Char) (patterns : List Regex) :
    (sites content patterns).Pairwise fun a b => a.start.Before b.start := by
  have hsorted : (sites content patterns).Pairwise fun a b => positionLe a.start b.start := by
    refine List.pairwise_mergeSort ?_ ?_ _
    · intro a b c hab hbc
      rw [positionLe_iff] at *
      rcases hab with hab | hab
      · rcases hbc with hbc | hbc
        · exact Or.inl (hab.trans hbc)
        · exact Or.inl (hbc ▸ hab)
      · exact hab ▸ hbc
    · intro a b
      rw [Bool.or_eq_true, positionLe_iff, positionLe_iff]
      rcases Position.before_or_eq_or_before a.start b.start with h | h | h
      · exact Or.inl (Or.inl h)
      · exact Or.inl (Or.inr h)
      · exact Or.inr (Or.inl h)
  have hdistinct : (sites content patterns).Pairwise fun a b => a.start ≠ b.start := by
    refine (List.Perm.pairwise_iff (fun h => h.symm) (List.mergeSort_perm _ _)).2 ?_
    exact pairwise_distinctBy _
  apply (hsorted.and hdistinct).imp
  rintro a b ⟨hle, hne⟩
  exact (positionLe_iff.1 hle).resolve_right hne

theorem exists_map_eq {α β : Type} {P : α → Prop} {f : α → β} {ys : List β}
    (h : ∀ y ∈ ys, ∃ x, P x ∧ f x = y) : ∃ xs : List α, (∀ x ∈ xs, P x) ∧ xs.map f = ys := by
  induction ys with
  | nil => exact ⟨[], by simp, rfl⟩
  | cons y ys ih =>
      obtain ⟨x, hx, rfl⟩ := h y List.mem_cons_self
      obtain ⟨xs, hxs, rfl⟩ := ih fun z hz => h z (List.mem_cons_of_mem _ hz)
      exact ⟨x :: xs, List.forall_mem_cons.2 ⟨hx, hxs⟩, rfl⟩

variable (content) in
/-- The calls behind the sites of a text, in order. -/
theorem exists_calls (hforms : ∀ form ∈ forms, WellNamed form)
    (hkey : ∀ c ∈ key, isKeyChar c = true) :
    ∃ calls : List (Nat × List Char), calls.Pairwise (fun a b => a.1 < b.1) ∧
      (∀ p xs, (p, xs) ∈ calls ↔ CallAt forms key content p xs) ∧
      sites content (forms.map fun form => pattern form.toList key) =
        calls.map fun call => siteAt content call.1 call.2 := by
  have hmem : ∀ s, s ∈ sites content (forms.map fun form => pattern form.toList key) ↔ _ :=
    fun s => mem_sites_iff hforms hkey
  have hsorted := pairwise_sites content (forms.map fun form => pattern form.toList key)
  generalize sites content (forms.map fun form => pattern form.toList key) = found at hmem hsorted
  obtain ⟨calls, hcalls, rfl⟩ : ∃ calls : List (Nat × List Char),
      (∀ call ∈ calls, CallAt forms key content call.1 call.2) ∧
        calls.map (fun call => siteAt content call.1 call.2) = found := by
    apply exists_map_eq
    intro s hs
    obtain ⟨p, xs, hcall, rfl⟩ := (hmem s).1 hs
    exact ⟨(p, xs), hcall, rfl⟩
  refine ⟨calls, ?_, fun p xs => ⟨fun h => hcalls _ h, ?_⟩, rfl⟩
  · apply (List.pairwise_map.1 hsorted).imp_of_mem
    intro a b ha _ hab
    have hle := (hcalls a ha).stop_le
    exact lt_of_positionOf_before (by omega) hab
  · intro h
    obtain ⟨call, hcall, heq⟩ := List.mem_map.1 ((hmem _).2 ⟨p, xs, h, rfl⟩)
    obtain ⟨rfl, rfl, -⟩ := callAt_unique hforms hkey hkey (hcalls call hcall) h
      (congrArg Site.start heq)
    exact hcall

/-- **The scan of a text is exact.**  For forms that settings accept and a key of key characters, the
sites are the calls of the grammar: there is one for every offset at which a call stands, it starts
and stops at the places of the call's first character and of its end, and its text is the call.  They
come in the order of their offsets and of their places. -/
theorem sites_exact (forms : List String) (key content : List Char)
    (hforms : ∀ form ∈ forms, Settings.checkCallForm (.text form) = .ok form)
    (hkey : ∀ c ∈ key, isKeyChar c = true) :
    ∃ calls : List (Nat × List Char), calls.Pairwise (fun a b => a.1 < b.1) ∧
      (∀ p xs, (p, xs) ∈ calls ↔ CallAt forms key content p xs) ∧
      List.Forall₂ (fun call s => IsPlace content call.1 s.start ∧
          IsPlace content (call.1 + call.2.length) s.stop ∧ s.text = String.ofList call.2)
        calls (sites content (forms.map fun form => pattern form.toList key)) ∧
      (sites content (forms.map fun form => pattern form.toList key)).Pairwise
        fun a b => a.start.Before b.start := by
  obtain ⟨calls, hsorted, hmem, hsites⟩ :=
    exists_calls content (fun form hform => wellNamed_of_check (hforms form hform)) hkey
  refine ⟨calls, hsorted, hmem, ?_, pairwise_sites _ _⟩
  rw [hsites, List.forall₂_map_right_iff, List.forall₂_same]
  exact fun call _ => ⟨isPlace_positionOf _ _, isPlace_positionOf _ _, rfl⟩

/-- Two forms with a common first name, a call over two lines with nested type arguments, and a call
whose key only ends like the one that is looked for. -/
theorem sites_exact_over_lines :
    (∀ form ∈ ["di.resolve", "di . get"], Settings.checkCallForm (.text form) = .ok form) ∧
    (∀ c ∈ "mail.v2".toList, isKeyChar c = true) ∧
    ∃ calls : List (Nat × List Char), calls.Pairwise (fun a b => a.1 < b.1) ∧
      (∀ p xs, (p, xs) ∈ calls ↔ CallAt ["di.resolve", "di . get"] "mail.v2".toList
        "di.resolve<Map<K, V>>('mail.v2')\ndi\n?.get( 'mail.v2' ) di.get('a.mail.v2')".toList p xs) ∧
      List.Forall₂ (fun call s =>
          IsPlace "di.resolve<Map<K, V>>('mail.v2')\ndi\n?.get( 'mail.v2' ) di.get('a.mail.v2')".toList
            call.1 s.start ∧
          IsPlace "di.resolve<Map<K, V>>('mail.v2')\ndi\n?.get( 'mail.v2' ) di.get('a.mail.v2')".toList
            (call.1 + call.2.length) s.stop ∧ s.text = String.ofList call.2)
        calls (sites
          "di.resolve<Map<K, V>>('mail.v2')\ndi\n?.get( 'mail.v2' ) di.get('a.mail.v2')".toList
          (["di.resolve", "di . get"].map fun form => pattern form.toList "mail.v2".toList)) ∧
      (sites
          "di.resolve<Map<K, V>>('mail.v2')\ndi\n?.get( 'mail.v2' ) di.get('a.mail.v2')".toList
          (["di.resolve", "di . get"].map fun form => pattern form.toList "mail.v2".toList)).Pairwise
        fun a b => a.start.Before b.start := by
  have hforms : ∀ form ∈ ["di.resolve", "di . get"],
      Settings.checkCallForm (.text form) = .ok form :=
    List.forall_mem_cons.2 ⟨rfl, List.forall_mem_singleton.2 rfl⟩
  have hkey : ∀ c ∈ "mail.v2".toList, isKeyChar c = true := by decide
  exact ⟨hforms, hkey, sites_exact _ _ _ hforms hkey⟩

end Forms

end ServiceKeys.Call
