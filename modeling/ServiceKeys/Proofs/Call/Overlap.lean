import ServiceKeys.Proofs.Call.Scan

/-!
# Sites that overlap

A call is found by every form that it can be read with, and a form may end in another one: the call
`di.resolve('a')` is a call of `di.resolve` and has a call of `resolve` in it.  The two begin at
different places, so both are sites.  The main statement is `overlap_exact`: sites overlap exactly if
they end at the same place, and some text has sites that overlap exactly if a form ends in another.
-/

namespace ServiceKeys.Call

open Text

/-- Whether two sites share text. -/
def Site.Overlaps (a b : Site) : Prop := a.start.Before b.stop ∧ b.start.Before a.stop

instance : Std.Symm fun a b : Site => ¬ a.Overlaps b := ⟨fun _ _ h h' => h h'.symm⟩

/-- A form ends in another one: it has the names of the other one behind names of its own. -/
def EndsIn (form form' : String) : Prop :=
  ∃ front, front ≠ [] ∧ names form.toList = front ++ names form'.toList

/-! ## Calls in calls -/

section Nested

variable {forms : List String} {key content : List Char}

theorem CallAt.length_pos {p : Nat} {xs : List Char} (h : CallAt forms key content p xs) :
    0 < xs.length := by
  obtain ⟨-, -, form, -, hcall⟩ := h
  exact List.length_pos_iff.2 (callText_ne_nil hcall)

/-- **Of two calls that share text, the later one is the end of the earlier one**, and the form of the
earlier one ends in the form of the later one. -/
theorem CallAt.nested (hforms : ∀ form ∈ forms, WellNamed form)
    (hkey : ∀ c ∈ key, isKeyChar c = true) {p q : Nat} {xs ys : List Char}
    (h : CallAt forms key content p xs) (h' : CallAt forms key content q ys) (hpq : p < q)
    (hq : q < p + xs.length) :
    p + xs.length = q + ys.length ∧ ∃ form ∈ forms, ∃ form' ∈ forms, EndsIn form form' := by
  obtain ⟨-, ⟨rest, hrest⟩, form, hform, hcall⟩ := h
  obtain ⟨huntouched, ⟨rest', hrest'⟩, form', hform', hcall'⟩ := h'
  obtain ⟨as, bs, rfl, hlength, hleft, hright, hlast, hdrop⟩ := exists_cut hrest hpq hq huntouched
  obtain ⟨rfl, -, hends⟩ := callText_nested (hforms form hform) (hforms form' hform') hkey hkey
    hleft hright hlast hcall hcall' (hdrop.trans hrest'.symm)
  refine ⟨?_, form, hform, form', hform', hends⟩
  rw [List.length_append]
  omega

/-- Sites share text if their calls do. -/
theorem CallAt.overlaps_iff {p q : Nat} {xs ys : List Char} (h : CallAt forms key content p xs)
    (h' : CallAt forms key content q ys) :
    (siteAt content p xs).Overlaps (siteAt content q ys) ↔
      p < q + ys.length ∧ q < p + xs.length := by
  have hp := h.stop_le
  have hq := h'.stop_le
  constructor
  · rintro ⟨hpq, hqp⟩
    exact ⟨lt_of_positionOf_before (by omega) hpq, lt_of_positionOf_before (by omega) hqp⟩
  · rintro ⟨hpq, hqp⟩
    exact ⟨positionOf_lt hpq hq, positionOf_lt hqp hp⟩

/-- Of two calls that share text and begin at different places, both are sites. -/
theorem CallAt.not_pairwise (hforms : ∀ form ∈ forms, WellNamed form)
    (hkey : ∀ c ∈ key, isKeyChar c = true) {p q : Nat} {xs ys : List Char}
    (h : CallAt forms key content p xs) (h' : CallAt forms key content q ys) (hpq : p < q)
    (hq : q < p + xs.length) :
    ¬ (sites content (forms.map fun form => pattern form.toList key)).Pairwise
      fun a b => ¬ a.Overlaps b := by
  intro hall
  refine hall.forall ((mem_sites_iff hforms hkey).2 ⟨p, xs, h, rfl⟩)
    ((mem_sites_iff hforms hkey).2 ⟨q, ys, h', rfl⟩) ?_ ((h.overlaps_iff h').2 ⟨by omega, hq⟩)
  intro heq
  have hsame := (callAt_unique hforms hkey hkey h h' (congrArg Site.start heq)).1
  omega

end Nested

/-! ## A call of a form that ends in another one -/

/-- Names can be put in front of a callee, each with a dot behind it. -/
theorem Callee.append_front {names : List (List Char)} {xs : List Char} (h : Callee names xs)
    (front : List (List Char)) :
    Callee (front ++ names) (front.flatMap (· ++ ['.']) ++ xs) := by
  induction front with
  | nil => exact h
  | cons name front ih =>
      have hdot : IsDot ['.'] := ⟨[], [], [], by simp [Blanks], Or.inl rfl, by simp [Blanks], rfl⟩
      simpa using Callee.dotted name hdot ih

theorem exists_callee {names : List (List Char)} (h : names ≠ []) : ∃ xs, Callee names xs := by
  have hlast := Callee.append_front (.last (names.getLast h)) names.dropLast
  rw [List.dropLast_append_getLast h] at hlast
  exact ⟨_, hlast⟩

/-- A callee and a key between quotes make a call. -/
theorem Callee.callText {names : List (List Char)} {xs : List Char} (h : Callee names xs)
    (key : List Char) : CallText names key (xs ++ '(' :: '"' :: (key ++ ['"', ')'])) := by
  refine ⟨xs, '"' :: (key ++ ['"', ')']), ⟨xs, [], [], h, Or.inl rfl, by simp [Blanks], by simp⟩,
    ⟨[], '"', [], by simp [Blanks], by decide, by simp [Blanks], by simp⟩, rfl⟩

/-- Where a form ends in another one, a call of the first one has a call of the other one at its
end. -/
theorem calls_of_front {forms : List String} {form form' : String} (hform : form ∈ forms)
    (hform' : form' ∈ forms) {front : List (List Char)} (hfront : front ≠ [])
    (hnames : names form.toList = front ++ names form'.toList) {callee : List Char}
    (hcallee : Callee (names form'.toList) callee) (key : List Char) :
    ∃ lead xs, 0 < lead.length ∧ lead ++ xs =
        front.flatMap (· ++ ['.']) ++ (callee ++ '(' :: '"' :: (key ++ ['"', ')'])) ∧
      CallAt forms key (lead ++ xs) 0 (lead ++ xs) ∧ CallAt forms key (lead ++ xs) lead.length xs := by
  have hcall := hcallee.callText key
  have hcall' := (hcallee.append_front front).callText key
  rw [← hnames, List.append_assoc] at hcall'
  refine ⟨_, _, ?_, rfl, ⟨by simp [Untouched], List.prefix_rfl, form, hform, hcall'⟩,
    ⟨?_, by rw [List.drop_left], form', hform', hcall⟩⟩
  · obtain ⟨name, rest, rfl⟩ := List.exists_cons_of_ne_nil hfront
    simp
  · -- a dot leads up to the call at the end
    obtain ⟨first, last, rfl⟩ := List.eq_nil_or_concat front |>.resolve_left hfront
    have hdots : (first.concat last).flatMap (· ++ ['.']) =
        (first.flatMap (· ++ ['.']) ++ last) ++ ['.'] := by simp
    rw [Untouched, List.take_left, hdots, List.getLast?_concat]
    exact fun c hc => Option.some.inj hc ▸ not_name_dot

/-! ## Sites -/

/-- **Sites overlap where a call ends twice.**  For forms that settings accept and a key of key
characters, two sites of a text overlap exactly if they stop at the same place, and that two sites of
a text never overlap holds exactly if no form ends in another one. -/
theorem overlap_exact (forms : List String) (key : List Char)
    (hforms : ∀ form ∈ forms, Settings.checkCallForm (.text form) = .ok form)
    (hkey : ∀ c ∈ key, isKeyChar c = true) :
    (∀ content, ∀ a ∈ sites content (forms.map fun form => pattern form.toList key),
      ∀ b ∈ sites content (forms.map fun form => pattern form.toList key), a ≠ b →
        (a.Overlaps b ↔ a.stop = b.stop)) ∧
    ((∀ content, (sites content (forms.map fun form => pattern form.toList key)).Pairwise
        fun a b => ¬ a.Overlaps b) ↔
      ∀ form ∈ forms, ∀ form' ∈ forms, ¬ EndsIn form form') := by
  have hnamed : ∀ form ∈ forms, WellNamed form :=
    fun form hform => wellNamed_of_check (hforms form hform)
  have hmem : ∀ content s, s ∈ sites content (forms.map fun form => pattern form.toList key) ↔
      ∃ p xs, CallAt forms key content p xs ∧ s = siteAt content p xs :=
    fun _ _ => mem_sites_iff hnamed hkey
  refine ⟨?_, ?_, ?_⟩
  · intro content a ha b hb hne
    obtain ⟨p, xs, hcall, rfl⟩ := (hmem content a).1 ha
    obtain ⟨q, ys, hcall', rfl⟩ := (hmem content b).1 hb
    have hp := hcall.stop_le
    have hq := hcall'.stop_le
    have hxs := hcall.length_pos
    have hys := hcall'.length_pos
    rw [hcall.overlaps_iff hcall']
    constructor
    · rintro ⟨hpq, hqp⟩
      suffices hend : p + xs.length = q + ys.length from congrArg (positionOf content) hend
      rcases Nat.lt_trichotomy p q with hlt | rfl | hlt
      · exact (hcall.nested hnamed hkey hcall' hlt hqp).1
      · obtain ⟨-, rfl, -⟩ := callAt_unique hnamed hkey hkey hcall hcall' rfl
        exact absurd rfl hne
      · exact (hcall'.nested hnamed hkey hcall hlt hpq).1.symm
    · intro hstop
      have hend : p + xs.length = q + ys.length := positionOf_inj hp hq hstop
      omega
  · rintro hall form hform form' hform' ⟨front, hfront, hnames⟩
    obtain ⟨callee, hcallee⟩ := exists_callee (names_ne_nil form'.toList)
    obtain ⟨lead, xs, hlead, -, hcall, hcall'⟩ :=
      calls_of_front hform hform' hfront hnames hcallee key
    have hxs := hcall'.length_pos
    refine hcall.not_pairwise hnamed hkey hcall' hlead ?_ (hall _)
    rw [List.length_append]
    omega
  · intro hall content
    refine (pairwise_sites content _).imp_of_mem ?_
    intro a b ha hb hstart hover
    obtain ⟨p, xs, hcall, rfl⟩ := (hmem content a).1 ha
    obtain ⟨q, ys, hcall', rfl⟩ := (hmem content b).1 hb
    have hp := hcall.stop_le
    have hlt : p < q := lt_of_positionOf_before (by omega) hstart
    obtain ⟨-, form, hform, form', hform', hends⟩ :=
      hcall.nested hnamed hkey hcall' hlt ((hcall.overlaps_iff hcall').1 hover).2
    exact hall form hform form' hform' hends

/-- Three forms, none of which ends in another one although two share their first name and two their
last. -/
theorem overlap_exact_apart :
    (∀ form ∈ ["di.resolve", "di . get", "app.get"],
      Settings.checkCallForm (.text form) = .ok form) ∧
    (∀ c ∈ "mail.v2".toList, isKeyChar c = true) ∧
    (∀ content, ∀ a ∈ sites content (["di.resolve", "di . get", "app.get"].map
        fun form => pattern form.toList "mail.v2".toList),
      ∀ b ∈ sites content (["di.resolve", "di . get", "app.get"].map
        fun form => pattern form.toList "mail.v2".toList), a ≠ b →
        (a.Overlaps b ↔ a.stop = b.stop)) ∧
    ((∀ content, (sites content (["di.resolve", "di . get", "app.get"].map
        fun form => pattern form.toList "mail.v2".toList)).Pairwise fun a b => ¬ a.Overlaps b) ↔
      ∀ form ∈ ["di.resolve", "di . get", "app.get"],
        ∀ form' ∈ ["di.resolve", "di . get", "app.get"], ¬ EndsIn form form') := by
  have hforms : ∀ form ∈ ["di.resolve", "di . get", "app.get"],
      Settings.checkCallForm (.text form) = .ok form :=
    List.forall_mem_cons.2 ⟨rfl, List.forall_mem_cons.2 ⟨rfl, List.forall_mem_singleton.2 rfl⟩⟩
  have hkey : ∀ c ∈ "mail.v2".toList, isKeyChar c = true := by decide
  exact ⟨hforms, hkey, overlap_exact _ _ hforms hkey⟩

/-- A form and its last name are two forms that settings accept together, and then one call is two
sites. -/
theorem overlap_of_receiver :
    (∀ form ∈ ["container.resolve", "resolve"], Settings.checkCallForm (.text form) = .ok form) ∧
    ¬ (sites "container.resolve(\"a\")".toList (["container.resolve", "resolve"].map
      fun form => pattern form.toList "a".toList)).Pairwise fun a b => ¬ a.Overlaps b := by
  have hforms : ∀ form ∈ ["container.resolve", "resolve"],
      Settings.checkCallForm (.text form) = .ok form :=
    List.forall_mem_cons.2 ⟨rfl, List.forall_mem_singleton.2 rfl⟩
  have hnamed : ∀ form ∈ ["container.resolve", "resolve"], WellNamed form :=
    fun form hform => wellNamed_of_check (hforms form hform)
  have hnames : names "container.resolve".toList =
      ["container".toList] ++ names "resolve".toList := by decide
  have hcallee : Callee (names "resolve".toList) "resolve".toList := .last _
  obtain ⟨lead, xs, hlead, heq, hcall, hcall'⟩ := calls_of_front
    (by simp : "container.resolve" ∈ ["container.resolve", "resolve"])
    (by simp : "resolve" ∈ ["container.resolve", "resolve"]) (by simp) hnames hcallee "a".toList
  have hcontent : lead ++ xs = "container.resolve(\"a\")".toList := heq
  have hxs := hcall'.length_pos
  rw [← hcontent]
  refine ⟨hforms, hcall.not_pairwise hnamed (by decide) hcall' hlead ?_⟩
  rw [List.length_append]
  omega

end ServiceKeys.Call
