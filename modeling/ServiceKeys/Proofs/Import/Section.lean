import ServiceKeys.Proofs.Import.Statement

/-!
# Import sections

A text that is a list of declarations of both kinds, one after the other.  Each declaration is a
stretch of its own for the pattern of its kind, and nothing at all for the other pattern, so the
bindings that are found are those that were written.  They are found kind by kind and then sorted by
offset; the offsets of declarations grow, so sorting puts them back into the order of the text.  Main
statement: `section_exact`.
-/

namespace ServiceKeys.Import

open Text Regex

/-! ## Sorting by offset -/

section Sorting

variable {β : Type} {l l' : List (Nat × β)}

/-- Two lists in the order of their keys are equal if they agree on every key. -/
theorem eq_of_filter_eq (h : l.Pairwise fun a b => a.1 ≤ b.1) (h' : l'.Pairwise fun a b => a.1 ≤ b.1)
    (hfilter : ∀ v, l.filter (·.1 == v) = l'.filter (·.1 == v)) : l = l' := by
  induction l generalizing l' with
  | nil =>
      refine (List.eq_nil_iff_forall_not_mem.2 fun x hx => ?_).symm
      have hmem : x ∈ l'.filter (·.1 == x.1) := by simp [hx]
      simp [← hfilter] at hmem
  | cons a l ih =>
      cases l' with
      | nil => simpa using hfilter a.1
      | cons b l' =>
          -- each of the first two members is in the other list, so neither key is smaller
          have hba : b.1 ≤ a.1 := by
            have hmem : a ∈ (b :: l').filter (·.1 == a.1) := by simp [← hfilter]
            rcases List.mem_cons.1 (List.mem_of_mem_filter hmem) with rfl | hmem
            · exact le_rfl
            · exact (List.pairwise_cons.1 h').1 a hmem
          have hab : a.1 ≤ b.1 := by
            have hmem : b ∈ (a :: l).filter (·.1 == b.1) := by simp [hfilter]
            rcases List.mem_cons.1 (List.mem_of_mem_filter hmem) with rfl | hmem
            · exact le_rfl
            · exact (List.pairwise_cons.1 h).1 b hmem
          have hkey : b.1 = a.1 := Nat.le_antisymm hba hab
          obtain rfl : a = b := by
            have hfirst := hfilter a.1
            simp only [List.filter_cons, hkey, beq_self_eq_true, if_true] at hfirst
            exact (List.cons.inj hfirst).1
          refine congrArg (a :: ·) (ih h.of_cons h'.of_cons fun v => ?_)
          have hv := hfilter v
          simp only [List.filter_cons] at hv
          split at hv
          · exact (List.cons.inj hv).2
          · exact hv

theorem key_trans (a b c : Nat × β) (hab : decide (a.1 ≤ b.1) = true) (hbc : decide (b.1 ≤ c.1) = true) :
    decide (a.1 ≤ c.1) = true := by
  simp only [decide_eq_true_eq] at hab hbc ⊢
  exact Nat.le_trans hab hbc

theorem key_total (a b : Nat × β) : (decide (a.1 ≤ b.1) || decide (b.1 ≤ a.1)) = true := by
  simpa using Nat.le_total a.1 b.1

/-- Sorting keeps the order of members with the same key. -/
theorem filter_mergeSort (l : List (Nat × β)) (v : Nat) :
    (l.mergeSort fun a b => decide (a.1 ≤ b.1)).filter (·.1 == v) = l.filter (·.1 == v) := by
  have hpairwise : (l.filter (·.1 == v)).Pairwise fun a b => decide (a.1 ≤ b.1) = true := by
    refine List.pairwise_of_forall_mem_list fun a ha b hb => ?_
    obtain rfl : a.1 = v := by simpa using (List.mem_filter.1 ha).2
    have hb : b.1 = a.1 := by simpa using (List.mem_filter.1 hb).2
    simp [hb]
  have hsub : (l.filter (·.1 == v)).Sublist (l.mergeSort fun a b => decide (a.1 ≤ b.1)) :=
    List.sublist_mergeSort key_trans key_total hpairwise List.filter_sublist
  have hfilter := hsub.filter (·.1 == v)
  simp only [List.filter_filter, Bool.and_self] at hfilter
  exact (hfilter.eq_of_length (((List.mergeSort_perm l _).filter _).length_eq.symm)).symm

/-- A list is sorted into any list in the order of its keys that agrees with it on every key. -/
theorem mergeSort_eq (h : l'.Pairwise fun a b => a.1 ≤ b.1)
    (hfilter : ∀ v, l.filter (·.1 == v) = l'.filter (·.1 == v)) :
    (l.mergeSort fun a b => decide (a.1 ≤ b.1)) = l' := by
  refine eq_of_filter_eq ?_ h fun v => (filter_mergeSort l v).trans (hfilter v)
  have hsorted : (l.mergeSort fun a b => decide (a.1 ≤ b.1)).Pairwise
      fun a b => decide (a.1 ≤ b.1) = true := List.pairwise_mergeSort key_trans key_total l
  exact hsorted.imp of_decide_eq_true

end Sorting

/-! ## Declarations at their offsets -/

/-- Declarations one after the other, with their offsets. -/
def placed (offset : Nat) : List Statement → List (Nat × Statement)
  | [] => []
  | s :: ss => (offset, s) :: placed (offset + s.text.length) ss

/-- The bindings of a declaration, with its offset. -/
def tagged (x : Nat × Statement) : List (Nat × Binding) := x.2.bindings.map fun b => (x.1, b)

theorem Statement.text_ne_nil (s : Statement) : s.text ≠ [] := by simp [text]

theorem le_of_mem_placed {offset : Nat} {ss : List Statement} {x : Nat × Statement}
    (h : x ∈ placed offset ss) : offset ≤ x.1 := by
  induction ss generalizing offset with
  | nil => simp [placed] at h
  | cons s ss ih =>
      rcases List.mem_cons.1 h with rfl | h
      · exact le_rfl
      · exact (Nat.le_add_right _ _).trans (ih h)

/-- The offsets grow. -/
theorem pairwise_placed (offset : Nat) (ss : List Statement) :
    (placed offset ss).Pairwise fun a b => a.1 < b.1 := by
  induction ss generalizing offset with
  | nil => exact .nil
  | cons s ss ih =>
      refine List.pairwise_cons.2 ⟨fun x hx => ?_, ih _⟩
      have hle := le_of_mem_placed hx
      have hpos := List.length_pos_iff.2 s.text_ne_nil
      show offset < x.1
      omega

theorem flatMap_tagged_placed (offset : Nat) (ss : List Statement) :
    ((placed offset ss).flatMap tagged).map Prod.snd = ss.flatMap Statement.bindings := by
  induction ss generalizing offset with
  | nil => rfl
  | cons s ss ih =>
      rw [placed, List.flatMap_cons, List.map_append, ih, List.flatMap_cons, tagged, List.map_map]
      congr 1
      exact List.map_id _

theorem filter_tagged (xs : List (Nat × Statement)) (v : Nat) :
    (xs.flatMap tagged).filter (·.1 == v) = (xs.filter (·.1 == v)).flatMap tagged := by
  induction xs with
  | nil => rfl
  | cons x xs ih =>
      rw [List.flatMap_cons, List.filter_append, ih, List.filter_cons]
      by_cases hv : x.1 = v
      · simp [hv, tagged]
      · simp [hv, tagged]

theorem pairwise_tagged {xs : List (Nat × Statement)} (h : xs.Pairwise fun a b => a.1 < b.1) :
    (xs.flatMap tagged).Pairwise fun a b => a.1 ≤ b.1 := by
  induction xs with
  | nil => exact .nil
  | cons x xs ih =>
      obtain ⟨hfirst, hrest⟩ := List.pairwise_cons.1 h
      rw [List.flatMap_cons, List.pairwise_append]
      refine ⟨?_, ih hrest, ?_⟩
      · refine List.pairwise_of_forall_mem_list fun a ha b hb => ?_
        obtain ⟨_, -, rfl⟩ := List.mem_map.1 ha
        obtain ⟨_, -, rfl⟩ := List.mem_map.1 hb
        exact le_rfl
      · intro a ha b hb
        obtain ⟨_, -, rfl⟩ := List.mem_map.1 ha
        obtain ⟨y, hy, hb⟩ := List.mem_flatMap.1 hb
        obtain ⟨_, -, rfl⟩ := List.mem_map.1 hb
        exact Nat.le_of_lt (hfirst y hy)

/-- Taken kind by kind and sorted by offset, the bindings are in the order of the text. -/
theorem mergeSort_tagged {xs : List (Nat × Statement)} (h : xs.Pairwise fun a b => a.1 < b.1)
    (p : Nat × Statement → Bool) :
    (((xs.filter p).flatMap tagged ++ (xs.filter fun x => !p x).flatMap tagged).mergeSort
      fun a b => decide (a.1 ≤ b.1)) = xs.flatMap tagged := by
  refine mergeSort_eq (pairwise_tagged h) fun v => ?_
  have hswap : ∀ p : Nat × Statement → Bool,
      (xs.filter p).filter (·.1 == v) = (xs.filter (·.1 == v)).filter p := fun p =>
    List.filter_comm ..
  rw [List.filter_append, filter_tagged, filter_tagged, filter_tagged, hswap, hswap]
  have hone := h.filter (·.1 == v)
  cases hxs : xs.filter (·.1 == v) with
  | nil => rfl
  | cons x ys =>
      cases ys with
      | nil => cases hp : p x <;> simp [hp]
      | cons y ys =>
          -- no two declarations have the same offset
          exfalso
          have hkey : ∀ z ∈ xs.filter (·.1 == v), z.1 = v := fun z hz => by
            simpa using (List.mem_filter.1 hz).2
          have hlt := (List.pairwise_cons.1 (hxs ▸ hone)).1 y List.mem_cons_self
          rw [hkey x (by simp [hxs]), hkey y (by simp [hxs])] at hlt
          exact Nat.lt_irrefl v hlt

/-! ## What is found in a section -/

/-- A declaration can begin behind a blank. -/
theorem fresh_of_blank {front : List Char} (h : ∀ c ∈ front.getLast?, isBlank c = true) :
    Fresh front := by
  intro c hc
  have hsigns : ∀ d ∈ ['$', '.'], isBlank d = false := by decide
  rw [CharSet.accepts_wordOr, isWord_of_isBlank (h c hc), Bool.false_or, ← Bool.not_eq_true,
    List.contains_iff_mem]
  intro hsign
  exact Bool.false_ne_true ((hsigns c hsign).symm.trans (h c hc))

/-- A declaration ends in a semicolon or a blank, so the next one can begin behind it. -/
theorem Space.fresh_behind (s : Space) (front : List Char) : Fresh (front ++ ';' :: s.text) := by
  intro c hc
  rw [List.getLast?_append_of_ne_nil _ (by simp)] at hc
  rcases List.mem_cons.1 (List.mem_of_getLast? hc) with rfl | hblank
  · decide
  · exact (fresh_of_blank (by simpa using s.blanks c hblank) : Fresh [c]) c rfl

theorem Statement.fresh_append (s : Statement) (front : List Char) : Fresh (front ++ s.text) := by
  rw [text, ← List.append_assoc]
  exact s.behind.fresh_behind _

/-- No declaration begins behind a declaration's last sign. -/
theorem Space.quiet_behind (s : Space) (kind : Kind) (rest : List Char) :
    Quiet kind.keywords (';' :: s.text) rest :=
  (quiet_sign kind.keywords_subset (by decide)).append (s.quiet kind.keywords_subset)

/-- **A declaration is a stretch of its own**: the pattern of its kind finds its bindings in it, and
the other pattern finds nothing. -/
theorem Statement.exists_reports (s : Statement) (kind : Kind) {front : List Char}
    (hfront : Fresh front) (rest : List Char) :
    ∃ ms, Reports kind.pattern (front ++ (s.text ++ rest)) front.length (front ++ s.text).length ms ∧
      ms.flatMap kind.found = if s.form.kind = kind then tagged (front.length, s) else [] := by
  have hlength : (front ++ s.text).length ≤ (front ++ (s.text ++ rest)).length := by
    simp only [List.length_append]
    omega
  have hle : front.length ≤ (front ++ s.text).length := by simp
  by_cases hkind : s.form.kind = kind
  · subst hkind
    have htext : s.text ++ rest = s.core ++ (';' :: s.behind.text ++ rest) := by simp [text]
    obtain ⟨m, hm, hstop, hfound⟩ := s.exists_matchInside hfront (';' :: s.behind.text ++ rest)
    have hnone := noneBetween_of_quiet s.form.kind.beginsWith (s.behind.quiet_behind s.form.kind rest)
      (front ++ s.core)
    rw [← htext] at hm
    refine ⟨[m], reports_singleton s.form.kind.advances le_rfl (fun l hl hlt => by omega) hm ?_ hlength ?_,
      by simp [hfound, tagged]⟩
    · rw [hstop]
      simp only [text, List.length_append]
      omega
    · rw [hstop]
      simpa [text] using hnone
  · have hquiet := (s.quiet hkind (';' :: s.behind.text ++ rest)).append (s.behind.quiet_behind kind rest)
    refine ⟨[], reports_nil kind.advances hle hlength ?_, by simp [hkind]⟩
    exact noneBetween_of_quiet kind.beginsWith hquiet front

/-- The declarations of a section, one after the other. -/
theorem exists_reports_section (kind : Kind) (ss : List Statement) {front : List Char}
    (hfront : Fresh front) :
    ∃ ms, Reports kind.pattern (front ++ ss.flatMap Statement.text) front.length
        (front ++ ss.flatMap Statement.text).length ms ∧
      ms.flatMap kind.found =
        ((placed front.length ss).filter (·.2.form.kind == kind)).flatMap tagged := by
  induction ss generalizing front with
  | nil => exact ⟨[], ⟨by simp, le_rfl, by simp⟩, rfl⟩
  | cons s ss ih =>
      obtain ⟨ms, hms, hfound⟩ := s.exists_reports kind hfront (ss.flatMap Statement.text)
      obtain ⟨ms', hms', hfound'⟩ := ih (s.fresh_append front)
      rw [List.append_assoc] at hms'
      refine ⟨ms ++ ms', hms.append hms', ?_⟩
      rw [List.flatMap_append, hfound, hfound', List.length_append, placed, List.filter_cons]
      by_cases hkind : s.form.kind = kind
      · simp [hkind]
      · simp [hkind]

theorem flatMap_found_findAll (kind : Kind) (ss : List Statement) :
    (findAll kind.pattern (ss.flatMap Statement.text)).flatMap kind.found =
      ((placed 0 ss).filter (·.2.form.kind == kind)).flatMap tagged := by
  have hfront : Fresh [] := by simp [Fresh]
  obtain ⟨ms, hms, hfound⟩ := exists_reports_section kind ss hfront
  have hall : findAll kind.pattern (ss.flatMap Statement.text) = ms :=
    findAll_eq_of_reports kind.advances hms
  rw [hall]
  exact hfound

/-- The bindings of a section with their offsets, kind by kind. -/
theorem located_section (ss : List Statement) :
    located (ss.flatMap Statement.text) =
      ((placed 0 ss).filter (·.2.form.kind == .imported)).flatMap tagged ++
        ((placed 0 ss).filter fun x => !(x.2.form.kind == .imported)).flatMap tagged := by
  have hother : ∀ x : Nat × Statement,
      (x.2.form.kind == .required) = !(x.2.form.kind == .imported) := by
    intro x
    cases x.2.form <;> rfl
  rw [← flatMap_found_findAll .imported, ← funext hother, ← flatMap_found_findAll .required]
  rfl

theorem all_section (ss : List Statement) :
    all (ss.flatMap Statement.text) = ss.flatMap Statement.bindings := by
  rw [all, located_section, mergeSort_tagged (pairwise_placed 0 ss), flatMap_tagged_placed]

/-! ## Names in scope -/

/-- The names that a clause binds are names. -/
theorem Clause.exists_name (C : Clause) : ∀ x ∈ C.pairs, ∃ n : Name, x.2 = String.ofList n.text := by
  have htail : ∀ t : Tail, ∀ x ∈ t.pairs, ∃ n : Name, x.2 = String.ofList n.text := by
    intro t x hx
    cases t with
    | all before after n => exact ⟨n, by simp_all [Tail.pairs]⟩
    | named cells =>
        obtain ⟨cell, -, hpair⟩ := List.mem_filterMap.1 hx
        obtain ⟨item, -, rfl⟩ := Option.map_eq_some_iff.1 hpair
        exact ⟨item.localName, rfl⟩
  intro x hx
  cases C with
  | default n => exact ⟨n, by simp_all [pairs]⟩
  | tail t => exact htail t x hx
  | both n space t =>
      rcases List.mem_cons.1 hx with rfl | hx
      · exact ⟨n, rfl⟩
      · exact htail t x hx

theorem Statement.isIdentifier_localName {s : Statement} {b : Binding} (h : b ∈ s.bindings) :
    isIdentifier b.localName.toList = true := by
  obtain ⟨x, hx, rfl⟩ := List.mem_map.1 h
  have hname : ∃ n : Name, x.2 = String.ofList n.text := by
    rcases s with ⟨form, q, spec, behind⟩
    cases form with
    | imported gap typed C before after => exact C.exists_name x hx
    | required gap target before after => exact target.clause.exists_name x hx
  obtain ⟨n, hn⟩ := hname
  show isIdentifier x.2.toList = true
  rw [hn, String.toList_ofList]
  exact n.isIdentifier

/-- **What is written into an import section is found in it.**  The bindings are those of the
declarations, in the order of the text, and an identifier is bound by the first of them that has it as
its local name, if there is any. -/
theorem section_exact (ss : List Statement) :
    all (ss.flatMap Statement.text) = ss.flatMap Statement.bindings ∧
      ∀ identifier : String, find? (ss.flatMap Statement.text) identifier =
        (ss.flatMap Statement.bindings).find? fun b => b.localName == identifier := by
  refine ⟨all_section ss, fun identifier => ?_⟩
  rw [find?, all_section]
  split
  · rfl
  · rename_i hnot
    -- what is not an identifier is no local name
    refine (List.find?_eq_none.2 fun b hb heq => hnot ?_).symm
    obtain ⟨s, -, hb⟩ := List.mem_flatMap.1 hb
    rw [← beq_iff_eq.1 heq]
    exact Statement.isIdentifier_localName hb

-- the words `from` and `as` are names
example :
    let gap : Gap := ⟨⟨[' '], by unfold Blanks; decide⟩, by decide⟩
    let none : Space := ⟨[], by unfold Blanks; decide⟩
    let word : Name := ⟨"from".toList, ⟨'f', "rom".toList, rfl, by decide, by decide⟩, by decide⟩
    let other : Name := ⟨"as".toList, ⟨'a', "s".toList, rfl, by decide, by decide⟩, by decide⟩
    let cells : List Cell :=
      [⟨gap.toSpace, some ⟨some gap, other, some (.as gap gap, word)⟩, none⟩, ⟨gap.toSpace, .none, none⟩]
    let s : Statement := ⟨.imported gap .none (.both word gap.toSpace (.named cells)) gap gap,
      .single, ⟨"./x".toList, by decide, by decide⟩, gap.toSpace⟩
    s.text = "import from, \x7b type as as from, \x7d from './x'; ".toList ∧
      s.bindings = [⟨"./x", .default, "from"⟩, ⟨"./x", .named "as", "from"⟩] := by
  decide

end ServiceKeys.Import
