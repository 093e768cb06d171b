import ServiceKeys.Path.Basic
import ServiceKeys.Proofs.Text.Lines
import Mathlib.Data.List.Lex
import Mathlib.Data.String.Basic

/-!
# Paths in absolute form

A path seen from an absolute working directory is absolute and has no double dots left, so that
taking its absolute form again changes nothing.  Its components are *proper*: they are not empty, are
no single dot and hold no separator, as with every path that is read from a text; so two of them are
written in the same way only if they are the same.  Paths in order are in the lexicographic order of
their components.
-/

namespace ServiceKeys.Path

theorem notMem_climb {done : List String} {part : String} (h : ".." ∉ done) :
    ".." ∉ climb done part := by
  unfold climb
  split
  · exact fun hmem => h (List.dropLast_subset done hmem)
  · rename_i hpart
    have hne : part ≠ ".." := by simpa using hpart
    rw [List.mem_append, List.mem_singleton]
    rintro (hmem | rfl)
    · exact h hmem
    · exact hne rfl

theorem notMem_foldl_climb {parts done : List String} (h : ".." ∉ done) :
    ".." ∉ parts.foldl climb done := by
  induction parts generalizing done with
  | nil => exact h
  | cons part parts ih => exact ih (notMem_climb h)

theorem foldl_climb {parts done : List String} (h : ".." ∉ parts) :
    parts.foldl climb done = done ++ parts := by
  induction parts generalizing done with
  | nil => simp
  | cons part parts ih =>
      rw [List.mem_cons, not_or] at h
      have hclimb : climb done part = done ++ [part] := by
        rw [climb, if_neg]
        simpa using fun hpart => h.1 hpart.symm
      rw [List.foldl_cons, ih h.2, hclimb, List.append_assoc, List.singleton_append]

/-- No double dot is left. -/
theorem notMem_resolveDots (parts : List String) : ".." ∉ resolveDots parts :=
  notMem_foldl_climb (by simp)

/-- Without double dots there is nothing to work off. -/
theorem resolveDots_eq_self {parts : List String} (h : ".." ∉ parts) : resolveDots parts = parts :=
  foldl_climb h

theorem join_of_isAbsolute {p q : Path} (h : q.isAbsolute = true) : p.join q = q := by
  rw [join, if_pos h]

theorem isAbsolute_join {p q : Path} (h : p.isAbsolute = true) : (p.join q).isAbsolute = true := by
  unfold join
  split
  · assumption
  · exact h

theorem isAbsolute_normalize {cwd : Path} (h : cwd.isAbsolute = true) (p : Path) :
    (p.normalize cwd).isAbsolute = true := isAbsolute_join (q := p) h

theorem normalize_of_isAbsolute {p : Path} (h : p.isAbsolute = true) (cwd : Path) :
    p.normalize cwd = { p with parts := resolveDots p.parts } := by
  rw [normalize, join_of_isAbsolute h]

/-- An absolute path without double dots is its own absolute form. -/
theorem normalize_eq_self {p : Path} (h : p.isAbsolute = true) (hdots : ".." ∉ p.parts) (cwd : Path) :
    p.normalize cwd = p := by
  rw [normalize_of_isAbsolute h, resolveDots_eq_self hdots]

/-- **Taking the absolute form twice is taking it once.** -/
theorem normalize_normalize {cwd : Path} (h : cwd.isAbsolute = true) (p : Path) :
    (p.normalize cwd).normalize cwd = p.normalize cwd :=
  normalize_eq_self (isAbsolute_normalize h p) (notMem_resolveDots _) cwd

/-! ## Paths below a path -/

/-- A path continued by components. -/
def descend (p : Path) (names : List String) : Path := { p with parts := p.parts ++ names }

@[simp]
theorem descend_nil (p : Path) : p.descend [] = p := by simp [descend]

theorem descend_append (p : Path) (front names : List String) :
    p.descend (front ++ names) = (p.descend front).descend names := by simp [descend]

@[simp]
theorem child_descend (p : Path) (names : List String) (name : String) :
    (p.descend names).child name = p.descend (names ++ [name]) := by simp [descend, child]

theorem descend_inj {p : Path} {names names' : List String} :
    p.descend names = p.descend names' ↔ names = names' := by simp [descend]

@[simp]
theorem parent_child (p : Path) (name : String) : (p.child name).parent = p := by
  simp [child, parent]

@[simp]
theorem name_child (p : Path) (last : String) : (p.child last).name = last := by
  simp [child, name]

theorem join_descend (p q : Path) (names : List String) :
    p.join (q.descend names) = (p.join q).descend names := by
  have habsolute : (q.descend names).isAbsolute = q.isAbsolute := rfl
  rw [join, join, habsolute]
  split
  · rfl
  · simp [descend]

theorem join_child (p q : Path) (name : String) : p.join (q.child name) = (p.join q).child name :=
  join_descend p q [name]

/-- Components that do not climb stay behind the absolute form. -/
theorem normalize_descend {names : List String} (h : ".." ∉ names) (p cwd : Path) :
    (p.descend names).normalize cwd = (p.normalize cwd).descend names := by
  have hdots : ∀ parts, resolveDots (parts ++ names) = resolveDots parts ++ names := by
    intro parts
    rw [resolveDots, List.foldl_append, foldl_climb h]
    rfl
  rw [normalize, normalize, join_descend, descend, descend, hdots]

/-- A path is found below a directory exactly if it goes on from there. -/
theorem below?_eq_some_iff {dir p : Path} {names : List String} :
    dir.below? p = some names ↔ p = dir.descend names := by
  rw [below?]
  constructor
  · intro h
    split at h
    · rename_i hbelow
      obtain ⟨rest, hrest⟩ := List.isPrefixOf_iff_prefix.1 hbelow.2
      have hnames : rest = names := by simpa [← hrest] using h
      rw [descend, ← hnames, hrest, ← hbelow.1]
    · simp at h
  · rintro rfl
    simp [descend]

/-- A path goes on from a directory by components none of which climbs, so that it is the directory or
lies below it. -/
def Within (dir p : Path) : Prop := ∃ names, ".." ∉ names ∧ p = dir.descend names

namespace Within

variable {dir p q : Path}

theorem refl (dir : Path) : dir.Within dir := ⟨[], by simp, by simp⟩

theorem trans (hp : dir.Within p) (hq : p.Within q) : dir.Within q := by
  obtain ⟨names, hnames, rfl⟩ := hp
  obtain ⟨more, hmore, rfl⟩ := hq
  exact ⟨names ++ more, by simp [hnames, hmore], (descend_append dir names more).symm⟩

theorem child {name : String} (h : name ≠ "..") (dir : Path) : dir.Within (dir.child name) :=
  ⟨[name], by simpa using h.symm, rfl⟩

/-- The components of the directory are the first ones of the path. -/
theorem isPrefix (h : dir.Within p) : p.root = dir.root ∧ dir.parts <+: p.parts := by
  obtain ⟨names, -, rfl⟩ := h
  exact ⟨rfl, List.prefix_append _ _⟩

theorem normalize (h : dir.Within p) (cwd : Path) :
    (dir.normalize cwd).Within (p.normalize cwd) := by
  obtain ⟨names, hnames, rfl⟩ := h
  exact ⟨names, hnames, normalize_descend hnames dir cwd⟩

/-- A path in a directory that is in absolute form is in absolute form. -/
theorem normalize_eq {cwd : Path} (hdir : dir.normalize cwd = dir) (h : dir.Within p) :
    p.normalize cwd = p := by
  obtain ⟨names, hnames, rfl⟩ := h
  rw [normalize_descend hnames, hdir]

end Within

/-! ## Reading a path -/

/-- The slashes of a root are read as that root, if no other slash follows. -/
theorem ofString_written (root : Root) {s : String} (h : s.toList.head? ≠ some '/') :
    ofString (root.written ++ s) = ⟨root, components s.toList⟩ := by
  have hslashes : s.toList.takeWhile (· == '/') = [] := by
    cases hs : s.toList with
    | nil => rfl
    | cons c cs =>
        have hc : c ≠ '/' := by simpa [hs] using h
        simp [hc]
  have hskip : ∀ rest, components ('/' :: rest) = components rest := fun _ => rfl
  cases root with
  | none => simp [ofString, Root.written, Root.ofSlashes, hslashes]
  | single => simp [ofString, Root.written, Root.ofSlashes, hslashes, hskip]
  | double => simp [ofString, Root.written, Root.ofSlashes, hslashes, hskip]

/-- A text that does not begin with a slash is a relative path. -/
theorem ofString_of_head? {s : String} (h : s.toList.head? ≠ some '/') :
    ofString s = ⟨.none, components s.toList⟩ := by
  have hread := ofString_written .none h
  rwa [Root.written, String.empty_append] at hread

theorem isAbsolute_ofString_cons {s : String} (h : s.toList.head? = some '/') :
    (ofString s).isAbsolute = true := by
  obtain ⟨cs, hcs⟩ := List.head?_eq_some_iff.1 h
  have hlength : (s.toList.takeWhile (· == '/')).length = (cs.takeWhile (· == '/')).length + 1 := by
    rw [hcs]
    rfl
  rw [isAbsolute, ofString, hlength]
  cases (cs.takeWhile (· == '/')).length with
  | zero => rfl
  | succ n => cases n <;> rfl

/-! ## Proper components -/

/-- A component that means something by itself. -/
def ProperName (part : String) : Prop := part ≠ "" ∧ part ≠ "." ∧ '/' ∉ part.toList

instance (part : String) : Decidable (ProperName part) :=
  inferInstanceAs (Decidable (part ≠ "" ∧ part ≠ "." ∧ '/' ∉ part.toList))

/-- A path of proper components. -/
def Proper (p : Path) : Prop := ∀ part ∈ p.parts, ProperName part

theorem proper_ofString (s : String) : (ofString s).Proper := by
  intro part hpart
  obtain ⟨piece, hpiece, rfl⟩ := List.mem_map.1 hpart
  obtain ⟨hmem, hkept⟩ := List.mem_filter.1 hpiece
  simp only [Bool.and_eq_true, bne_iff_ne] at hkept
  refine ⟨fun h => hkept.1 ?_, fun h => hkept.2 ?_, ?_⟩
  · simpa using congrArg String.toList h
  · simpa using congrArg String.toList h
  · rw [String.toList_ofList]
    exact Text.notMem_of_mem_splitOn hmem

/-- A proper name is the path with that one component. -/
theorem ofString_of_properName {name : String} (h : ProperName name) :
    ofString name = ⟨.none, [name]⟩ := by
  obtain ⟨hempty, hdot, hslash⟩ := h
  have hempty' : name.toList ≠ [] := fun h => hempty (String.toList_inj.1 h)
  have hdot' : name.toList ≠ ['.'] := fun h => hdot (String.toList_inj.1 h)
  rw [ofString_of_head? fun hhead => hslash (List.mem_of_head? hhead), components,
    Text.splitOn_of_notMem hslash]
  simp [hempty', hdot']

theorem mem_of_mem_foldl_climb {parts done : List String} {part : String}
    (h : part ∈ parts.foldl climb done) : part ∈ done ∨ part ∈ parts := by
  induction parts generalizing done with
  | nil => exact Or.inl h
  | cons next parts ih =>
      rcases ih h with hmem | hmem
      · unfold climb at hmem
        split at hmem
        · exact Or.inl (List.dropLast_subset done hmem)
        · rcases List.mem_append.1 hmem with hmem | hmem
          · exact Or.inl hmem
          · exact Or.inr (List.mem_singleton.1 hmem ▸ List.mem_cons_self)
      · exact Or.inr (List.mem_cons_of_mem _ hmem)

theorem Proper.join {p q : Path} (hp : p.Proper) (hq : q.Proper) : (p.join q).Proper := by
  unfold Path.join
  split
  · exact hq
  · exact List.forall_mem_append.2 ⟨hp, hq⟩

theorem Proper.normalize {p cwd : Path} (hp : p.Proper) (hcwd : cwd.Proper) :
    (p.normalize cwd).Proper := by
  intro part hpart
  rcases mem_of_mem_foldl_climb hpart with hmem | hmem
  · simp at hmem
  · exact hcwd.join hp part hmem

/-- A path goes on from a directory by proper names that do not climb. -/
def ProperlyWithin (dir p : Path) : Prop :=
  ∃ names, (∀ name ∈ names, ProperName name ∧ name ≠ "..") ∧ p = dir.descend names

namespace ProperlyWithin

variable {dir p q : Path}

theorem refl (dir : Path) : dir.ProperlyWithin dir := ⟨[], by simp, by simp⟩

theorem trans (hp : dir.ProperlyWithin p) (hq : p.ProperlyWithin q) : dir.ProperlyWithin q := by
  obtain ⟨names, hnames, rfl⟩ := hp
  obtain ⟨more, hmore, rfl⟩ := hq
  exact ⟨names ++ more, List.forall_mem_append.2 ⟨hnames, hmore⟩,
    (descend_append dir names more).symm⟩

theorem child {name : String} (h : ProperName name ∧ name ≠ "..") (dir : Path) :
    dir.ProperlyWithin (dir.child name) := ⟨[name], List.forall_mem_singleton.2 h, rfl⟩

theorem within (h : dir.ProperlyWithin p) : dir.Within p := by
  obtain ⟨names, hnames, rfl⟩ := h
  exact ⟨names, fun hmem => (hnames _ hmem).2 rfl, rfl⟩

end ProperlyWithin

/-! ## Texts of components -/

/-- The pieces of a text between slashes that carry meaning. -/
def meaningful (pieces : List (List Char)) : List String :=
  (pieces.filter fun part => part != [] && part != ['.']).map String.ofList

theorem dotdot_mem_meaningful_iff {pieces : List (List Char)} :
    ".." ∈ meaningful pieces ↔ ['.', '.'] ∈ pieces := by
  rw [meaningful, List.mem_map]
  constructor
  · rintro ⟨piece, hpiece, hdots⟩
    obtain rfl : piece = ['.', '.'] := by simpa using congrArg String.toList hdots
    exact (List.mem_filter.1 hpiece).1
  · intro hmem
    exact ⟨_, List.mem_filter.2 ⟨hmem, by decide⟩, rfl⟩

/-- A double dot is a component if it is one of the pieces. -/
theorem dotdot_mem_components_iff {cs : List Char} :
    ".." ∈ components cs ↔ ['.', '.'] ∈ Text.splitOn '/' cs := dotdot_mem_meaningful_iff

/-- A slash ends a component. -/
theorem components_append {piece : List Char} (h : '/' ∉ piece) (rest : List Char) :
    components (piece ++ '/' :: rest) = components piece ++ components rest := by
  rw [components, Text.splitOn_append h, ← List.singleton_append (l := Text.splitOn '/' rest),
    List.filter_append, List.map_append, ← Text.splitOn_of_notMem h]
  rfl

/-- A proper name is its only component. -/
theorem components_name {name : String} (h : ProperName name) : components name.toList = [name] :=
  congrArg parts (ofString_of_properName h)

/-- Names that are joined with slashes are components, and what stands behind them goes on from the
last one. -/
theorem components_intercalate_append {front : List String} (h : ∀ name ∈ front, ProperName name)
    (last : String) (more : List Char) :
    components (("/".intercalate (front ++ [last])).toList ++ more) =
      front ++ components (last.toList ++ more) := by
  induction front with
  | nil => rw [List.nil_append, String.intercalate_singleton, List.nil_append]
  | cons name front ih =>
      obtain ⟨hname, hfront⟩ := List.forall_mem_cons.1 h
      obtain ⟨next, rest, hrest⟩ : ∃ next rest, front ++ [last] = next :: rest :=
        List.exists_cons_of_ne_nil (by simp)
      have hslash : (name ++ "/" ++ "/".intercalate (front ++ [last])).toList ++ more =
          name.toList ++ '/' :: (("/".intercalate (front ++ [last])).toList ++ more) := by simp
      have hcut : "/".intercalate (name :: (front ++ [last])) =
          name ++ "/" ++ "/".intercalate (front ++ [last]) := by
        rw [hrest, String.intercalate_cons_cons]
      rw [List.cons_append, hcut, hslash, components_append hname.2.2, components_name hname,
        ih hfront, List.singleton_append, List.cons_append]

/-- **Proper names that are joined with slashes are the components of what comes out.** -/
theorem components_intercalate {names : List String} (h : ∀ name ∈ names, ProperName name) :
    components ("/".intercalate names).toList = names := by
  rcases List.eq_nil_or_concat names with rfl | ⟨front, last, rfl⟩
  · rfl
  · rw [List.concat_eq_append] at h ⊢
    obtain ⟨hfront, hlast⟩ := List.forall_mem_append.1 h
    have hcut := components_intercalate_append hfront last []
    rwa [List.append_nil, List.append_nil, components_name (hlast last (by simp))] at hcut

theorem intercalate_inj {as bs : List String} (ha : ∀ a ∈ as, ProperName a)
    (hb : ∀ b ∈ bs, ProperName b) (h : "/".intercalate as = "/".intercalate bs) : as = bs := by
  rw [← components_intercalate ha, h, components_intercalate hb]

/-- Absolute paths from the same root are written in different ways. -/
theorem toString_inj {p q : Path} (hp : p.Proper) (hq : q.Proper) (habs : p.isAbsolute = true)
    (hroot : p.root = q.root) (h : p.toString = q.toString) : p = q := by
  have hne : p.root ≠ .none := by simpa [isAbsolute] using habs
  rw [toString, toString, if_neg (by simp [hne]), if_neg (by simp [← hroot, hne]), hroot] at h
  have hparts : p.parts = q.parts := by
    refine intercalate_inj hp hq ?_
    have hlist := congrArg String.toList h
    rw [String.toList_append, String.toList_append] at hlist
    exact String.toList_inj.1 (List.append_cancel_left hlist)
  cases p
  cases q
  simp_all

/-! ## Order -/

/-- The order of components is the lexicographic order. -/
theorem componentsLe_iff {as bs : List String} : componentsLe as bs = true ↔ as < bs ∨ as = bs := by
  induction as generalizing bs with
  | nil =>
      cases bs with
      | nil => simp [componentsLe]
      | cons b bs => simp [componentsLe, List.nil_lt_cons]
  | cons a as ih =>
      cases bs with
      | nil => simp [componentsLe, List.not_lt_nil]
      | cons b bs =>
          rw [componentsLe, List.cons_lt_cons_iff, List.cons.injEq]
          by_cases hab : a = b
          · simp [hab, ih]
          · simp [hab]

theorem le_iff {p q : Path} : le p q = true ↔ p.sortKey < q.sortKey ∨ p.sortKey = q.sortKey :=
  componentsLe_iff

theorem sortKey_lt_iff {p q : Path} (h : p.root = q.root) :
    p.sortKey < q.sortKey ↔ p.parts < q.parts := by
  rw [sortKey, sortKey, h]
  cases q.root with
  | none => rfl
  | single => simp
  | double => simp

theorem sortKey_inj {p q : Path} (hroot : p.root = q.root) (h : p.sortKey = q.sortKey) : p = q := by
  rcases p with ⟨r, ps⟩
  rcases q with ⟨_, qs⟩
  obtain rfl : r = _ := hroot
  cases r <;> simpa [sortKey] using h

/-- **Sorted paths are in order**: of two that start from the same root, the one that stands first is
the other one or has the smaller components. -/
theorem pairwise_sort (ps : List Path) :
    (sort ps).Pairwise fun p q => p.root = q.root → p.parts < q.parts ∨ p = q := by
  have hsorted : (sort ps).Pairwise fun p q => le p q = true := by
    refine List.pairwise_mergeSort ?_ ?_ _
    · intro p q r hpq hqr
      rw [le_iff] at hpq hqr ⊢
      rcases hpq with hpq | hpq
      · rcases hqr with hqr | hqr
        · exact Or.inl (lt_trans hpq hqr)
        · exact Or.inl (hqr ▸ hpq)
      · exact hpq ▸ hqr
    · intro p q
      rw [Bool.or_eq_true, le_iff, le_iff]
      rcases lt_trichotomy p.sortKey q.sortKey with h | h | h
      · exact Or.inl (Or.inl h)
      · exact Or.inl (Or.inr h)
      · exact Or.inr (Or.inl h)
  apply hsorted.imp
  intro p q hle hroot
  rcases le_iff.1 hle with hlt | heq
  · exact Or.inl ((sortKey_lt_iff hroot).1 hlt)
  · exact Or.inr (sortKey_inj hroot heq)

end ServiceKeys.Path
