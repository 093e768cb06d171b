import ServiceKeys.Proofs.Lookup.Walk

/-!
# The files of a scan in order

A walk takes the entries of a directory by name and goes into a directory when it comes to its name.
This is the order of paths by their components, and not that of their written forms: what is in `a`
comes before `a-b`.  So the files come in strict order, none of them twice, and sorting them changes
nothing.  What a scan reports is said here without the walk (`Scan.Reports`): the directories on the
way can be listed, are no links and have names that are entered, and the file is one or leads to one.
A list in strict order is determined by its members, so nothing else has an influence on it.  Main
statement: `Scan.files_exact`.
-/

namespace ServiceKeys

open Lookup

/-! ## Strict order -/

namespace Path

/-- Paths in the strict order of their components. -/
def Ascending (ps : List Path) : Prop := ps.Pairwise fun p q => p.parts < q.parts

theorem Ascending.nodup {ps : List Path} (h : Ascending ps) : ps.Nodup := by
  refine List.Pairwise.imp ?_ h
  rintro p _ hlt rfl
  exact lt_irrefl _ hlt

/-- Paths in strict order are determined by which they are. -/
theorem Ascending.ext {ps qs : List Path} (hp : Ascending ps) (hq : Ascending qs)
    (h : ∀ p, p ∈ ps ↔ p ∈ qs) : ps = qs :=
  List.Perm.eq_of_pairwise (fun _ _ _ _ hlt hgt => absurd hlt (lt_asymm hgt)) hp hq
    ((List.perm_ext_iff_of_nodup hp.nodup hq.nodup).2 h)

/-- The absolute forms of paths below one path are in the same order. -/
theorem Ascending.map_normalize {dir cwd : Path} {ps : List Path} (h : Ascending ps)
    (hbelow : ∀ p ∈ ps, dir.Within p) :
    Ascending (ps.map fun p => p.normalize cwd) := by
  refine List.pairwise_map.2 (h.imp_of_mem ?_)
  intro p q hp hq hlt
  obtain ⟨names, hnames, rfl⟩ := hbelow p hp
  obtain ⟨names', hnames', rfl⟩ := hbelow q hq
  rw [normalize_descend hnames, normalize_descend hnames']
  refine List.append_left_lt ?_
  rcases lt_trichotomy names names' with hlt' | heq | hgt
  · exact hlt'
  · exact absurd hlt (heq ▸ lt_irrefl _)
  · exact absurd hlt (lt_asymm (List.append_left_lt hgt))

theorem sort_of_ascending {root : Root} {ps : List Path} (h : Ascending ps)
    (hroot : ∀ p ∈ ps, p.root = root) : sort ps = ps := by
  refine List.mergeSort_of_pairwise (h.imp_of_mem ?_)
  intro p q hp hq hlt
  exact le_iff.2 (Or.inl ((sortKey_lt_iff ((hroot p hp).trans (hroot q hq).symm)).2 hlt))

end Path

/-- Blocks of results that are in order one after the other. -/
theorem Lookup.exists_mapM_pairwise {α β : Type} {f : α → Lookup (List β)} {P : α → β → Prop}
    {R : β → β → Prop} {xs : List α}
    (h : ∀ x ∈ xs, ∃ ys, Gives (f x) (.ok ys) ∧ (∀ y ∈ ys, P x y) ∧ ys.Pairwise R)
    (hR : xs.Pairwise fun x x' => ∀ y, P x y → ∀ y', P x' y' → R y y') :
    ∃ yss, Gives (xs.mapM f) (.ok yss) ∧ (∀ y ∈ yss.flatten, ∃ x ∈ xs, P x y) ∧
      yss.flatten.Pairwise R := by
  induction xs with
  | nil => exact ⟨[], gives_pure _, by simp, .nil⟩
  | cons x xs ih =>
      rw [List.pairwise_cons] at hR
      obtain ⟨ys, hys, hP, hsorted⟩ := h x List.mem_cons_self
      obtain ⟨yss, hyss, hPs, hsorteds⟩ := ih (fun z hz => h z (List.mem_cons_of_mem _ hz)) hR.2
      refine ⟨ys :: yss, ?_, ?_, ?_⟩
      · rw [List.mapM_cons]
        exact hys.bind_ok (hyss.bind_ok (gives_pure _))
      · rw [List.flatten_cons]
        refine List.forall_mem_append.2 ⟨fun y hy => ⟨x, List.mem_cons_self, hP y hy⟩, ?_⟩
        intro y hy
        obtain ⟨z, hz, hPz⟩ := hPs y hy
        exact ⟨z, List.mem_cons_of_mem _ hz, hPz⟩
      · rw [List.flatten_cons, List.pairwise_append]
        refine ⟨hsorted, hsorteds, fun y hy y' hy' => ?_⟩
        obtain ⟨z, hz, hPz⟩ := hPs y' hy'
        exact hR.1 z hz y (hP y hy) y' hPz

namespace Scan

variable {s : Scan} {w : Workspace} {root dir : Path}

/-- Distinct names in order are in strict order. -/
theorem pairwise_inOrder {names : List (String × ServiceKeys.Entry)}
    (h : names.Pairwise fun a b => a.1 ≠ b.1) : (inOrder names).Pairwise fun a b => a.1 < b.1 := by
  have hle : (inOrder names).Pairwise fun a b => a.1 ≤ b.1 := by
    refine (List.pairwise_mergeSort ?_ ?_ names).imp of_decide_eq_true
    · intro a b c hab hbc
      exact decide_eq_true (le_trans (of_decide_eq_true hab) (of_decide_eq_true hbc))
    · intro a b
      simpa using le_total a.1 b.1
  have hne : (inOrder names).Pairwise fun a b => a.1 ≠ b.1 :=
    h.perm (List.mergeSort_perm _ _).symm fun h => h.symm
  exact (hle.and hne).imp fun h => lt_of_le_of_ne h.1 h.2

/-- What is below a name comes before what is below a greater one. -/
theorem lt_of_below_child {a b : String} (hab : a < b) {p q : Path}
    (hp : w.Below (dir.child a) p) (hq : w.Below (dir.child b) q) : p.parts < q.parts := by
  obtain ⟨-, names, hnames, -⟩ := hp
  obtain ⟨-, names', hnames', -⟩ := hq
  rw [hnames, hnames', Path.child, Path.child, List.append_assoc, List.append_assoc]
  exact List.append_left_lt (List.cons_lt_cons_iff.2 (Or.inl hab))

/-- **The walk yields files in strict order.** -/
theorem exists_ascending_walk (hw : w.Sound) (s : Scan) (depth : Nat) (dir : Path) :
    ∃ found, Gives (s.walk w depth dir) (.ok found) ∧ (∀ q ∈ found, w.Below dir q) ∧
      Path.Ascending found := by
  induction depth generalizing dir with
  | zero => exact ⟨[], gives_pure _, by simp, .nil⟩
  | succ depth ih =>
      rw [walk]
      cases hlist : w.list dir with
      | error e =>
          exact ⟨[], gives_poll.bind_ok ((gives_debug _).bind_ok (gives_pure _)), by simp, .nil⟩
      | ok names =>
          have hentry : ∀ x ∈ inOrder names, ∃ found,
              Gives (s.ofEntry w (walk s w depth) (dir.child x.1) x.2) (.ok found) ∧
                (∀ q ∈ found, w.Below (dir.child x.1) q) ∧ Path.Ascending found := by
            intro x _
            rcases s.ofEntry_cases w (walk s w depth) (dir.child x.1) x.2 with
              h | h | ⟨message, h⟩ | h <;> rw [h]
            · exact ⟨[], gives_pure _, by simp, .nil⟩
            · exact ⟨[_], gives_pure _, List.forall_mem_singleton.2 (.refl w _),
                List.pairwise_singleton _ _⟩
            · exact ⟨[], (gives_debug _).bind_ok (gives_pure _), by simp, .nil⟩
            · exact ih _
          have hnames : (inOrder names).Pairwise fun a b => a.1 < b.1 := by
            obtain ⟨place, -, rfl⟩ := exists_place_of_list hlist
            exact pairwise_inOrder (FileTree.pairwise_children hw.single place)
          obtain ⟨found, hgives, hbelow, hsorted⟩ := exists_mapM_pairwise hentry
            (hnames.imp fun hab p hp q hq => lt_of_below_child hab hp hq)
          refine ⟨found.flatten, gives_poll.bind_ok (hgives.bind_ok (gives_pure _)), ?_, hsorted⟩
          intro q hq
          obtain ⟨x, hx, hbelow⟩ := hbelow q hq
          exact w.below_of_child (hasName_of_list hlist x (List.mem_mergeSort.1 hx)) hbelow

/-- The files of a scan: they come in strict order, after some polls, and are those that the scan
accepts. -/
theorem exists_ascending_files (hw : w.Sound) (s : Scan) {b : Bool}
    (h : w.isDirectory root = .ok b) :
    ∃ found n, Polls (s.files w root) (.ok found) n ∧ Path.Ascending found ∧
      ∀ q, q ∈ found ↔ s.Accepted w root q := by
  obtain ⟨dirs, found, hpolls, -, -, -, hmem⟩ := surveys_files hw s h
  refine ⟨found, dirs.length, hpolls, ?_, hmem⟩
  cases b with
  | false =>
      have hnone : found = [] := List.eq_nil_iff_forall_not_mem.2 fun q hq => by
        simpa [Accepted, h] using (hmem q).1 hq
      exact hnone ▸ .nil
  | true =>
      obtain ⟨found', hwalk, -, hsorted⟩ :=
        exists_ascending_walk hw s (w.tree.entries.length + 1) root
      have hasked : Gives (accessed (w.isDirectory root)) (.ok true) := h ▸ gives_accessed _
      have hfiles : Gives (s.files w root) (.ok found') := hasked.bind_ok hwalk
      exact Except.ok.inj (hpolls.gives.unique hfiles) ▸ hsorted

end Scan

/-! ## What a scan reports -/

namespace Workspace

variable {w : Workspace} {dir : Path} {names : List (String × ServiceKeys.Entry)} {name : String}

/-- A directory that can be listed. -/
def Listable (w : Workspace) (dir : Path) : Prop := ∃ names, w.list dir = .ok names

/-- The entry at a path; a link at its end is not followed. -/
def standing? (w : Workspace) (p : Path) : Option ServiceKeys.Entry :=
  match w.reach p.parent with
  | .ok ⟨place, .directory⟩ => w.tree.entryAt? (place ++ [p.name])
  | _ => none

/-- The entries of a directory are what its listing holds. -/
theorem standing?_child_iff (hw : w.Sound) (hlist : w.list dir = .ok names) {e : ServiceKeys.Entry} :
    w.standing? (dir.child name) = some e ↔ (name, e) ∈ names := by
  obtain ⟨place, hreach, rfl⟩ := exists_place_of_list hlist
  rw [standing?, Path.parent_child, Path.name_child, hreach, mem_children]
  have hentry : w.tree.entryAt? (place ++ [name]) = w.tree.entries.lookup (place ++ [name]) := by
    rw [FileTree.entryAt?, List.isEmpty_eq_false_iff.2 (by simp)]
    rfl
  dsimp only
  rw [hentry, FileTree.lookup_eq_some_iff hw.single]

/-- A path leads to a file. -/
theorem isFile_eq_ok_true_iff {p : Path} :
    w.isFile p = .ok true ↔ ∃ r, w.reach p = .ok r ∧ FileTree.isFileEntry r.entry = true := by
  rw [isFile, asking, mapError_eq_ok_iff, FileTree.isFile, FileTree.asks]
  simp only [reach, asking, mapError_eq_ok_iff]
  cases w.tree.reach (w.cwd.join p) with
  | ok r => simp
  | error e =>
      dsimp only
      split <;> simp

/-- The names of a tree do not climb, so what is below a directory is in it. -/
theorem Below.within (hw : w.WellFormed) {q : Path} (h : w.Below dir q) : dir.Within q :=
  (h.properlyWithin hw).within

/-- A workspace seen from the root directory is sound if its places are different and their names are
proper. -/
theorem sound_of_names (hcwd : w.cwd = ⟨.single, []⟩) (hsingle : (w.tree.entries.map Prod.fst).Nodup)
    (hnames : ∀ e ∈ w.tree.entries, ∀ name ∈ e.1,
      (name ≠ "" ∧ name ≠ "." ∧ '/' ∉ name.toList) ∧ name ≠ "..") : w.Sound where
  toWellFormed := wellFormed_of_names hcwd hnames
  single := hsingle

end Workspace

namespace Scan

variable {s : Scan} {w : Workspace} {root dir : Path} {dirs : List String} {name : String}

/-- A directory is entered unless its name is one of those that are not. -/
theorem enters_iff : s.enters name = true ↔ name ∉ alwaysExcluded ∧ Value.text name ∉ s.excluded := by
  have hsame : ∀ v : Value, v.sameMember (.text name) = true ↔ v = .text name := by
    intro v
    cases v <;> simp [Value.sameMember, Value.asInteger?]
  rw [enters, Bool.and_eq_true, Bool.not_eq_true', Bool.not_eq_true', List.contains_eq_mem,
    decide_eq_false_iff_not, List.any_eq_false]
  refine and_congr_right fun _ => ⟨fun h hmem => h _ hmem ((hsame _).2 rfl), fun h v hv hv' => ?_⟩
  exact h ((hsame v).1 hv' ▸ hv)

/-- A scan of a directory reports a file, given by the directories on the way to it and its name. -/
structure Reports (s : Scan) (w : Workspace) (root : Path) (dirs : List String) (name : String) :
    Prop where
  /-- The root and every directory on the way can be listed. -/
  listable : ∀ front, front <+: dirs → w.Listable (root.descend front)
  /-- What is on the way is a directory and no link to one. -/
  directory : ∀ front dir, front ++ [dir] <+: dirs →
    w.standing? (root.descend (front ++ [dir])) = some .directory
  /-- No directory on the way is one of those that are not entered. -/
  entered : ∀ dir ∈ dirs, dir ∉ alwaysExcluded ∧ Value.text dir ∉ s.excluded
  accepted : s.accepts name = true
  /-- The file is one, or a link that leads to one. -/
  file : (∃ bytes, w.standing? (root.descend (dirs ++ [name])) = some (.file bytes)) ∨
    (∃ target, w.standing? (root.descend (dirs ++ [name])) = some (.link target)) ∧
      w.isFile (root.descend (dirs ++ [name])) = .ok true

/-- The directories on a way that a scan can go. -/
def Opens (s : Scan) (w : Workspace) (root : Path) (dirs : List String) : Prop :=
  ∀ front dir, front ++ [dir] <+: dirs → w.Listable (root.descend front) ∧
    w.standing? (root.descend (front ++ [dir])) = some .directory ∧ s.enters dir = true

theorem opens_append_singleton : s.Opens w root (dirs ++ [name]) ↔
    s.Opens w root dirs ∧ w.Listable (root.descend dirs) ∧
      w.standing? (root.descend (dirs ++ [name])) = some .directory ∧ s.enters name = true := by
  constructor
  · intro h
    exact ⟨fun front dir hfront => h front dir (hfront.trans (List.prefix_append _ _)),
      h dirs name List.prefix_rfl⟩
  · rintro ⟨hfront, hlast⟩ front dir hprefix
    rcases List.prefix_concat_iff.1 hprefix with heq | hprefix
    · obtain ⟨rfl, hdir⟩ := List.append_inj' heq rfl
      obtain rfl := List.singleton_inj.1 hdir
      exact hlast
    · exact hfront front dir hprefix

/-- A scan walks the directories that it can go to. -/
theorem walks_iff_opens (hw : w.Sound) {d : Path} :
    s.Walks w root d ↔ ∃ dirs, d = root.descend dirs ∧ s.Opens w root dirs := by
  constructor
  · intro h
    induction h with
    | refl => exact ⟨[], by simp, fun front dir h => by simp at h⟩
    | tail _ hdescends ih =>
        obtain ⟨dirs, rfl, hopens⟩ := ih
        obtain ⟨names, name, hlist, hname, henters, rfl⟩ := hdescends
        have hentry := (Workspace.standing?_child_iff hw hlist).2 hname
        rw [Path.child_descend] at hentry ⊢
        exact ⟨_, rfl, opens_append_singleton.2 ⟨hopens, ⟨names, hlist⟩, hentry, henters⟩⟩
  · rintro ⟨dirs, rfl, hopens⟩
    induction dirs using List.reverseRecOn with
    | nil =>
        rw [Path.descend_nil]
        exact .refl
    | append_singleton dirs name ih =>
        obtain ⟨hfront, ⟨names, hlist⟩, hentry, henters⟩ := opens_append_singleton.1 hopens
        rw [← Path.child_descend] at hentry ⊢
        have hname := (Workspace.standing?_child_iff hw hlist).1 hentry
        exact (ih hfront).tail ⟨names, name, hlist, hname, henters, rfl⟩

/-- What a directory holds under a name, for a file that is taken. -/
theorem holdsFile_iff (hw : w.Sound) {names : List (String × ServiceKeys.Entry)}
    (hlist : w.list dir = .ok names) :
    (∃ e, (name, e) ∈ names ∧ w.HoldsFile (dir.child name) e) ↔
      (∃ bytes, w.standing? (dir.child name) = some (.file bytes)) ∨
        (∃ target, w.standing? (dir.child name) = some (.link target)) ∧
          w.isFile (dir.child name) = .ok true := by
  simp only [Workspace.standing?_child_iff hw hlist, Workspace.isFile_eq_ok_true_iff]
  constructor
  · rintro ⟨e, hname, hfile⟩
    cases e with
    | file bytes => exact Or.inl ⟨bytes, hname⟩
    | directory => exact hfile.elim
    | link target => exact Or.inr ⟨⟨target, hname⟩, hfile⟩
  · rintro (⟨bytes, hname⟩ | ⟨⟨target, hname⟩, hfile⟩)
    · exact ⟨_, hname, trivial⟩
    · exact ⟨_, hname, hfile⟩

/-- **A scan finds exactly what it reports.** -/
theorem finds_iff_reports (hw : w.Sound) {q : Path} :
    s.Finds w root q ↔ ∃ dirs name, q = root.descend (dirs ++ [name]) ∧ s.Reports w root dirs name := by
  constructor
  · rintro ⟨_, hwalks, names, name, e, hlist, hname, haccepts, hfile, rfl⟩
    obtain ⟨dirs, rfl, hopens⟩ := (walks_iff_opens hw).1 hwalks
    have hfile' := (holdsFile_iff hw hlist).1 ⟨e, hname, hfile⟩
    rw [Path.child_descend] at hfile'
    refine ⟨dirs, name, Path.child_descend _ _ _, ?_, ?_, ?_, haccepts, hfile'⟩
    · rintro front ⟨_ | ⟨dir, rest⟩, rfl⟩
      · rw [List.append_nil] at hlist
        exact ⟨names, hlist⟩
      · exact (hopens front dir (by simp)).1
    · exact fun front dir hfront => (hopens front dir hfront).2.1
    · intro dir hdir
      obtain ⟨front, rest, rfl⟩ := List.append_of_mem hdir
      exact enters_iff.1 (hopens front dir (by simp)).2.2
  · rintro ⟨dirs, name, rfl, h⟩
    obtain ⟨names, hlist⟩ := h.listable dirs List.prefix_rfl
    have hfile := h.file
    rw [← Path.child_descend] at hfile ⊢
    obtain ⟨e, hname, hfile⟩ := (holdsFile_iff hw hlist).2 hfile
    refine ⟨_, (walks_iff_opens hw).2 ⟨dirs, rfl, ?_⟩, names, name, e, hlist, hname, h.accepted, hfile,
      rfl⟩
    intro front dir hfront
    refine ⟨h.listable front ((List.prefix_append _ _).trans hfront), h.directory front dir hfront, ?_⟩
    exact enters_iff.2 (h.entered dir (hfront.subset (by simp)))

/-! ## What a scan does not depend on -/

/-- Two workspaces show a directory alike: neither can list it, or both list the same entries, in
whatever order, and a link among them leads to a file in both or in neither. -/
def ShowAlike (w w' : Workspace) (dir : Path) : Prop :=
  (¬ w.Listable dir ∧ ¬ w'.Listable dir) ∨
    ∃ names names', w.list dir = .ok names ∧ w'.list dir = .ok names' ∧ names.Perm names' ∧
      ∀ name target, (name, .link target) ∈ names →
        (w.isFile (dir.child name) = .ok true ↔ w'.isFile (dir.child name) = .ok true)

/-- The directories on a way are none of those that are not entered, and no links. -/
def Clear (s : Scan) (w : Workspace) (root : Path) (dirs : List String) : Prop :=
  ∀ front dir, front ++ [dir] <+: dirs → s.enters dir = true ∧
    w.standing? (root.descend (front ++ [dir])) = some .directory

/-- Two workspaces are alike where a scan looks: they show every directory alike that is not excluded
or a link, and not inside of one that is. -/
def Alike (s : Scan) (w w' : Workspace) (root : Path) : Prop :=
  ∀ dirs, s.Clear w root dirs → ShowAlike w w' (root.descend dirs)

theorem clear_of_opens (h : s.Opens w root dirs) : s.Clear w root dirs := by
  intro front dir hfront
  obtain ⟨-, hentry, henters⟩ := h front dir hfront
  exact ⟨henters, hentry⟩

variable {w' : Workspace}

theorem ShowAlike.symm (h : ShowAlike w w' dir) : ShowAlike w' w dir := by
  rcases h with ⟨hnone, hnone'⟩ | ⟨names, names', hlist, hlist', hperm, hlinks⟩
  · exact Or.inl ⟨hnone', hnone⟩
  · exact Or.inr ⟨names', names, hlist', hlist, hperm.symm,
      fun name target hname => (hlinks name target (hperm.mem_iff.2 hname)).symm⟩

theorem ShowAlike.descends {sub : Path} (h : ShowAlike w w' dir) (hsub : s.Descends w dir sub) :
    s.Descends w' dir sub := by
  obtain ⟨names, name, hlist, hname, henters, rfl⟩ := hsub
  rcases h with ⟨hnone, -⟩ | ⟨_, names', hlist', hlist'', hperm, -⟩
  · exact absurd ⟨names, hlist⟩ hnone
  · obtain rfl := Except.ok.inj (hlist'.symm.trans hlist)
    exact ⟨names', name, hlist'', hperm.mem_iff.1 hname, henters, rfl⟩

theorem ShowAlike.takes {file : Path} (h : ShowAlike w w' dir) (hfile : s.Takes w dir file) :
    s.Takes w' dir file := by
  obtain ⟨names, name, e, hlist, hname, haccepts, hholds, rfl⟩ := hfile
  rcases h with ⟨hnone, -⟩ | ⟨_, names', hlist', hlist'', hperm, hlinks⟩
  · exact absurd ⟨names, hlist⟩ hnone
  · obtain rfl := Except.ok.inj (hlist'.symm.trans hlist)
    refine ⟨names', name, e, hlist'', hperm.mem_iff.1 hname, haccepts, ?_, rfl⟩
    cases e with
    | file bytes => trivial
    | directory => exact hholds.elim
    | link target =>
        exact Workspace.isFile_eq_ok_true_iff.1
          ((hlinks name target hname).1 (Workspace.isFile_eq_ok_true_iff.2 hholds))

/-- A scan finds the same in workspaces that are alike where it looks. -/
theorem Alike.finds_iff (hw : w.Sound) (h : s.Alike w w' root) {file : Path} :
    s.Finds w root file ↔ s.Finds w' root file := by
  have halike : ∀ d, s.Walks w root d → ShowAlike w w' d := by
    intro d hwalks
    obtain ⟨dirs, rfl, hopens⟩ := (walks_iff_opens hw).1 hwalks
    exact h dirs (clear_of_opens hopens)
  -- the directories that are walked are the same, one after the other
  have hwalks : ∀ d, s.Walks w root d ↔ s.Walks w' root d := by
    intro d
    constructor
    · intro hd
      induction hd with
      | refl => exact .refl
      | tail hfront hstep ih => exact ih.tail ((halike _ hfront).descends hstep)
    · intro hd
      induction hd with
      | refl => exact .refl
      | tail _ hstep ih => exact ih.tail ((halike _ ih).symm.descends hstep)
  constructor
  · rintro ⟨d, hd, htakes⟩
    exact ⟨d, (hwalks d).1 hd, (halike d hd).takes htakes⟩
  · rintro ⟨d, hd, htakes⟩
    exact ⟨d, (hwalks d).2 hd, (halike d ((hwalks d).2 hd)).symm.takes htakes⟩

/-! ## Exactness -/

/-- Files in strict order are still in order in their absolute forms, and sorting them changes
nothing. -/
theorem ascending_normalize (w : Workspace) {found : List Path} (h : Path.Ascending found)
    (hwithin : ∀ q ∈ found, root.Within q) :
    Path.Ascending (found.map w.normalize) ∧
      Path.sort (found.map w.normalize) = found.map w.normalize := by
  have hnormal : Path.Ascending (found.map w.normalize) := h.map_normalize hwithin
  have hroots : ∀ p ∈ found.map w.normalize, p.root = (w.normalize root).root := by
    intro p hp
    obtain ⟨q, hq, rfl⟩ := List.mem_map.1 hp
    exact ((hwithin q hq).normalize w.cwd).isPrefix.1
  exact ⟨hnormal, Path.sort_of_ascending hnormal hroots⟩

/-- **The files of a scan are exact and in order.**  They come in strict order of their components,
so that sorting their absolute forms changes nothing and no file comes twice.  A file is among them
exactly when it is reported.  And two workspaces that are alike where the scan looks have the same
files: it makes no difference in which order a directory is listed, nor what there is inside of an
excluded or linked directory, except for whether links that stand elsewhere lead to a file. -/
theorem files_exact (hw : w.Sound) (s : Scan) (hroot : w.isDirectory root = .ok true) :
    ∃ found, ((s.files w root).outcome none).1 = .ok found ∧ Path.Ascending found ∧
      Path.sort (found.map w.normalize) = found.map w.normalize ∧ (found.map w.normalize).Nodup ∧
      (∀ q, q ∈ found ↔
        ∃ dirs name, q = root.descend (dirs ++ [name]) ∧ s.Reports w root dirs name) ∧
      ∀ w', w'.Sound → w'.isDirectory root = .ok true → s.Alike w w' root →
        ((s.files w' root).outcome none).1 = .ok found := by
  obtain ⟨found, n, hpolls, hsorted, hmem⟩ := exists_ascending_files hw s hroot
  obtain ⟨hnormal, hsort⟩ := ascending_normalize w hsorted
    fun q hq => (below_of_finds ((hmem q).1 hq).2).within hw.toWellFormed
  refine ⟨found, hpolls.gives.outcome, hsorted, hsort, hnormal.nodup, ?_, ?_⟩
  · intro q
    rw [hmem, Accepted, and_iff_right hroot, finds_iff_reports hw]
  · intro w' hw' hroot' halike
    obtain ⟨found', n', hpolls', hsorted', hmem'⟩ := exists_ascending_files hw' s hroot'
    rw [hpolls'.gives.outcome, hsorted'.ext hsorted fun q => ?_]
    rw [hmem, hmem', Accepted, Accepted, and_iff_right hroot, and_iff_right hroot',
      halike.finds_iff hw]

/-! ## Entries in another order -/

/-- A workspace whose tree has its entries in another order. -/
def reordered (w : Workspace) (entries : List (List String × ServiceKeys.Entry)) : Workspace :=
  { w with tree := { w.tree with entries } }

theorem entryAt?_reordered (hw : w.Sound) {entries : List (List String × ServiceKeys.Entry)}
    (h : w.tree.entries.Perm entries) (place : List String) :
    (reordered w entries).tree.entryAt? place = w.tree.entryAt? place := by
  have hsingle : (entries.map Prod.fst).Nodup := (h.map Prod.fst).nodup_iff.1 hw.single
  rw [FileTree.entryAt?, FileTree.entryAt?]
  split
  · rfl
  · refine Option.ext fun e => ?_
    rw [FileTree.lookup_eq_some_iff hw.single]
    exact (FileTree.lookup_eq_some_iff hsingle).trans h.mem_iff.symm

theorem sound_reordered (hw : w.Sound) {entries : List (List String × ServiceKeys.Entry)}
    (h : w.tree.entries.Perm entries) : (reordered w entries).Sound where
  absolute := hw.absolute
  proper := hw.proper
  names := by
    rintro name ⟨e, he, hname⟩
    exact hw.names name ⟨e, h.mem_iff.2 he, hname⟩
  single := (h.map Prod.fst).nodup_iff.1 hw.single

/-- **The order of the entries makes no difference to where a scan looks.** -/
theorem alike_reordered (hw : w.Sound) {entries : List (List String × ServiceKeys.Entry)}
    (h : w.tree.entries.Perm entries) : s.Alike w (reordered w entries) root := by
  have hreach : ∀ p, (reordered w entries).reach p = w.reach p := fun p =>
    congrArg (Except.mapError _) (FileTree.reach_congr (entryAt?_reordered hw h) _)
  intro dirs _
  cases hlist : w.list (root.descend dirs) with
  | error e =>
      refine Or.inl ⟨by simp [Workspace.Listable, hlist], ?_⟩
      rintro ⟨names, hnames⟩
      obtain ⟨hopen, place, hplace, -⟩ := Workspace.list_eq_ok_iff.1 hnames
      rw [hreach] at hplace
      have hlist' : w.list (root.descend dirs) = .ok (w.tree.children place) :=
        Workspace.list_eq_ok_iff.2 ⟨hopen, place, hplace, rfl⟩
      exact absurd (hlist.symm.trans hlist') (by simp)
  | ok names =>
      obtain ⟨hopen, place, hplace, rfl⟩ := Workspace.list_eq_ok_iff.1 hlist
      refine Or.inr ⟨_, _, hlist, Workspace.list_eq_ok_iff.2 ⟨hopen, place, ?_, rfl⟩,
        h.filterMap _, ?_⟩
      · rw [hreach, hplace]
      · intro name target _
        rw [Workspace.isFile_eq_ok_true_iff, Workspace.isFile_eq_ok_true_iff, hreach]

/-! ## A tree with links -/

/-- The scan of the samples. -/
def typescript : Scan := { extensions := [".ts"] }

/-- A directory with a link into an excluded directory, and what else there is. -/
def linkedWorkspace (more : List (List String × ServiceKeys.Entry)) : Workspace where
  tree.entries := [(["p"], .directory), (["p", "node_modules"], .directory),
    (["p", "a.ts"], .link "node_modules/x.ts")] ++ more
  cwd := ⟨.single, []⟩

/-- The directory that is scanned. -/
def linkedRoot : Path := ⟨.single, ["p"]⟩

/-- What the link into the excluded directory leads to. -/
def linkedFile : List String × ServiceKeys.Entry := (["p", "node_modules", "x.ts"], .file [])

/-- Directories whose names stand next to that of the link, and a link to one of them. -/
def linkedOthers : List (List String × ServiceKeys.Entry) :=
  [(["p", "a-b"], .directory), (["p", "a-b", "y.ts"], .file []), (["p", "a"], .directory),
    (["p", "a", "z.ts"], .file []), (["p", "m"], .link "a")]

/-- Files behind links and in directories are found, in the order of their components; what is in an
excluded directory or behind a link to a directory is not.  The entries may stand in any order. -/
theorem files_exact_linked :
    (linkedWorkspace (linkedFile :: linkedOthers)).Sound ∧
    (linkedWorkspace (linkedFile :: linkedOthers)).isDirectory linkedRoot = .ok true ∧
    ∃ found, ((typescript.files (linkedWorkspace (linkedFile :: linkedOthers)) linkedRoot).outcome
        none).1 = .ok found ∧ Path.Ascending found ∧
      linkedRoot.descend ["a.ts"] ∈ found ∧ linkedRoot.descend ["a", "z.ts"] ∈ found ∧
      linkedRoot.descend ["node_modules", "x.ts"] ∉ found ∧ linkedRoot.descend ["m", "z.ts"] ∉ found ∧
      ((typescript.files (reordered (linkedWorkspace (linkedFile :: linkedOthers))
        (linkedWorkspace (linkedFile :: linkedOthers)).tree.entries.reverse) linkedRoot).outcome
        none).1 = .ok found := by
  have hsound : (linkedWorkspace (linkedFile :: linkedOthers)).Sound :=
    Workspace.sound_of_names rfl (by decide) (by decide)
  have hreversed := (List.reverse_perm (linkedWorkspace (linkedFile :: linkedOthers)).tree.entries).symm
  obtain ⟨found, houtcome, hsorted, -, -, hmem, halike⟩ := files_exact hsound typescript
    (show (linkedWorkspace (linkedFile :: linkedOthers)).isDirectory linkedRoot = .ok true from rfl)
  refine ⟨hsound, rfl, found, houtcome, hsorted, ?_, ?_, ?_, ?_, ?_⟩
  · exact (hmem _).2 ((finds_iff_reports hsound).1
      ⟨_, .refl, _, "a.ts", .link "node_modules/x.ts", rfl, by decide, by decide, ⟨_, rfl, rfl⟩, rfl⟩)
  · exact (hmem _).2 ((finds_iff_reports hsound).1
      ⟨linkedRoot.child "a", .single ⟨_, "a", rfl, by decide, by decide, rfl⟩, _, "z.ts", .file [], rfl,
        by decide, by decide, trivial, rfl⟩)
  · intro hx
    obtain ⟨dirs, name, hpath, hreports⟩ := (hmem _).1 hx
    have hparts : dirs ++ [name] = ["node_modules"] ++ ["x.ts"] := (Path.descend_inj.1 hpath).symm
    obtain ⟨rfl, -⟩ := List.append_inj' hparts rfl
    exact absurd (hreports.entered "node_modules" (by simp)).1 (by decide)
  · intro hz
    obtain ⟨dirs, name, hpath, hreports⟩ := (hmem _).1 hz
    have hparts : dirs ++ [name] = ["m"] ++ ["z.ts"] := (Path.descend_inj.1 hpath).symm
    obtain ⟨rfl, -⟩ := List.append_inj' hparts rfl
    have hentry := hreports.directory [] "m" List.prefix_rfl
    exact absurd hentry (by decide)
  · exact halike _ (sound_reordered hsound hreversed) rfl (alike_reordered hsound hreversed)

/-- **Where a link leads into an excluded directory, what is in there does matter.** -/
theorem files_of_link_into_excluded :
    (linkedWorkspace []).Sound ∧ (linkedWorkspace [linkedFile]).Sound ∧
    typescript.enters "node_modules" = false ∧
    (linkedWorkspace [linkedFile]).tree.entries = (linkedWorkspace []).tree.entries ++ [linkedFile] ∧
    ∃ found found', ((typescript.files (linkedWorkspace []) linkedRoot).outcome none).1 = .ok found ∧
      ((typescript.files (linkedWorkspace [linkedFile]) linkedRoot).outcome none).1 = .ok found' ∧
      linkedRoot.descend ["a.ts"] ∉ found ∧ linkedRoot.descend ["a.ts"] ∈ found' := by
  have hsound : (linkedWorkspace []).Sound := Workspace.sound_of_names rfl (by decide) (by decide)
  have hsound' : (linkedWorkspace [linkedFile]).Sound := Workspace.sound_of_names rfl (by decide) (by decide)
  obtain ⟨found, n, hpolls, -, hmem⟩ := exists_ascending_files hsound typescript
    (show (linkedWorkspace []).isDirectory linkedRoot = .ok true from rfl)
  obtain ⟨found', n', hpolls', -, hmem'⟩ := exists_ascending_files hsound' typescript
    (show (linkedWorkspace [linkedFile]).isDirectory linkedRoot = .ok true from rfl)
  refine ⟨hsound, hsound', by decide, rfl, found, found', hpolls.gives.outcome,
    hpolls'.gives.outcome, ?_, ?_⟩
  · intro ha
    obtain ⟨dirs, name, hpath, hreports⟩ := (finds_iff_reports hsound).1 ((hmem _).1 ha).2
    have hparts : dirs ++ [name] = [] ++ ["a.ts"] := (Path.descend_inj.1 hpath).symm
    obtain ⟨rfl, hname⟩ := List.append_inj' hparts rfl
    obtain rfl := List.singleton_inj.1 hname
    -- the link leads to nothing
    rcases hreports.file with ⟨bytes, hentry⟩ | ⟨-, hfile⟩
    · exact absurd (hentry.symm.trans (show _ = some (.link "node_modules/x.ts") from rfl)) (by simp)
    · exact absurd (hfile.symm.trans (show _ = Except.ok false from rfl)) (by simp)
  · exact (hmem' _).2 ⟨rfl, _, .refl, _, "a.ts", .link "node_modules/x.ts", rfl, by decide, by decide,
      ⟨_, rfl, rfl⟩, rfl⟩

end Scan

end ServiceKeys
