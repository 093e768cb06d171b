import ServiceKeys.Proofs.Lookup.Scan
import Mathlib.Logic.Relation

/-!
# The directories of a walk

A walk goes from a directory to the directories in it whose names are entered, and takes files on its
way.  The walk is bounded by the number of entries of the tree, and here it is shown that the bound
never cuts it short: every directory that is entered is an entry of its own, below the one before it
(`Workspace.room_child_lt`).  So the walk visits exactly the directories that can be reached by
entering one after the other, each once, with one poll for each, and takes exactly the files that
stand in them (`Scan.surveys_walk`).
-/

namespace ServiceKeys

open Lookup Relation

/-! ## Trees in which a place has one entry -/

/-- A workspace as it can be, with one entry at each place of its tree. -/
structure Workspace.Sound (w : Workspace) : Prop extends w.WellFormed where
  single : (w.tree.entries.map Prod.fst).Nodup

namespace FileTree

theorem lookup_of_mem {α β : Type} [BEq α] [LawfulBEq α] {xs : List (α × β)} {a : α} {b : β}
    (hnodup : (xs.map Prod.fst).Nodup) (h : (a, b) ∈ xs) : xs.lookup a = some b := by
  induction xs with
  | nil => cases h
  | cons x xs ih =>
      obtain ⟨a', b'⟩ := x
      rw [List.map_cons, List.nodup_cons] at hnodup
      rw [List.lookup_cons]
      rcases List.mem_cons.1 h with heq | hmem
      · obtain ⟨rfl, rfl⟩ := Prod.mk.inj heq
        rw [beq_self_eq_true]
      · have hne : a ≠ a' := by
          rintro rfl
          exact hnodup.1 (List.mem_map.2 ⟨_, hmem, rfl⟩)
        rw [beq_eq_false_iff_ne.2 hne]
        exact ih hnodup.2 hmem

theorem lookup_eq_some_iff {α β : Type} [BEq α] [LawfulBEq α] {xs : List (α × β)} {a : α} {b : β}
    (hnodup : (xs.map Prod.fst).Nodup) : xs.lookup a = some b ↔ (a, b) ∈ xs := by
  refine ⟨fun h => ?_, lookup_of_mem hnodup⟩
  obtain ⟨front, back, rfl, -⟩ := List.lookup_eq_some_iff.1 h
  exact List.mem_append_right _ List.mem_cons_self

/-- The names in a directory are distinct. -/
theorem pairwise_children {t : FileTree} (hsingle : (t.entries.map Prod.fst).Nodup)
    (place : List String) : (t.children place).Pairwise fun a b => a.1 ≠ b.1 := by
  rw [children, List.pairwise_filterMap]
  refine (List.pairwise_map.1 hsingle).imp ?_
  rintro ⟨q, e⟩ ⟨q', e'⟩ hne ⟨name, f⟩ hname ⟨name', f'⟩ hname' heq
  dsimp only at hname hname' heq
  split at hname
  · split at hname'
    · rename_i hplace hplace'
      obtain ⟨last, hlast, hpair⟩ := Option.map_eq_some_iff.1 hname
      obtain ⟨last', hlast', hpair'⟩ := Option.map_eq_some_iff.1 hname'
      obtain ⟨rfl, -⟩ := Prod.mk.inj hpair
      obtain ⟨rfl, -⟩ := Prod.mk.inj hpair'
      rw [Bool.and_eq_true, beq_iff_eq] at hplace hplace'
      apply hne
      show q = q'
      rw [← List.dropLast_append_getLast? _ hlast, ← List.dropLast_append_getLast? _ hlast',
        hplace.1, hplace'.1, heq]
    · simp at hname'
  · simp at hname

/-! ## Room below a place -/

/-- Whether a place lies strictly below another one. -/
def liesBelow (place q : List String) : Bool := place.isPrefixOf q && q != place

/-- How many entries lie strictly below a place. -/
def room (t : FileTree) (place : List String) : Nat :=
  (t.entries.filter fun e => liesBelow place e.1).length

theorem liesBelow_iff {place q : List String} :
    liesBelow place q = true ↔ ∃ name rest, q = place ++ name :: rest := by
  rw [liesBelow, Bool.and_eq_true, List.isPrefixOf_iff_prefix, bne_iff_ne]
  constructor
  · rintro ⟨⟨tail, rfl⟩, hne⟩
    cases tail with
    | nil => simp at hne
    | cons name rest => exact ⟨name, rest, rfl⟩
  · rintro ⟨name, rest, rfl⟩
    exact ⟨List.prefix_append _ _, by simp⟩

/-- There is less room below an entry than where it stands. -/
theorem room_lt {t : FileTree} {place : List String} {name : String} {e : Entry}
    (h : (place ++ [name], e) ∈ t.entries) : t.room (place ++ [name]) < t.room place := by
  have hmono : (fun x : List String × Entry => liesBelow (place ++ [name]) x.1) ≤
      fun x => liesBelow place x.1 := by
    intro x hx
    obtain ⟨next, rest, hq⟩ := liesBelow_iff.1 hx
    exact liesBelow_iff.2 ⟨name, next :: rest, by simp [hq]⟩
  have hsub := List.monotone_filter_right t.entries hmono
  refine Nat.lt_of_le_of_ne hsub.length_le ?_
  intro hlen
  -- the entry itself lies below the place, and not below itself
  have hmem : (place ++ [name], e) ∈ t.entries.filter fun x => liesBelow place x.1 :=
    List.mem_filter.2 ⟨h, liesBelow_iff.2 ⟨name, [], rfl⟩⟩
  rw [← hsub.eq_of_length hlen, List.mem_filter] at hmem
  simp [liesBelow] at hmem

/-- What a directory in a directory is reached as: as itself, unless its name is too long. -/
theorem reach_child {t : FileTree} (hsingle : (t.entries.map Prod.fst).Nodup) {p : Path}
    {place : List String} {name : String} (hreach : t.reach p = .ok ⟨place, .directory⟩)
    (hentry : (place ++ [name], .directory) ∈ t.entries) (hdot : name ≠ ".") (hdots : name ≠ "..") :
    t.reach (p.child name) =
      if nameLimit < name.utf8ByteSize then .error ⟨.nameTooLong, p.child name⟩
      else .ok ⟨place ++ [name], .directory⟩ := by
  have hfrom : t.reachFrom linkLimit [] p.parts = .ok ⟨place, .directory⟩ := mapError_eq_ok_iff.1 hreach
  obtain ⟨m, hm⟩ := exists_reachFrom_append hfrom rfl
  obtain ⟨hlong, hshort⟩ := t.reachFrom_name m place hdot hdots
  have hchild : t.reachFrom linkLimit [] (p.child name).parts = t.reachFrom m place [name] := hm [name]
  rw [reach, hchild]
  split
  · rename_i hlen
    rw [hlong hlen]
    rfl
  · rename_i hlen
    have hat : t.entryAt? (place ++ [name]) = some .directory := by
      rw [entryAt?, List.isEmpty_eq_false_iff.2 (by simp)]
      exact lookup_of_mem hsingle hentry
    rw [hshort (Nat.le_of_not_lt hlen) hat]
    rfl

end FileTree

namespace Workspace

variable {w : Workspace}

/-- How many entries lie below a directory; none below one that is not reached. -/
def room (w : Workspace) (dir : Path) : Nat :=
  match w.reach dir with
  | .ok r => w.tree.room r.place
  | .error _ => 0

theorem room_le (w : Workspace) (dir : Path) : w.room dir ≤ w.tree.entries.length := by
  rw [room]
  split
  · exact List.length_filter_le _ _
  · exact Nat.zero_le _

/-- **Entering a directory leaves less room.** -/
theorem room_child_lt (hw : w.Sound) {dir : Path} {names : List (String × ServiceKeys.Entry)}
    {name : String} (hlist : w.list dir = .ok names) (hname : (name, .directory) ∈ names) :
    w.room (dir.child name) < w.room dir := by
  obtain ⟨⟨-, hdot, -⟩, hdots⟩ := hw.names name (hasName_of_list hlist _ hname)
  obtain ⟨place, hreach, rfl⟩ := exists_place_of_list hlist
  have hentry := mem_children.1 hname
  have hlt := FileTree.room_lt hentry
  have hroom : w.room dir = w.tree.room place := by rw [room, hreach]
  have hchild := FileTree.reach_child hw.single (mapError_eq_ok_iff.1 hreach) hentry hdot hdots
  rw [← Path.join_child] at hchild
  rw [hroom, room, reach, asking, hchild]
  split
  · rename_i r hr
    split at hr
    · simp [Except.mapError] at hr
    · obtain rfl := Except.ok.inj hr
      exact hlt
  · exact Nat.lt_of_le_of_lt (Nat.zero_le _) hlt

theorem Below.refl (w : Workspace) (dir : Path) : w.Below dir dir := ⟨rfl, [], by simp, by simp⟩

theorem Below.trans {a b c : Path} (hab : w.Below a b) (hbc : w.Below b c) : w.Below a c := by
  obtain ⟨hroot, names, hparts, hnames⟩ := hab
  obtain ⟨hroot', names', hparts', hnames'⟩ := hbc
  refine ⟨hroot'.trans hroot, names ++ names', ?_, List.forall_mem_append.2 ⟨hnames, hnames'⟩⟩
  rw [hparts', hparts, List.append_assoc]

/-- What lies below two entries of one directory lies below the same one. -/
theorem Below.name_unique {dir q : Path} {a b : String} (ha : w.Below (dir.child a) q)
    (hb : w.Below (dir.child b) q) : a = b := by
  obtain ⟨-, names, hparts, -⟩ := ha
  obtain ⟨-, names', hparts', -⟩ := hb
  have hcut := hparts.symm.trans hparts'
  simp only [Path.child, List.append_assoc, List.singleton_append, List.append_cancel_left_eq,
    List.cons.injEq] at hcut
  exact hcut.1

theorem not_below_child (dir : Path) (name : String) : ¬ w.Below (dir.child name) dir := by
  rintro ⟨-, names, hparts, -⟩
  have hlen := congrArg List.length hparts
  simp [Path.child] at hlen

end Workspace

/-! ## What a walk visits and takes -/

/-- Whether an entry at a path is a file or leads to one. -/
def Workspace.HoldsFile (w : Workspace) (p : Path) : ServiceKeys.Entry → Prop
  | .file _ => True
  | .directory => False
  | .link _ => ∃ r, w.reach p = .ok r ∧ FileTree.isFileEntry r.entry = true

namespace Scan

variable {s : Scan} {w : Workspace} {dir : Path}

/-- A scan goes from a directory to one in it whose name is entered. -/
def Descends (s : Scan) (w : Workspace) (dir sub : Path) : Prop :=
  ∃ names name, w.list dir = .ok names ∧ (name, .directory) ∈ names ∧
    s.enters name = true ∧ sub = dir.child name

/-- A scan takes a file from a directory: its name is accepted. -/
def Takes (s : Scan) (w : Workspace) (dir file : Path) : Prop :=
  ∃ names name e, w.list dir = .ok names ∧ (name, e) ∈ names ∧ s.accepts name = true ∧
    w.HoldsFile (dir.child name) e ∧ file = dir.child name

/-- A scan that starts from a directory walks another one. -/
def Walks (s : Scan) (w : Workspace) : Path → Path → Prop := ReflTransGen (s.Descends w)

/-- A scan that starts from a directory finds a file. -/
def Finds (s : Scan) (w : Workspace) (dir file : Path) : Prop :=
  ∃ d, s.Walks w dir d ∧ s.Takes w d file

theorem below_of_descends {sub : Path} (h : s.Descends w dir sub) : w.Below dir sub := by
  obtain ⟨names, name, hlist, hname, -, rfl⟩ := h
  exact ⟨rfl, [name], rfl, List.forall_mem_singleton.2 (hasName_of_list hlist _ hname)⟩

theorem below_of_takes {file : Path} (h : s.Takes w dir file) : w.Below dir file := by
  obtain ⟨names, name, e, hlist, hname, -, -, rfl⟩ := h
  exact ⟨rfl, [name], rfl, List.forall_mem_singleton.2 (hasName_of_list hlist _ hname)⟩

theorem below_of_walks {d : Path} (h : s.Walks w dir d) : w.Below dir d := by
  induction h with
  | refl => exact .refl w dir
  | tail _ hdescends ih => exact ih.trans (below_of_descends hdescends)

theorem below_of_finds {file : Path} (h : s.Finds w dir file) : w.Below dir file := by
  obtain ⟨d, hwalks, htakes⟩ := h
  exact (below_of_walks hwalks).trans (below_of_takes htakes)

/-- A scan walks a directory: it is the first one, or it is walked from one that is entered there. -/
theorem walks_iff {d : Path} :
    s.Walks w dir d ↔ d = dir ∨ ∃ sub, s.Descends w dir sub ∧ s.Walks w sub d := by
  rw [Walks, ReflTransGen.cases_head_iff, eq_comm]

theorem finds_iff {file : Path} :
    s.Finds w dir file ↔
      s.Takes w dir file ∨ ∃ sub, s.Descends w dir sub ∧ s.Finds w sub file := by
  have hfirst : ∀ d, s.Walks w dir d ↔ d = dir ∨ ∃ sub, s.Descends w dir sub ∧ s.Walks w sub d :=
    fun _ => walks_iff
  simp only [Finds, hfirst, or_and_right, exists_or, exists_eq_left]
  refine or_congr_right ⟨?_, ?_⟩
  · rintro ⟨d, ⟨sub, hdescends, hwalks⟩, htakes⟩
    exact ⟨sub, hdescends, d, hwalks, htakes⟩
  · rintro ⟨sub, hdescends, d, hwalks, htakes⟩
    exact ⟨d, ⟨sub, hdescends, hwalks⟩, htakes⟩

/-! ## Surveys -/

/-- A lookup surveys directories and files: it yields the files, each once, after one poll for each
directory. -/
def Surveys (l : Lookup (List Path)) (directory file : Path → Prop) : Prop :=
  ∃ dirs found : List Path, Polls l (.ok found) dirs.length ∧ dirs.Nodup ∧
    (∀ d, d ∈ dirs ↔ directory d) ∧ found.Nodup ∧ ∀ q, q ∈ found ↔ file q

theorem Surveys.congr {l : Lookup (List Path)} {directory directory' file file' : Path → Prop}
    (h : Surveys l directory file) (hd : ∀ d, directory d ↔ directory' d)
    (hf : ∀ q, file q ↔ file' q) : Surveys l directory' file' := by
  obtain ⟨dirs, found, hpolls, hdirs, hdirs', hfound, hfound'⟩ := h
  exact ⟨dirs, found, hpolls, hdirs, fun d => (hdirs' d).trans (hd d), hfound,
    fun q => (hfound' q).trans (hf q)⟩

/-- A lookup that neither polls nor yields anything. -/
theorem surveys_nothing {l : Lookup (List Path)} {directory file : Path → Prop}
    (hl : Polls l (.ok []) 0) (hd : ∀ d, ¬ directory d) (hf : ∀ q, ¬ file q) :
    Surveys l directory file :=
  ⟨[], [], hl, .nil, by simpa using hd, .nil, by simpa using hf⟩

/-- Surveys of the members of a list that have nothing in common. -/
theorem surveys_mapM {α : Type} {f : α → Lookup (List Path)} {directory file : α → Path → Prop}
    {xs : List α} (h : ∀ x ∈ xs, Surveys (f x) (directory x) (file x))
    (hd : xs.Pairwise fun x y => ∀ d, directory x d → ¬ directory y d)
    (hf : xs.Pairwise fun x y => ∀ q, file x q → ¬ file y q) :
    Surveys (xs.mapM f >>= fun found => pure found.flatten) (fun d => ∃ x ∈ xs, directory x d)
      fun q => ∃ x ∈ xs, file x q := by
  suffices hall : ∃ (dirs : List Path) (found : List (List Path)),
      Polls (xs.mapM f) (.ok found) dirs.length ∧ dirs.Nodup ∧
      (∀ d, d ∈ dirs ↔ ∃ x ∈ xs, directory x d) ∧ found.flatten.Nodup ∧
      ∀ q, q ∈ found.flatten ↔ ∃ x ∈ xs, file x q by
    obtain ⟨dirs, found, hpolls, hrest⟩ := hall
    exact ⟨dirs, found.flatten, hpolls.bind_silent (polls_pure _), hrest⟩
  induction xs with
  | nil => exact ⟨[], [], polls_pure _, by simp⟩
  | cons x xs ih =>
      rw [List.pairwise_cons] at hd hf
      obtain ⟨dirs₁, found₁, hpolls₁, hdirs₁, hmem₁, hfound₁, htaken₁⟩ := h x List.mem_cons_self
      obtain ⟨dirs, found, hpolls, hdirs, hmem, hfound, htaken⟩ :=
        ih (fun y hy => h y (List.mem_cons_of_mem _ hy)) hd.2 hf.2
      refine ⟨dirs₁ ++ dirs, found₁ :: found, ?_, ?_, ?_, ?_, ?_⟩
      · rw [List.mapM_cons, List.length_append]
        exact hpolls₁.bind_add (hpolls.bind_silent (polls_pure _))
      · refine List.nodup_append'.2 ⟨hdirs₁, hdirs, ?_⟩
        intro d hd₁ hd₂
        obtain ⟨y, hy, hdy⟩ := (hmem d).1 hd₂
        exact hd.1 y hy d ((hmem₁ d).1 hd₁) hdy
      · intro d
        rw [List.mem_append, hmem₁, hmem, List.exists_mem_cons_iff]
      · rw [List.flatten_cons]
        refine List.nodup_append'.2 ⟨hfound₁, hfound, ?_⟩
        intro q hq₁ hq₂
        obtain ⟨y, hy, hqy⟩ := (htaken q).1 hq₂
        exact hf.1 y hy q ((htaken₁ q).1 hq₁) hqy
      · intro q
        rw [List.flatten_cons, List.mem_append, htaken₁, htaken, List.exists_mem_cons_iff]

/-! ## The walk -/

/-- What a walk enters at an entry. -/
def EntersAt (s : Scan) (w : Workspace) (p : Path) (e : ServiceKeys.Entry) (d : Path) : Prop :=
  e = .directory ∧ s.enters p.name = true ∧ s.Walks w p d

/-- What a walk finds at an entry. -/
def FindsAt (s : Scan) (w : Workspace) (p : Path) (e : ServiceKeys.Entry) (q : Path) : Prop :=
  (s.accepts p.name = true ∧ w.HoldsFile p e ∧ q = p) ∨
    (e = .directory ∧ s.enters p.name = true ∧ s.Finds w p q)

theorem surveys_taken {l : Lookup (List Path)} {p : Path} {e : ServiceKeys.Entry}
    (he : e ≠ .directory) (hfile : w.HoldsFile p e)
    (hl : Polls l (.ok (if s.accepts p.name then [p] else [])) 0) :
    Surveys l (s.EntersAt w p e) (s.FindsAt w p e) := by
  refine ⟨[], _, hl, .nil, by simp [EntersAt, he], ?_, ?_⟩
  · split <;> simp
  · intro q
    cases haccepts : s.accepts p.name <;> simp [FindsAt, he, hfile, haccepts]

/-- One entry of a directory, given what the walk does in the directories of the next level. -/
theorem surveys_ofEntry {descend : Path → Lookup (List Path)} {p : Path} {e : ServiceKeys.Entry}
    (hdescend : e = .directory → s.enters p.name = true →
      Surveys (descend p) (s.Walks w p) (s.Finds w p)) :
    Surveys (s.ofEntry w descend p e) (s.EntersAt w p e) (s.FindsAt w p e) := by
  unfold ofEntry
  cases e with
  | directory =>
      cases henters : s.enters p.name with
      | true =>
          refine (hdescend rfl henters).congr ?_ ?_
          · simp [EntersAt, henters]
          · simp [FindsAt, henters, Workspace.HoldsFile]
      | false =>
          refine surveys_nothing (polls_pure _) ?_ ?_
          · simp [EntersAt, henters]
          · simp [FindsAt, henters, Workspace.HoldsFile]
  | file bytes => exact surveys_taken (by simp) trivial (polls_pure _)
  | link target =>
      -- a link that cannot be followed, or not to a file, yields nothing
      have hnothing : ∀ {l : Lookup (List Path)}, Polls l (.ok []) 0 →
          ¬ w.HoldsFile p (.link target) → Surveys l (s.EntersAt w p (.link target))
            (s.FindsAt w p (.link target)) := by
        intro l hl hfile
        refine surveys_nothing hl ?_ ?_
        · simp [EntersAt]
        · simp [FindsAt, hfile]
      dsimp only
      split
      · rename_i r hreach
        split
        · rename_i hentry
          exact surveys_taken (by simp) ⟨r, hreach, hentry⟩ (polls_pure _)
        · rename_i hentry
          refine hnothing (polls_pure _) ?_
          rintro ⟨r', hreach', hentry'⟩
          obtain rfl := Except.ok.inj (hreach'.symm.trans hreach)
          exact hentry hentry'
      · rename_i hreach
        refine hnothing (polls_pure _) ?_
        rintro ⟨r', hreach', -⟩
        simp [hreach'] at hreach
      · rename_i hreach
        refine hnothing ((polls_debug _).bind_ok (polls_pure _)) ?_
        rintro ⟨r', hreach', -⟩
        simp [hreach'] at hreach

theorem walks_iff_of_list {names : List (String × ServiceKeys.Entry)}
    (hlist : w.list dir = .ok names) {d : Path} :
    s.Walks w dir d ↔ d = dir ∨ ∃ x ∈ inOrder names, s.EntersAt w (dir.child x.1) x.2 d := by
  rw [walks_iff]
  refine or_congr_right ⟨?_, ?_⟩
  · rintro ⟨_, ⟨names', name, hlist', hname, henters, rfl⟩, hwalks⟩
    obtain rfl := Except.ok.inj (hlist'.symm.trans hlist)
    exact ⟨_, List.mem_mergeSort.2 hname, rfl, by rwa [Path.name_child], hwalks⟩
  · rintro ⟨⟨name, e⟩, hname, rfl, henters, hwalks⟩
    rw [Path.name_child] at henters
    exact ⟨_, ⟨names, name, hlist, List.mem_mergeSort.1 hname, henters, rfl⟩, hwalks⟩

theorem finds_iff_of_list {names : List (String × ServiceKeys.Entry)}
    (hlist : w.list dir = .ok names) {q : Path} :
    s.Finds w dir q ↔ ∃ x ∈ inOrder names, s.FindsAt w (dir.child x.1) x.2 q := by
  rw [finds_iff]
  constructor
  · rintro (⟨names', name, e, hlist', hname, haccepts, hfile, rfl⟩ |
      ⟨_, ⟨names', name, hlist', hname, henters, rfl⟩, hfinds⟩)
    · obtain rfl := Except.ok.inj (hlist'.symm.trans hlist)
      exact ⟨_, List.mem_mergeSort.2 hname, Or.inl ⟨by rwa [Path.name_child], hfile, rfl⟩⟩
    · obtain rfl := Except.ok.inj (hlist'.symm.trans hlist)
      exact ⟨_, List.mem_mergeSort.2 hname, Or.inr ⟨rfl, by rwa [Path.name_child], hfinds⟩⟩
  · rintro ⟨⟨name, e⟩, hname, ⟨haccepts, hfile, rfl⟩ | ⟨rfl, henters, hfinds⟩⟩
    · rw [Path.name_child] at haccepts
      exact Or.inl ⟨names, name, e, hlist, List.mem_mergeSort.1 hname, haccepts, hfile, rfl⟩
    · rw [Path.name_child] at henters
      exact Or.inr ⟨_, ⟨names, name, hlist, List.mem_mergeSort.1 hname, henters, rfl⟩, hfinds⟩

theorem below_of_findsAt {p q : Path} {e : ServiceKeys.Entry} (h : s.FindsAt w p e q) :
    w.Below p q := by
  rcases h with ⟨-, -, rfl⟩ | ⟨-, -, hfinds⟩
  · exact .refl w q
  · exact below_of_finds hfinds

/-- **The walk is exact.**  With more depth than there is room below the directory, the walk visits
the directories that the scan walks from there and takes the files that the scan finds. -/
theorem surveys_walk (hw : w.Sound) (s : Scan) {depth : Nat} {dir : Path}
    (hdepth : w.room dir < depth) : Surveys (s.walk w depth dir) (s.Walks w dir) (s.Finds w dir) := by
  induction depth generalizing dir with
  | zero => omega
  | succ depth ih =>
      rw [walk]
      cases hlist : w.list dir with
      | error e =>
          have hnone : ∀ sub, ¬ s.Descends w dir sub := by
            rintro sub ⟨names, name, hlist', -⟩
            simp [hlist] at hlist'
          refine ⟨[dir], [], .after_poll ((polls_debug _).bind_ok (polls_pure _)), by simp, ?_, .nil, ?_⟩
          · intro d
            rw [walks_iff]
            simp [hnone]
          · intro q
            rw [finds_iff]
            simp [hnone, Takes, hlist]
      | ok names =>
          have hentries : ∀ x ∈ inOrder names, Surveys (s.ofEntry w (walk s w depth) (dir.child x.1) x.2)
              (s.EntersAt w (dir.child x.1) x.2) (s.FindsAt w (dir.child x.1) x.2) := by
            rintro ⟨name, e⟩ hx
            refine surveys_ofEntry fun hdirectory _ => ih ?_
            have hname : (name, .directory) ∈ names := hdirectory ▸ List.mem_mergeSort.1 hx
            exact Nat.lt_of_lt_of_le (w.room_child_lt hw hlist hname) (Nat.lt_succ_iff.1 hdepth)
          -- different names have different directories and files below them
          have hdistinct : (inOrder names).Pairwise fun a b => a.1 ≠ b.1 := by
            obtain ⟨place, -, rfl⟩ := exists_place_of_list hlist
            exact ((FileTree.pairwise_children hw.single place).perm
              (List.mergeSort_perm _ _).symm fun h => h.symm)
          obtain ⟨dirs, found, hpolls, hdirs, hmem, hfound, htaken⟩ := surveys_mapM hentries
            (hdistinct.imp fun hne d ha hb =>
              hne ((below_of_walks ha.2.2).name_unique (below_of_walks hb.2.2)))
            (hdistinct.imp fun hne q ha hb =>
              hne ((below_of_findsAt ha).name_unique (below_of_findsAt hb)))
          refine ⟨dir :: dirs, found, .after_poll hpolls, ?_, ?_, hfound, ?_⟩
          · refine List.nodup_cons.2 ⟨?_, hdirs⟩
            intro hdir
            obtain ⟨x, -, -, -, hwalks⟩ := (hmem dir).1 hdir
            exact w.not_below_child _ _ (below_of_walks hwalks)
          · intro d
            rw [walks_iff_of_list hlist, List.mem_cons, hmem]
          · intro q
            rw [finds_iff_of_list hlist, htaken]

/-! ## The files of a scan -/

/-- A scan of a path walks a directory; a path that leads to no directory is not walked at all. -/
def Walked (s : Scan) (w : Workspace) (root d : Path) : Prop :=
  w.isDirectory root = .ok true ∧ s.Walks w root d

/-- A scan of a path accepts a file. -/
def Accepted (s : Scan) (w : Workspace) (root q : Path) : Prop :=
  w.isDirectory root = .ok true ∧ s.Finds w root q

/-- **The polls of a scan**: one for each directory that is walked. -/
theorem surveys_files (hw : w.Sound) (s : Scan) {root : Path} {b : Bool}
    (h : w.isDirectory root = .ok b) :
    Surveys (s.files w root) (s.Walked w root) (s.Accepted w root) := by
  have hasked : Polls (accessed (w.isDirectory root)) (.ok b) 0 := h ▸ polls_accessed _
  cases b with
  | true =>
      obtain ⟨dirs, found, hpolls, hdirs, hmem, hfound, htaken⟩ :=
        surveys_walk hw s (Nat.lt_succ_of_le (w.room_le root))
      refine ⟨dirs, found, hasked.bind_ok hpolls, hdirs, ?_, hfound, ?_⟩
      · simp [Walked, h, hmem]
      · simp [Accepted, h, htaken]
  | false =>
      refine surveys_nothing (hasked.bind_ok ((polls_debug _).bind_ok (polls_pure _))) ?_ ?_
      · simp [Walked, h]
      · simp [Accepted, h]

/-- A scan of a path that cannot be asked about fails at once. -/
theorem polls_files_error (s : Scan) {root : Path} {e : AccessError}
    (h : w.isDirectory root = .error e) : Polls (s.files w root) (.error (.access e)) 0 := by
  have hasked : Polls (accessed (w.isDirectory root)) (.error (.access e)) 0 := h ▸ polls_accessed _
  exact hasked.bind_error

end Scan

end ServiceKeys
