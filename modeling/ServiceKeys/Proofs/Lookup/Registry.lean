import ServiceKeys.Proofs.Glob.Matches
import ServiceKeys.Proofs.Lookup.Confinement

/-!
# The registration files in order

Registration files are found glob by glob: the matches of each glob in order, without what an earlier
glob has found and without what is no file.  So the result is the concatenation of blocks, one for each
glob, made free of duplicates (`Project.locate_eq_ok_iff`), and everything else follows from that: which
files there are, that a file stands where the first glob that matches it puts it, that a glob adds
nothing when it comes again, and that a listing may have any order.  A list in a strict order is
determined by its members, and the order here says which glob comes first and then compares components.
Main statement: `Project.locate_exact`.
-/

namespace ServiceKeys

open Lookup

/-! ## Duplicates among blocks -/

/-- The first place of a list at which something holds. -/
def FirstAt {α : Type} (xs : List α) (P : α → Prop) (i : Nat) : Prop :=
  (∃ x, xs[i]? = some x ∧ P x) ∧ ∀ j x, j < i → xs[j]? = some x → ¬ P x

theorem firstAt_cons {α : Type} {x : α} {xs : List α} {P : α → Prop} {i : Nat} :
    FirstAt (x :: xs) P i ↔ P x ∧ i = 0 ∨ ¬ P x ∧ ∃ j, i = j + 1 ∧ FirstAt xs P j := by
  constructor
  · rintro ⟨⟨y, hy, hP⟩, hbefore⟩
    cases i with
    | zero =>
        obtain rfl : x = y := by simpa using hy
        exact Or.inl ⟨hP, rfl⟩
    | succ i =>
        refine Or.inr ⟨hbefore 0 x (Nat.succ_pos i) rfl, i, rfl, ⟨y, by simpa using hy, hP⟩, ?_⟩
        exact fun j z hj hz => hbefore (j + 1) z (Nat.succ_lt_succ hj) (by simpa using hz)
  · rintro (⟨hP, rfl⟩ | ⟨hP, i, rfl, ⟨y, hy, hPy⟩, hbefore⟩)
    · exact ⟨⟨x, rfl, hP⟩, fun j z hj => absurd hj (Nat.not_lt_zero j)⟩
    · refine ⟨⟨y, by simpa using hy, hPy⟩, fun j z hj hz => ?_⟩
      cases j with
      | zero =>
          obtain rfl : x = z := by simpa using hz
          exact hP
      | succ j => exact hbefore j z (Nat.lt_of_succ_lt_succ hj) (by simpa using hz)

section Distinct

variable {α β : Type} [BEq β]

theorem distinct_append (xs ys : List β) :
    distinct (xs ++ ys) = distinct xs ++ (distinct ys).filter fun y => !xs.contains y := by
  have hcontains : ∀ y, (xs.all fun x => id y != id x) = !xs.contains y := by
    intro y
    rw [List.contains_eq_any_beq, List.not_any_eq_all_not]
    rfl
  rw [distinct, distinct, distinct, distinctBy_append]
  simp only [hcontains]

variable [LawfulBEq β]

theorem distinct_distinct_append (xs ys : List β) : distinct (distinct xs ++ ys) = distinct (xs ++ ys) := by
  have hcontains : ∀ y, (distinct xs).contains y = xs.contains y := by
    intro y
    rw [Bool.eq_iff_iff, List.contains_iff_mem, List.contains_iff_mem, mem_distinct]
  have hself : distinct (distinct xs) = distinct xs := distinctBy_eq_self (nodup_distinct xs)
  rw [distinct_append, distinct_append, hself]
  simp only [hcontains]

/-- What has been there before adds nothing. -/
theorem distinct_append_of_subset {xs ys : List β} (h : ∀ y ∈ ys, y ∈ xs) (zs : List β) :
    distinct (xs ++ (ys ++ zs)) = distinct (xs ++ zs) := by
  have hnone : (distinct ys).filter (fun y => !xs.contains y) = [] := by
    rw [List.filter_eq_nil_iff]
    intro y hy
    simpa using h y (mem_distinct.1 hy)
  have hsome : ∀ z, (!xs.contains z && !ys.contains z) = !xs.contains z := by
    intro z
    by_cases hz : z ∈ ys
    · simp [hz, h z hz]
    · simp [hz]
  rw [distinct_append, distinct_append, distinct_append, List.filter_append, hnone, List.nil_append,
    List.filter_filter]
  simp only [hsome]

/-- Only the first of equal elements in a block matters. -/
theorem distinct_flatMap_congr {f g : α → List β} {xs : List α}
    (h : ∀ x ∈ xs, distinct (f x) = distinct (g x)) : distinct (xs.flatMap f) = distinct (xs.flatMap g) := by
  induction xs with
  | nil => rfl
  | cons x xs ih =>
      obtain ⟨hx, hxs⟩ := List.forall_mem_cons.1 h
      have hcontains : ∀ y, (f x).contains y = (g x).contains y := by
        intro y
        rw [Bool.eq_iff_iff, List.contains_iff_mem, List.contains_iff_mem, ← mem_distinct, hx, mem_distinct]
      rw [List.flatMap_cons, List.flatMap_cons, distinct_append, distinct_append, hx, ih hxs]
      simp only [hcontains]

/-- **Blocks that are in order, one after the other**: an element stands where the first block that
has it puts it. -/
theorem pairwise_distinct_flatMap {block : α → List β} {lt : β → β → Prop} {xs : List α}
    (h : ∀ x ∈ xs, (distinct (block x)).Pairwise lt) :
    (distinct (xs.flatMap block)).Pairwise fun a b => ∀ i j, FirstAt xs (a ∈ block ·) i →
      FirstAt xs (b ∈ block ·) j → i < j ∨ i = j ∧ lt a b := by
  induction xs with
  | nil => exact .nil
  | cons x xs ih =>
      obtain ⟨hx, hxs⟩ := List.forall_mem_cons.1 h
      rw [List.flatMap_cons, distinct_append, List.pairwise_append]
      have hfirst : ∀ a ∈ distinct (block x), ∀ i, FirstAt (x :: xs) (a ∈ block ·) i → i = 0 := by
        intro a ha i hi
        rcases firstAt_cons.1 hi with ⟨-, rfl⟩ | ⟨hnot, -⟩
        · rfl
        · exact absurd (mem_distinct.1 ha) hnot
      have hlater : ∀ b ∈ (distinct (xs.flatMap block)).filter (fun y => !(block x).contains y), ∀ j,
          FirstAt (x :: xs) (b ∈ block ·) j → ∃ j', j = j' + 1 ∧ FirstAt xs (b ∈ block ·) j' := by
        intro b hb j hj
        rcases firstAt_cons.1 hj with ⟨hmem, -⟩ | ⟨-, hj⟩
        · exact absurd hmem (by simpa using (List.mem_filter.1 hb).2)
        · exact hj
      refine ⟨hx.imp_of_mem ?_, (ih hxs).filter _ |>.imp_of_mem ?_, ?_⟩
      · intro a b ha hb hlt i j hi hj
        exact Or.inr ⟨(hfirst a ha i hi).trans (hfirst b hb j hj).symm, hlt⟩
      · intro a b ha hb hordered i j hi hj
        obtain ⟨i', rfl, hi'⟩ := hlater a ha i hi
        obtain ⟨j', rfl, hj'⟩ := hlater b hb j hj
        rcases hordered i' j' hi' hj' with hlt | ⟨rfl, hlt⟩
        · exact Or.inl (Nat.succ_lt_succ hlt)
        · exact Or.inr ⟨rfl, hlt⟩
      · intro a ha b hb i j hi hj
        obtain ⟨j, rfl, -⟩ := hlater b hb j hj
        exact Or.inl (hfirst a ha i hi ▸ Nat.succ_pos j)

end Distinct

/-! ## The files of a glob -/

theorem Lookup.gives_foldlM {α β : Type} {f : β → α → Lookup β} {g : β → α → Except Failure β}
    (h : ∀ b x, Gives (f b x) (g b x)) (xs : List α) (b : β) :
    Gives (xs.foldlM f b) (xs.foldlM g b) := by
  induction xs generalizing b with
  | nil => exact gives_pure b
  | cons x xs ih =>
      rw [List.foldlM_cons, List.foldlM_cons]
      exact (h b x).bind fun b _ => ih b

/-- An access that has to succeed, and what follows from its result. -/
theorem Lookup.gives_accessed_then {α β : Type} {r : Except AccessError α} {f : α → Lookup β} {g : α → β}
    (h : ∀ a, Gives (f a) (.ok (g a))) : Gives (accessed r >>= f) ((r.mapError .access).map g) := by
  cases r with
  | error e => exact (gives_accessed _).bind_error
  | ok a => exact (gives_accessed _).bind_ok (h a)

/-- A path leads to a file, as far as that can be asked. -/
def Workspace.hasFile (w : Workspace) (p : Path) : Bool := (w.isFile p).toOption == some true

theorem Workspace.hasFile_iff {w : Workspace} {p : Path} : w.hasFile p = true ↔ w.isFile p = .ok true := by
  rw [hasFile, beq_iff_eq]
  constructor
  · exact eq_ok_of_toOption
  · intro h
    rw [h]
    rfl

theorem Scan.isFile_reordered {w : Workspace} (hw : w.Sound) {entries : List (List String × Entry)}
    (h : w.tree.entries.Perm entries) (p : Path) : (Scan.reordered w entries).isFile p = w.isFile p :=
  congrArg (Except.mapError _) ((Glob.sameEntries_reordered hw h).asks _ _)

namespace Project

variable {w : Workspace} {root : Path} {glob : String}

/-- The matches of a glob in order, or why there are none. -/
def matched (w : Workspace) (root : Path) (glob : String) : Except Failure (List Path) :=
  match Glob.parse glob with
  | .error fault => .error (.glob glob fault)
  | .ok g => ((Glob.expand w.tree root g).mapError .access).map Path.sort

theorem gives_globMatches (w : Workspace) (root : Path) (glob : String) :
    Gives (globMatches w root glob) (matched w root glob) := by
  rw [globMatches, matched]
  cases Glob.parse glob with
  | error fault => exact gives_throw _
  | ok g => exact gives_accessed_then fun ps => gives_pure _

/-- The files among some paths that are not there yet, or why that cannot be said. -/
def withFiles (w : Workspace) (files ps : List Path) : Except Failure (List Path) :=
  ps.foldlM (fun files p =>
    if files.contains p then .ok files
    else ((w.isFile p).mapError .access).map fun isFile => if isFile then files ++ [p] else files) files

theorem gives_addFiles (w : Workspace) (files ps : List Path) :
    Gives (addFiles w files ps) (withFiles w files (ps.map w.normalize)) := by
  refine gives_foldlM (fun files p => ?_) _ _
  split
  · exact gives_pure _
  · refine gives_accessed_then fun isFile => ?_
    split
    · exact gives_pure _
    · exact gives_pure _

/-- Adding files succeeds if it can be asked of each path whether it is one, and adds those that are. -/
theorem withFiles_eq_ok_iff {files ps files' : List Path} (hfiles : ∀ q ∈ files, w.isFile q = .ok true)
    (hnodup : files.Nodup) : withFiles w files ps = .ok files' ↔
      (∀ p ∈ ps, ∃ isFile, w.isFile p = .ok isFile) ∧ files' = distinct (files ++ ps.filter w.hasFile) := by
  induction ps generalizing files with
  | nil =>
      have hself : distinct files = files := distinctBy_eq_self hnodup
      simp [withFiles, hself, pure, Except.pure, eq_comm]
  | cons p ps ih =>
      have hstep : withFiles w files (p :: ps) =
          ((if files.contains p then .ok files
            else ((w.isFile p).mapError .access).map fun isFile =>
              if isFile then files ++ [p] else files) >>= (withFiles w · ps)) := rfl
      have hasked : ∀ {isFile}, w.isFile p = .ok isFile →
          ((∀ q ∈ p :: ps, ∃ isFile, w.isFile q = .ok isFile) ↔
            ∀ q ∈ ps, ∃ isFile, w.isFile q = .ok isFile) :=
        fun hfile => List.forall_mem_cons.trans (and_iff_right ⟨_, hfile⟩)
      rw [hstep]
      by_cases hp : p ∈ files
      · have hfile := hfiles p hp
        have hskip : distinct (files ++ p :: ps.filter w.hasFile) = distinct (files ++ ps.filter w.hasFile) := by
          rw [← List.singleton_append]
          exact distinct_append_of_subset (List.forall_mem_singleton.2 hp) _
        rw [if_pos (List.contains_iff_mem.2 hp), List.filter_cons_of_pos (Workspace.hasFile_iff.2 hfile),
          hskip, hasked hfile]
        exact ih hfiles hnodup
      · rw [if_neg (by simpa using hp)]
        cases hfile : w.isFile p with
        | error e => simp [hfile, Except.mapError, Except.map, bind, Except.bind]
        | ok isFile =>
            rw [hasked hfile]
            cases isFile with
            | true =>
                rw [List.filter_cons_of_pos (Workspace.hasFile_iff.2 hfile),
                  List.append_cons files p (ps.filter w.hasFile)]
                exact ih (List.forall_mem_append.2 ⟨hfiles, List.forall_mem_singleton.2 hfile⟩)
                  (hnodup.append (List.nodup_singleton p) (by simpa using hp))
            | false =>
                have hnone : ¬ w.hasFile p = true := by simp [Workspace.hasFile_iff, hfile]
                rw [List.filter_cons_of_neg hnone]
                exact ih hfiles hnodup

/-! ## The blocks of the result -/

/-- The files that a glob matches, in order. -/
def globFiles (w : Workspace) (root : Path) (glob : String) : List Path :=
  (((matched w root glob).toOption.getD []).map w.normalize).filter w.hasFile

/-- A glob can be expanded, and it can be asked of each match whether it is a file. -/
def Answered (w : Workspace) (root : Path) (glob : String) : Prop :=
  ∃ ps, matched w root glob = .ok ps ∧ ∀ p ∈ ps, ∃ isFile, w.isFile (w.normalize p) = .ok isFile

theorem foldlM_withFiles_eq_ok_iff {globs : List String} {files files' : List Path}
    (hfiles : ∀ q ∈ files, w.isFile q = .ok true) (hnodup : files.Nodup) :
    (globs.foldlM (fun files glob =>
        matched w root glob >>= fun found => withFiles w files (found.map w.normalize)) files =
      .ok files') ↔
      (∀ glob ∈ globs, Answered w root glob) ∧
        files' = distinct (files ++ globs.flatMap (globFiles w root)) := by
  induction globs generalizing files with
  | nil =>
      have hself : distinct files = files := distinctBy_eq_self hnodup
      simp [hself, pure, Except.pure, eq_comm]
  | cons glob globs ih =>
      rw [List.foldlM_cons, List.forall_mem_cons, bind_eq_ok_iff]
      cases hmatched : matched w root glob with
      | error e => simp [Answered, hmatched, bind, Except.bind]
      | ok ps =>
          have hblock : globFiles w root glob = (ps.map w.normalize).filter w.hasFile := by
            rw [globFiles, hmatched]
            rfl
          have hanswered : Answered w root glob ↔
              ∀ p ∈ ps.map w.normalize, ∃ isFile, w.isFile p = .ok isFile := by
            simp [Answered, hmatched]
          have hadded : ∀ q ∈ distinct (files ++ globFiles w root glob), w.isFile q = .ok true := by
            intro q hq
            rcases List.mem_append.1 (mem_distinct.1 hq) with hq | hq
            · exact hfiles q hq
            · exact Workspace.hasFile_iff.1 (List.mem_filter.1 hq).2
          have hstep : ∀ next, (Except.ok ps >>= fun found =>
              withFiles w files (found.map w.normalize)) = .ok next ↔
              Answered w root glob ∧ next = distinct (files ++ globFiles w root glob) := by
            intro next
            rw [hanswered, hblock]
            exact withFiles_eq_ok_iff hfiles hnodup
          simp only [hstep]
          have hblocks : distinct (files ++ (glob :: globs).flatMap (globFiles w root)) =
              distinct (distinct (files ++ globFiles w root glob) ++ globs.flatMap (globFiles w root)) := by
            rw [distinct_distinct_append, List.append_assoc, List.flatMap_cons]
          rw [hblocks, and_assoc, ← ih hadded (nodup_distinct _)]
          constructor
          · rintro ⟨_, ⟨hglob, rfl⟩, hrest⟩
            exact ⟨hglob, hrest⟩
          · rintro ⟨hglob, hrest⟩
            exact ⟨_, ⟨hglob, rfl⟩, hrest⟩

/-- Looking for the files of globs, without the log. -/
theorem gives_locate (w : Workspace) (root : Path) (globs : List String) :
    Gives (locate w root globs) (globs.foldlM (fun files glob =>
      matched w (w.normalize root) glob >>= fun found => withFiles w files (found.map w.normalize)) []) := by
  have hglob : ∀ files glob, Gives (globMatches w (w.normalize root) glob >>= fun found => do
      if found.isEmpty then
        Lookup.debug ("DI glob " ++ Text.quoted glob ++ " matched nothing under " ++
          (w.normalize root).toString)
      addFiles w files found) (matched w (w.normalize root) glob >>= fun found =>
        withFiles w files (found.map w.normalize)) := by
    intro files glob
    refine (gives_globMatches w _ glob).bind fun found _ => ?_
    split
    · exact (gives_debug _).bind_ok (gives_addFiles w files found)
    · exact gives_addFiles w files found
  have hbind : ∀ r : Except Failure (List Path), (r >>= Except.ok) = r := bind_pure
  rw [← hbind (globs.foldlM _ [])]
  exact (gives_foldlM hglob globs []).bind fun files _ => (gives_debug _).bind_ok (gives_pure files)

/-- **The registration files are the files of the globs, one glob after the other**, and are found
exactly if every glob has an answer. -/
theorem locate_eq_ok_iff {globs : List String} {files : List Path} :
    ((locate w root globs).outcome none).1 = .ok files ↔
      (∀ glob ∈ globs, Answered w (w.normalize root) glob) ∧
        files = distinct (globs.flatMap (globFiles w (w.normalize root))) := by
  rw [(gives_locate w root globs).outcome, foldlM_withFiles_eq_ok_iff (by simp) List.nodup_nil, List.nil_append]

/-! ## What the files are -/

/-- A glob names a path: it selects one that has this absolute form. -/
def Names (w : Workspace) (root : Path) (glob : String) (q : Path) : Prop :=
  ∃ m, Glob.Selects w.tree root glob m ∧ q = w.normalize m

theorem matched_eq_ok_iff {ps : List Path} : matched w root glob = .ok ps ↔
    ∃ g found, Glob.parse glob = .ok g ∧ Glob.expand w.tree root g = .ok found ∧ ps = Path.sort found := by
  rw [matched]
  cases Glob.parse glob with
  | error fault => simp
  | ok g =>
      cases hexpand : Glob.expand w.tree root g with
      | error e => simp [hexpand, Except.mapError, Except.map]
      | ok found => simp [hexpand, Except.mapError, Except.map, eq_comm]

theorem globFiles_of_matched {ps : List Path} (h : matched w root glob = .ok ps) :
    globFiles w root glob = (ps.map w.normalize).filter w.hasFile := by
  rw [globFiles, h]
  rfl

theorem mem_globFiles_iff (hw : w.Sound) (habsolute : root.isAbsolute = true)
    (hanswered : Answered w root glob) {q : Path} :
    q ∈ globFiles w root glob ↔ w.isFile q = .ok true ∧ Names w root glob q := by
  obtain ⟨ps, hmatched, -⟩ := hanswered
  obtain ⟨g, found, hparse, hexpand, rfl⟩ := matched_eq_ok_iff.1 hmatched
  have hselects : ∀ m, m ∈ Path.sort found ↔ Glob.Selects w.tree root glob m := by
    intro m
    rw [Path.sort, List.mem_mergeSort, Glob.mem_expand_iff hw habsolute hexpand]
    simp [Glob.Selects, hparse]
  rw [globFiles_of_matched hmatched, List.mem_filter, Workspace.hasFile_iff, and_comm, List.mem_map, Names]
  simp only [hselects, eq_comm]

/-- Without double dots in the glob the files of one glob are in strict order. -/
theorem ascending_globFiles (hw : w.WellFormed) (hroot : w.normalize root = root)
    (hdots : ".." ∉ Path.components glob.toList) (hanswered : Answered w root glob) :
    Path.Ascending (distinct (globFiles w root glob)) := by
  obtain ⟨ps, hmatched, -⟩ := hanswered
  obtain ⟨g, found, hparse, hexpand, rfl⟩ := matched_eq_ok_iff.1 hmatched
  have hwithin : ∀ q ∈ Path.sort found, root.Within q := fun q hq =>
    (Glob.properlyWithin_expand hw.names (Glob.settled_of_parse hparse hdots) hexpand q
      (List.mem_mergeSort.1 hq)).within
  have hnormal : (Path.sort found).map w.normalize = Path.sort found :=
    (List.map_congr_left fun q hq => (hwithin q hq).normalize_eq hroot).trans (List.map_id _)
  have hsub : (distinct (globFiles w root glob)).Sublist (Path.sort found) := by
    rw [globFiles_of_matched hmatched, hnormal]
    exact (distinctBy_sublist _).trans List.filter_sublist
  refine ((Path.pairwise_sort found).sublist hsub |>.and (nodup_distinct _)).imp_of_mem ?_
  rintro p q hp hq ⟨hordered, hne⟩
  have hroots : p.root = q.root := by
    rw [(hwithin p (hsub.mem hp)).isPrefix.1, (hwithin q (hsub.mem hq)).isPrefix.1]
  exact (hordered hroots).resolve_right hne

/-- The order of the entries makes no difference to whether a glob has an answer, nor to the answer. -/
theorem answered_reordered (hw : w.Sound) (hroot : w.normalize root = root)
    (hdots : ".." ∉ Path.components glob.toList) {entries : List (List String × Entry)}
    (h : w.tree.entries.Perm entries) (hanswered : Answered w root glob) :
    Answered (Scan.reordered w entries) root glob ∧
      distinct (globFiles (Scan.reordered w entries) root glob) = distinct (globFiles w root glob) := by
  obtain ⟨ps, hmatched, hfiles⟩ := id hanswered
  obtain ⟨g, found, hparse, hexpand, rfl⟩ := matched_eq_ok_iff.1 hmatched
  obtain ⟨found', hexpand', hmem⟩ :=
    Glob.alike_expand (Glob.sameEntries_reordered hw h) root g found hexpand
  have hmatched' := matched_eq_ok_iff.2 ⟨g, found', hparse, hexpand', rfl⟩
  have hsorted : ∀ p, p ∈ Path.sort found' ↔ p ∈ Path.sort found := by
    intro p
    rw [Path.sort, Path.sort, List.mem_mergeSort, List.mem_mergeSort, hmem]
  have hanswered' : Answered (Scan.reordered w entries) root glob := by
    refine ⟨_, hmatched', fun p hp => ?_⟩
    rw [Scan.isFile_reordered hw h]
    exact hfiles p ((hsorted p).1 hp)
  refine ⟨hanswered', (ascending_globFiles (Scan.sound_reordered hw h).toWellFormed hroot hdots
    hanswered').ext (ascending_globFiles hw.toWellFormed hroot hdots hanswered) fun q => ?_⟩
  rw [mem_distinct, mem_distinct, globFiles_of_matched hmatched, globFiles_of_matched hmatched',
    List.mem_filter, List.mem_filter, Workspace.hasFile_iff, Workspace.hasFile_iff,
    Scan.isFile_reordered hw h, List.mem_map, List.mem_map]
  simp only [hsorted]
  rfl

/-- **The registration files are exact and in order**, whenever they can be found and no glob climbs.
No file comes twice.  A path is among them exactly if it leads to a file and some glob names it.  A file
that an earlier glob names first stands before one that a later glob names first, and files that the
same glob names first stand in the order of their components.  It makes no difference in which order
directories are listed, nor whether a glob comes again. -/
theorem locate_exact (hw : w.Sound) (root : Path) {globs : List String}
    (hdots : ∀ glob ∈ globs, ".." ∉ Path.components glob.toList) {files : List Path}
    (h : ((locate w root globs).outcome none).1 = .ok files) :
    files.Nodup ∧
    (∀ q, q ∈ files ↔ w.isFile q = .ok true ∧ ∃ glob ∈ globs, Names w (w.normalize root) glob q) ∧
    (files.Pairwise fun p q => ∀ i j, FirstAt globs (Names w (w.normalize root) · p) i →
      FirstAt globs (Names w (w.normalize root) · q) j → i < j ∨ i = j ∧ p.parts < q.parts) ∧
    (∀ entries, w.tree.entries.Perm entries →
      ((locate (Scan.reordered w entries) root globs).outcome none).1 = .ok files) ∧
    ∀ front glob back, globs = front ++ back → glob ∈ front →
      ((locate w root (front ++ glob :: back)).outcome none).1 = .ok files := by
  obtain ⟨hanswered, rfl⟩ := locate_eq_ok_iff.1 h
  have habsolute : (w.normalize root).isAbsolute = true := Path.isAbsolute_normalize hw.absolute root
  have hroot : w.normalize (w.normalize root) = w.normalize root :=
    Path.normalize_normalize hw.absolute root
  have hblock : ∀ glob ∈ globs, ∀ q, q ∈ globFiles w (w.normalize root) glob ↔
      w.isFile q = .ok true ∧ Names w (w.normalize root) glob q :=
    fun glob hglob q => mem_globFiles_iff hw habsolute (hanswered glob hglob)
  have hmem : ∀ q, q ∈ distinct (globs.flatMap (globFiles w (w.normalize root))) ↔
      w.isFile q = .ok true ∧ ∃ glob ∈ globs, Names w (w.normalize root) glob q := by
    intro q
    rw [mem_distinct, List.mem_flatMap]
    constructor
    · rintro ⟨glob, hglob, hq⟩
      obtain ⟨hfile, hnames⟩ := (hblock glob hglob q).1 hq
      exact ⟨hfile, glob, hglob, hnames⟩
    · rintro ⟨hfile, glob, hglob, hnames⟩
      exact ⟨glob, hglob, (hblock glob hglob q).2 ⟨hfile, hnames⟩⟩
  refine ⟨nodup_distinct _, hmem, ?_, ?_, ?_⟩
  · have hfirst : ∀ q i, w.isFile q = .ok true → FirstAt globs (Names w (w.normalize root) · q) i →
        FirstAt globs (q ∈ globFiles w (w.normalize root) ·) i := by
      rintro q i hfile ⟨⟨glob, hglob, hnames⟩, hbefore⟩
      refine ⟨⟨glob, hglob, (hblock glob (List.mem_of_getElem? hglob) q).2 ⟨hfile, hnames⟩⟩, ?_⟩
      exact fun j g hj hg hq => hbefore j g hj hg ((hblock g (List.mem_of_getElem? hg) q).1 hq).2
    refine (pairwise_distinct_flatMap fun glob hglob => ascending_globFiles hw.toWellFormed hroot
      (hdots glob hglob) (hanswered glob hglob)).imp_of_mem ?_
    intro p q hp hq hordered i j hi hj
    exact hordered i j (hfirst p i ((hmem p).1 hp).1 hi) (hfirst q j ((hmem q).1 hq).1 hj)
  · intro entries hperm
    have hreordered : ∀ glob ∈ globs, _ := fun glob hglob =>
      answered_reordered hw hroot (hdots glob hglob) hperm (hanswered glob hglob)
    exact locate_eq_ok_iff.2 ⟨fun glob hglob => (hreordered glob hglob).1,
      distinct_flatMap_congr fun glob hglob => ((hreordered glob hglob).2).symm⟩
  · rintro front glob back rfl hglob
    refine locate_eq_ok_iff.2 ⟨?_, ?_⟩
    · intro g hg
      rw [List.mem_append, List.mem_cons] at hg
      rcases hg with hg | rfl | hg
      · exact hanswered g (List.mem_append_left _ hg)
      · exact hanswered g (List.mem_append_left _ hglob)
      · exact hanswered g (List.mem_append_right _ hg)
    · rw [List.flatMap_append, List.flatMap_append, List.flatMap_cons, distinct_append_of_subset]
      exact fun q hq => List.mem_flatMap.2 ⟨glob, hglob, hq⟩

/-- Paths that are in order except for how they are listed. -/
theorem matched_of_perm {g : Glob.Pattern} {found ps : List Path} (hparse : Glob.parse glob = .ok g)
    (hexpand : Glob.expand w.tree root g = .ok found) (hperm : found.Perm ps) (hps : Path.Ascending ps)
    (hroot : ∀ p ∈ ps, p.root = root.root) : matched w root glob = .ok ps := by
  refine matched_eq_ok_iff.2 ⟨g, found, hparse, hexpand, ?_⟩
  have hsorted : (Path.sort found).Pairwise fun p q => p.root = q.root → p.parts < q.parts ∨ p = q :=
    Path.pairwise_sort found
  refine List.Perm.eq_of_pairwise ?_ (hps.imp fun hlt _ => Or.inl hlt) hsorted
    (hperm.symm.trans (List.mergeSort_perm _ _).symm)
  intro p q hp hq hpq hqp
  have hq' : q ∈ ps := hperm.mem_iff.1 (List.mem_mergeSort.1 hq)
  have hroots : p.root = q.root := (hroot p hp).trans (hroot q hq').symm
  rcases hpq hroots with hlt | rfl
  · exact ((hqp hroots.symm).resolve_left (lt_asymm hlt)).symm
  · rfl

/-- The directory with links, and all that there is in it. -/
def linkedWorkspace : Workspace := Scan.linkedWorkspace (Scan.linkedFile :: Scan.linkedOthers)

theorem linkedWorkspace_sound : linkedWorkspace.Sound :=
  Workspace.sound_of_names rfl (by decide) (by decide)

theorem linked_matched :
    matched linkedWorkspace Scan.linkedRoot "*/*.ts" = .ok
      ([["a", "z.ts"], ["a-b", "y.ts"], ["m", "z.ts"], ["node_modules", "x.ts"]].map
        Scan.linkedRoot.descend) ∧
    matched linkedWorkspace Scan.linkedRoot "**/*.ts" = .ok
      ([["a", "z.ts"], ["a-b", "y.ts"], ["a.ts"], ["node_modules", "x.ts"]].map
        Scan.linkedRoot.descend) := by
  constructor
  · exact matched_of_perm rfl rfl (by decide +kernel) (by rw [Path.Ascending]; decide +kernel) (by decide)
  · exact matched_of_perm rfl rfl (by decide +kernel) (by rw [Path.Ascending]; decide +kernel) (by decide)

/-- Two overlapping globs: what the second one adds is the link to a file, and it finds nothing behind the
link to a directory. -/
theorem locate_exact_linked :
    linkedWorkspace.Sound ∧ (∀ glob ∈ ["*/*.ts", "**/*.ts"], ".." ∉ Path.components glob.toList) ∧
    ∃ files, files = [["a", "z.ts"], ["a-b", "y.ts"], ["m", "z.ts"], ["node_modules", "x.ts"],
        ["a.ts"]].map Scan.linkedRoot.descend ∧
      ((locate linkedWorkspace Scan.linkedRoot ["*/*.ts", "**/*.ts"]).outcome none).1 = .ok files ∧
      ((locate linkedWorkspace Scan.linkedRoot ["*/*.ts", "**/*.ts", "*/*.ts"]).outcome none).1 =
        .ok files ∧
      ((locate (Scan.reordered linkedWorkspace linkedWorkspace.tree.entries.reverse) Scan.linkedRoot
        ["*/*.ts", "**/*.ts"]).outcome none).1 = .ok files := by
  have hdots : ∀ glob ∈ ["*/*.ts", "**/*.ts"], ".." ∉ Path.components glob.toList := by decide
  have hroot : linkedWorkspace.normalize Scan.linkedRoot = Scan.linkedRoot := rfl
  obtain ⟨hmatched, hmatched'⟩ := linked_matched
  have hfiles : ((locate linkedWorkspace Scan.linkedRoot ["*/*.ts", "**/*.ts"]).outcome none).1 =
      .ok (distinct (["*/*.ts", "**/*.ts"].flatMap (globFiles linkedWorkspace Scan.linkedRoot))) := by
    have hanswered : ∀ {glob ps}, matched linkedWorkspace Scan.linkedRoot glob = .ok ps →
        (∀ p ∈ ps, linkedWorkspace.hasFile (linkedWorkspace.normalize p) = true) →
        Answered linkedWorkspace (linkedWorkspace.normalize Scan.linkedRoot) glob :=
      fun hps hfiles => ⟨_, hps, fun p hp => ⟨true, Workspace.hasFile_iff.1 (hfiles p hp)⟩⟩
    exact locate_eq_ok_iff.2 ⟨List.forall_mem_cons.2 ⟨hanswered hmatched (by decide +kernel),
      List.forall_mem_singleton.2 (hanswered hmatched' (by decide +kernel))⟩, rfl⟩
  obtain ⟨hnodup, -, -, hreordered, hagain⟩ :=
    locate_exact linkedWorkspace_sound Scan.linkedRoot hdots hfiles
  refine ⟨linkedWorkspace_sound, hdots, _, ?_, hfiles, ?_, hreordered _ (List.reverse_perm _).symm⟩
  · simp only [List.flatMap_cons, List.flatMap_nil, globFiles_of_matched hmatched,
      globFiles_of_matched hmatched']
    decide +kernel
  · exact hagain ["*/*.ts", "**/*.ts"] "*/*.ts" [] rfl (by simp)

end Project

end ServiceKeys
