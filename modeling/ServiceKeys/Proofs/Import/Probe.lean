import ServiceKeys.Proofs.Import.Specifier
import ServiceKeys.Proofs.Lookup.Files

/-!
# What probing finds

A probe asks the tree about candidates and gives the absolute form of the first one that is a file.
The two need not be the same place: a double dot is worked off in the text of a path, while the tree
follows a link before it climbs.  The bases have no double dots, so one can come from an extension
only, and only from behind a slash in it, because an extension begins with a dot and goes on from a
name.  With plain extensions what is found is a file, and in a tree without links it is one as well
(`Resolver.isFile_of_resolve?`).
-/

namespace ServiceKeys

open ServiceKeys.Path

/-! ## Extensions -/

/-- An extension in which no component behind a slash is a double dot. -/
def Resolver.PlainExtension (extension : String) : Prop :=
  ['.', '.'] ∉ (Text.splitOn '/' extension.toList).tail

instance (extension : String) : Decidable (Resolver.PlainExtension extension) :=
  inferInstanceAs (Decidable (¬ _ ∈ (_ : List (List Char))))

/-- The pieces of a text that begins with a dot. -/
theorem exists_pieces_of_dot {extension : String} (hdot : extension.toList.head? = some '.')
    (hplain : Resolver.PlainExtension extension) :
    ∃ piece pieces, Text.splitOn '/' extension.toList = ('.' :: piece) :: pieces ∧
      ['.', '.'] ∉ pieces := by
  obtain ⟨cs, hcs⟩ := List.head?_eq_some_iff.1 hdot
  obtain ⟨piece, pieces, hpieces⟩ := List.exists_cons_of_ne_nil (Text.splitBy_ne_nil (· == '/') cs)
  have hsplit : Text.splitOn '/' (['.'] ++ cs) = (['.'] ++ piece) :: pieces :=
    Text.splitOn_append_left (by decide) hpieces
  rw [Resolver.PlainExtension, hcs] at hplain
  rw [hcs]
  exact ⟨piece, pieces, hsplit, fun hmem => hplain (hsplit ▸ hmem)⟩

/-- **A name with a plain extension does not climb.** -/
theorem dotdot_notMem_components_extension {name extension : String} (hname : ProperName name)
    (hdot : extension.toList.head? = some '.') (hplain : Resolver.PlainExtension extension) :
    ".." ∉ components (name.toList ++ extension.toList) := by
  obtain ⟨piece, pieces, hsplit, hpieces⟩ := exists_pieces_of_dot hdot hplain
  rw [dotdot_mem_components_iff, Text.splitOn_append_left hname.2.2 hsplit, List.mem_cons, not_or]
  refine ⟨fun hdots => ?_, hpieces⟩
  -- the extension gives one of the two dots, so the name would be the other
  obtain ⟨c, cs, hcs⟩ := List.exists_cons_of_ne_nil fun h => hname.1 (String.toList_inj.1 h)
  have hsingle : cs = [] := by
    have hlength := congrArg List.length hdots
    rw [hcs] at hlength
    simp only [List.length_append, List.length_cons, List.length_nil] at hlength
    exact List.length_eq_zero_iff.1 (by omega)
  rw [hcs, hsingle] at hdots
  obtain ⟨rfl, -⟩ := List.cons.inj hdots
  exact hname.2.1 (String.toList_inj.1 (hcs.trans (by rw [hsingle]; rfl)))

/-- A plain extension by itself climbs at its start only, if at all. -/
theorem components_extension {extension : String} (hdot : extension.toList.head? = some '.')
    (hplain : Resolver.PlainExtension extension) :
    ".." ∉ components extension.toList ∨
      ∃ rest, components extension.toList = ".." :: rest ∧ ".." ∉ rest := by
  obtain ⟨piece, pieces, hsplit, hpieces⟩ := exists_pieces_of_dot hdot hplain
  by_cases hdots : piece = ['.']
  · subst hdots
    refine Or.inr ⟨meaningful pieces, by rw [components, hsplit]; rfl, ?_⟩
    rwa [dotdot_mem_meaningful_iff]
  · rw [dotdot_mem_components_iff, hsplit, List.mem_cons, not_or]
    exact Or.inl ⟨fun heq => hdots (List.cons.inj heq).2.symm, hpieces⟩

/-! ## Written paths -/

/-- The slashes of a root begin no component. -/
theorem components_written (root : Root) (cs : List Char) :
    components (root.written.toList ++ cs) = components cs := by
  have hslash : ∀ cs : List Char, components ([] ++ '/' :: cs) = components [] ++ components cs :=
    components_append (by simp)
  cases root with
  | none => rfl
  | single => exact hslash cs
  | double => exact (hslash _).trans (hslash cs)

/-! ## Trees without links -/

namespace FileTree

variable {t : FileTree} {follow : List String → List String → Except AccessCause Reached}
  {place parts : List String} {r : Reached}

/-- A tree that has no links. -/
def Linkless (t : FileTree) : Prop := ∀ e ∈ t.entries, ∀ target, e.2 ≠ .link target

theorem Linkless.entryAt?_ne (ht : t.Linkless) (target : String) :
    t.entryAt? place ≠ some (.link target) := by
  rw [entryAt?]
  split
  · simp
  · intro hlookup
    obtain ⟨front, back, hentries, -⟩ := List.lookup_eq_some_iff.1 hlookup
    exact ht (place, .link target) (hentries ▸ by simp) target rfl

/-- Every directory on the way to a place, and the place itself, is found at its own names. -/
def Standing (t : FileTree) (follow : List String → List String → Except AccessCause Reached)
    (place : List String) : Prop :=
  ∀ front, front <+: place → ∀ more, t.reachWith follow [] (front ++ more) = t.reachWith follow front more

theorem standing_nil : t.Standing follow [] := by
  intro front hfront more
  rw [List.prefix_nil.1 hfront, List.nil_append]

theorem Standing.dropLast (h : t.Standing follow place) : t.Standing follow place.dropLast :=
  fun front hfront => h front (hfront.trans (List.dropLast_prefix place))

theorem Standing.append_singleton (h : t.Standing follow place) {part : String}
    (hpart : ∀ more, t.reachWith follow place (part :: more) = t.reachWith follow (place ++ [part]) more) :
    t.Standing follow (place ++ [part]) := by
  intro front hfront more
  rcases List.prefix_concat_iff.1 hfront with rfl | hfront
  · rw [List.append_assoc, h place (List.prefix_refl _), List.singleton_append, hpart]
  · exact h front hfront more

/-- **Without links, a path and its absolute form lead to the same place.** -/
theorem Linkless.reachWith_foldl_climb (ht : t.Linkless) (hplace : t.Standing follow place)
    (hparts : "." ∉ parts) (h : t.reachWith follow place parts = .ok r) :
    t.reachWith follow [] (parts.foldl climb place) = .ok r := by
  induction parts generalizing place with
  | nil => rw [List.foldl_nil, ← h, ← hplace place (List.prefix_refl _), List.append_nil]
  | cons part parts ih =>
      rw [List.mem_cons, not_or] at hparts
      have hdot : ¬ (part == ".") = true := by simpa using fun heq => hparts.1 heq.symm
      rw [reachWith, if_neg hdot] at h
      rw [List.foldl_cons, climb]
      split at h
      · rename_i hdots
        rw [if_pos hdots]
        exact ih hplace.dropLast hparts.2 h
      · rename_i hdots
        rw [if_neg hdots]
        split at h
        · simp at h
        · rename_i hshort
          have hstep : ∀ more, t.reachWith follow place (part :: more) = _ := fun more => by
            rw [reachWith, if_neg hdot, if_neg hdots, if_neg hshort]
          dsimp only at h hstep
          split at h
          · simp at h
          · rename_i hentry
            refine ih (hplace.append_singleton fun more => ?_) hparts.2 h
            rw [hstep, hentry]
          · rename_i bytes hentry
            split at h
            · rename_i hempty
              rw [List.isEmpty_iff.1 hempty, List.foldl_nil, hplace place (List.prefix_refl _), hstep,
                hentry]
              exact h
            · simp at h
          · rename_i hentry
            exact absurd hentry (ht.entryAt?_ne _)

end FileTree
namespace Workspace

variable {w : Workspace}

/-- An absolute path leads to a file if its components do, followed from the root directory. -/
theorem isFile_iff_reachFrom {p : Path} (h : p.isAbsolute = true) :
    w.isFile p = .ok true ↔ ∃ r, w.tree.reachFrom FileTree.linkLimit [] p.parts = .ok r ∧
      FileTree.isFileEntry r.entry = true := by
  rw [isFile_eq_ok_true_iff]
  simp only [reach, asking, mapError_eq_ok_iff, join_of_isAbsolute h, FileTree.reach]

theorem isFile_normalize_iff {p : Path} (h : p.isAbsolute = true) :
    w.isFile (w.normalize p) = .ok true ↔
      ∃ r, w.tree.reachFrom FileTree.linkLimit [] (resolveDots p.parts) = .ok r ∧
        FileTree.isFileEntry r.entry = true := by
  have habsolute : { p with parts := resolveDots p.parts }.isAbsolute = true := h
  rw [normalize, normalize_of_isAbsolute h]
  exact isFile_iff_reachFrom habsolute

/-- In a tree without links, what a path leads to, its absolute form leads to. -/
theorem isFile_normalize_of_linkless (ht : w.tree.Linkless) {p : Path} (habsolute : p.isAbsolute = true)
    (hproper : p.Proper) (h : w.isFile p = .ok true) : w.isFile (w.normalize p) = .ok true := by
  have hdot : "." ∉ p.parts := fun hmem => (hproper "." hmem).2.1 rfl
  obtain ⟨r, hr, hfile⟩ := (isFile_iff_reachFrom habsolute).1 h
  exact (isFile_normalize_iff habsolute).2
    ⟨r, ht.reachWith_foldl_climb FileTree.standing_nil hdot hr, hfile⟩

end Workspace

namespace Resolver

variable {w : Workspace} {base file : Path}

/-- A path that climbs at the root directory only, if at all. -/
structure Rooted (p : Path) : Prop where
  absolute : p.isAbsolute = true
  climbs : ".." ∉ p.parts ∨ ∃ rest, p.parts = ".." :: rest ∧ ".." ∉ rest

theorem rooted_of_normal (h : base.Normal) : Rooted base := ⟨h.absolute, Or.inl h.settled⟩

/-- The tree stays at the root directory where a path climbs out of it. -/
theorem reachFrom_dotdot (t : FileTree) (n : Nat) (rest : List String) :
    t.reachFrom n [] (".." :: rest) = t.reachFrom n [] rest := by
  cases n <;> rfl

/-- **What a rooted path leads to, its absolute form leads to.** -/
theorem Rooted.isFile_normalize {p : Path} (hp : Rooted p) (h : w.isFile p = .ok true) :
    w.isFile (w.normalize p) = .ok true := by
  have hresolved : w.tree.reachFrom FileTree.linkLimit [] p.parts =
      w.tree.reachFrom FileTree.linkLimit [] (resolveDots p.parts) := by
    rcases hp.climbs with hsettled | ⟨rest, hparts, hrest⟩
    · rw [resolveDots_eq_self hsettled]
    · have hdots : resolveDots (".." :: rest) = resolveDots rest := rfl
      rw [hparts, reachFrom_dotdot, hdots, resolveDots_eq_self hrest]
  rw [Workspace.isFile_normalize_iff hp.absolute, ← hresolved]
  exact (Workspace.isFile_iff_reachFrom hp.absolute).1 h

theorem toList_extension (hbase : base.Normal) (extension : String) :
    (base.toString ++ extension).toList =
      base.root.written.toList ++ (("/".intercalate base.parts).toList ++ extension.toList) := by
  have hroot : base.root ≠ .none := by simpa [isAbsolute] using hbase.absolute
  rw [Path.toString, if_neg fun h => hroot h.1]
  simp

theorem isAbsolute_extension (hbase : base.Normal) (extension : String) :
    (ofString (base.toString ++ extension)).isAbsolute = true := by
  have hroot : base.root ≠ .none := by simpa [isAbsolute] using hbase.absolute
  apply isAbsolute_ofString_cons
  rw [toList_extension hbase]
  cases hcase : base.root with
  | none => exact absurd hcase hroot
  | single => rfl
  | double => rfl

/-- A base with an extension behind its last component. -/
theorem rooted_extension (hbase : base.Normal) {extension : String}
    (hdot : extension.toList.head? = some '.') (hplain : PlainExtension extension) :
    Rooted (ofString (base.toString ++ extension)) := by
  refine ⟨isAbsolute_extension hbase extension, ?_⟩
  show (".." ∉ components _) ∨ ∃ rest, components _ = ".." :: rest ∧ ".." ∉ rest
  rw [toList_extension hbase, components_written]
  rcases List.eq_nil_or_concat base.parts with hnil | ⟨front, last, hparts⟩
  · -- at the root directory there is no name that the extension could go on from
    rw [hnil, String.intercalate_nil]
    exact components_extension hdot hplain
  · rw [List.concat_eq_append] at hparts
    have hproper := hbase.proper
    have hsettled := hbase.settled
    rw [Proper, hparts, List.forall_mem_append, List.forall_mem_singleton] at hproper
    rw [hparts, List.mem_append, not_or] at hsettled
    rw [hparts, components_intercalate_append hproper.1, List.mem_append, not_or]
    exact Or.inl ⟨hsettled.1, dotdot_notMem_components_extension hproper.2 hdot hplain⟩

/-- A base as a directory with an index. -/
theorem rooted_index (hbase : base.Normal) {extension : String}
    (hdot : extension.toList.head? = some '.') (hplain : PlainExtension extension) :
    Rooted (base.join (ofString ("index" ++ extension))) := by
  have hindex : (ofString ("index" ++ extension)) =
      ⟨.none, components ("index".toList ++ extension.toList)⟩ := by
    have hfirst : ("index" ++ extension).toList.head? ≠ some '/' := by
      rw [String.toList_append]
      show some 'i' ≠ some '/'
      decide
    rw [ofString_of_head? hfirst, String.toList_append]
  have hproper : ProperName "index" := by decide
  rw [hindex]
  refine ⟨hbase.absolute, Or.inl ?_⟩
  show ".." ∉ base.parts ++ _
  rw [List.mem_append, not_or]
  exact ⟨hbase.settled, dotdot_notMem_components_extension hproper hdot hplain⟩

/-! ## Files that are found -/

variable {r : Resolver}

theorem mem_candidates_iff {p : Path} : p ∈ r.candidates base ↔ p = base ∨
    (∃ e ∈ r.extensions, ofString (base.toString ++ e) = p) ∨
    ∃ e ∈ r.extensions, base.join (ofString ("index" ++ e)) = p := by
  rw [candidates, List.cons_append, List.mem_cons, List.mem_append, List.mem_map, List.mem_map]

/-- The candidates of a base climb at the root directory only, if the extensions are plain. -/
theorem rooted_of_mem_candidates (hbase : base.Normal)
    (hdots : ∀ e ∈ r.extensions, e.toList.head? = some '.')
    (hplain : ∀ e ∈ r.extensions, PlainExtension e) {p : Path} (hp : p ∈ r.candidates base) :
    Rooted p := by
  rcases mem_candidates_iff.1 hp with rfl | ⟨e, he, rfl⟩ | ⟨e, he, rfl⟩
  · exact rooted_of_normal hbase
  · exact rooted_extension hbase (hdots e he) (hplain e he)
  · exact rooted_index hbase (hdots e he) (hplain e he)

/-- Whatever the extensions are, the candidates of a base are absolute and proper. -/
theorem proper_of_mem_candidates (hbase : base.Normal) {p : Path} (hp : p ∈ r.candidates base) :
    p.isAbsolute = true ∧ p.Proper := by
  rcases mem_candidates_iff.1 hp with rfl | ⟨e, -, rfl⟩ | ⟨e, -, rfl⟩
  · exact ⟨hbase.absolute, hbase.proper⟩
  · exact ⟨isAbsolute_extension hbase e, proper_ofString _⟩
  · exact ⟨isAbsolute_join hbase.absolute, hbase.proper.join (proper_ofString _)⟩

/-- A resolver does not leave the way that it probes: no extension of it climbs, or there are no links
that a way could go through. -/
def Steady (r : Resolver) (w : Workspace) : Prop :=
  (∀ e ∈ r.extensions, PlainExtension e) ∨ w.tree.Linkless

/-- **What a probe finds is a file**, if no extension climbs or there are no links. -/
theorem isFile_of_probe (hbase : base.Normal)
    (hdots : ∀ e ∈ r.extensions, e.toList.head? = some '.') (hsteady : r.Steady w)
    (h : r.probe w base = some file) : w.isFile file = .ok true := by
  obtain ⟨p, hp, rfl⟩ := Option.map_eq_some_iff.1 h
  have hmem := List.mem_of_find?_eq_some hp
  have hfile : w.isFile p = .ok true := by
    have hfound := List.find?_some hp
    exact eq_ok_of_toOption (by simpa using hfound)
  rcases hsteady with hplain | hlinkless
  · exact (rooted_of_mem_candidates hbase hdots hplain hmem).isFile_normalize hfile
  · obtain ⟨habsolute, hproper⟩ := proper_of_mem_candidates hbase hmem
    exact Workspace.isFile_normalize_of_linkless hlinkless habsolute hproper hfile

/-- The bases of a specifier are in absolute form. -/
theorem normal_of_mem_bases (hw : w.WellFormed) {specifier : String} {importer root : Path}
    (himporter : importer.Proper) (hroot : root.Proper) :
    ∀ base ∈ r.bases w.cwd specifier importer root, base.Normal := by
  have hparent : (importer.normalize w.cwd).parent.Proper := fun part hpart =>
    himporter.normalize hw.proper part (List.dropLast_subset _ hpart)
  have htarget := proper_ofString specifier
  have hproject := hroot.normalize hw.proper
  have hfromRoot := hw.normal (hproject.join htarget)
  intro base hbase
  rw [bases] at hbase
  split at hbase
  · obtain rfl := List.mem_singleton.1 hbase
    exact hw.normal (hparent.join htarget)
  · obtain rfl := List.mem_singleton.1 hbase
    exact hfromRoot
  · split at hbase
    · obtain rfl := List.mem_singleton.1 hbase
      exact hfromRoot
    · rcases List.mem_pair.1 hbase with rfl | rfl
      · exact hfromRoot
      · exact hw.normal ((hproject.join (proper_ofString _)).join htarget)

/-- **What a specifier resolves to is a file**, if no extension climbs or there are no links. -/
theorem isFile_of_resolve? (hw : w.WellFormed) {specifier : String} {importer root : Path}
    (himporter : importer.Proper) (hroot : root.Proper)
    (hdots : ∀ e ∈ r.extensions, e.toList.head? = some '.') (hsteady : r.Steady w)
    (h : r.resolve? w specifier importer root = some file) : w.isFile file = .ok true := by
  obtain ⟨base, hbase, hprobe⟩ := List.exists_of_findSome?_eq_some h
  exact isFile_of_probe (normal_of_mem_bases hw himporter hroot base hbase) hdots hsteady hprobe

end Resolver

end ServiceKeys
