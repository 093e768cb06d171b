import ServiceKeys.Proofs.Lookup.Files
import ServiceKeys.Proofs.Lookup.PooledScan

/-!
# Faults are isolated

A directory may refuse to be listed and a file to be read.  What a path leads to does not depend on
it, so the workspace without its faults (`Workspace.faultless`) has the same entries behind the same
paths, and a scan of it goes to the same places and some more.  A directory that refuses hides what
is below it (`Workspace.hides`), a file that refuses has no calls, and neither does anything to the
rest: the calls that are found are those of the scan without faults, less the calls in files that
refuse or are hidden, and they stand in the same order.  Main statement: `CallSite.faults_isolated`.
-/

namespace ServiceKeys

open Lookup

/-! ## The workspace without its faults -/

namespace Workspace

variable {w : Workspace} {root dir : Path} {dirs : List String} {name : String}

/-- The workspace in which every directory can be listed and every file can be read. -/
def faultless (w : Workspace) : Workspace := { w with tree := { entries := w.tree.entries } }

theorem Sound.faultless (hw : w.Sound) : w.faultless.Sound :=
  ⟨⟨hw.absolute, hw.proper, hw.names⟩, hw.single⟩

theorem entryAt?_faultless (w : Workspace) (place : List String) :
    w.faultless.tree.entryAt? place = w.tree.entryAt? place := rfl

theorem reach_faultless (w : Workspace) (p : Path) : w.faultless.reach p = w.reach p :=
  congrArg (Except.mapError _) (FileTree.reach_congr w.entryAt?_faultless _)

theorem isFile_faultless (w : Workspace) (p : Path) : w.faultless.isFile p = w.isFile p :=
  congrArg (Except.mapError _) (FileTree.asks_congr w.entryAt?_faultless _ _)

theorem isDirectory_faultless (w : Workspace) (p : Path) :
    w.faultless.isDirectory p = w.isDirectory p :=
  congrArg (Except.mapError _) (FileTree.asks_congr w.entryAt?_faultless _ _)

theorem normalize_descend {names : List String} (h : ".." ∉ names) (w : Workspace) (p : Path) :
    w.normalize (p.descend names) = (w.normalize p).descend names := Path.normalize_descend h p w.cwd

/-- What is below a path is below it in absolute form. -/
theorem Below.normalize {q : Path} (hw : w.WellFormed) (h : w.Below root q) :
    w.Below (w.normalize root) (w.normalize q) := by
  obtain ⟨hroot, names, hparts, hnames⟩ := h
  have hpath : q = root.descend names := by rw [Path.descend, ← hparts, ← hroot]
  have hdots : ".." ∉ names := fun hmem => (hw.names _ (hnames _ hmem)).2 rfl
  rw [hpath, normalize_descend hdots]
  exact ⟨rfl, names, rfl, hnames⟩

theorem standing?_faultless (w : Workspace) (p : Path) : w.faultless.standing? p = w.standing? p := by
  rw [standing?, standing?, reach_faultless]
  rfl

/-- A directory can be listed if it could be without faults and does not refuse. -/
theorem listable_iff : w.Listable dir ↔
    w.faultless.Listable dir ∧ w.tree.unlistable (w.cwd.join dir).parts = false := by
  simp only [Listable, list_eq_ok_iff, reach_faultless]
  constructor
  · rintro ⟨names, hopen, place, hplace, -⟩
    exact ⟨⟨_, rfl, place, hplace, rfl⟩, hopen⟩
  · rintro ⟨⟨names, -, place, hplace, -⟩, hopen⟩
    exact ⟨_, hopen, place, hplace, rfl⟩

/-- Whether a file below a root is hidden: the root, or a directory between it and the file, refuses to
be listed. -/
def hides (w : Workspace) (root file : Path) : Bool :=
  match Path.below? (w.normalize root) file with
  | none => false
  | some names =>
    (List.range names.length).any fun n =>
      w.tree.unlistable (w.cwd.join (root.descend (names.take n))).parts

/-- A file is hidden by a directory that refuses: the directory is the root or below it, and the file is
below the directory. -/
theorem hides_iff {file : Path} : w.hides root file = true ↔
    ∃ dirs rest, rest ≠ [] ∧ file = (w.normalize root).descend (dirs ++ rest) ∧
      w.tree.unlistable (w.cwd.join (root.descend dirs)).parts = true := by
  rw [hides]
  cases hbelow : Path.below? (w.normalize root) file with
  | none =>
      refine iff_of_false Bool.false_ne_true ?_
      rintro ⟨dirs, rest, -, hfile, -⟩
      rw [Path.below?_eq_some_iff.2 hfile] at hbelow
      simp at hbelow
  | some names =>
      simp only [List.any_eq_true, List.mem_range, Path.below?_eq_some_iff.1 hbelow, Path.descend_inj]
      constructor
      · rintro ⟨n, hn, hrefuses⟩
        exact ⟨names.take n, names.drop n, by simpa using hn, (names.take_append_drop n).symm, hrefuses⟩
      · rintro ⟨dirs, rest, hrest, rfl, hrefuses⟩
        refine ⟨dirs.length, ?_, by rwa [List.take_left]⟩
        rw [List.length_append]
        exact Nat.lt_add_of_pos_right (List.length_pos_iff.2 hrest)

theorem hides_normalize (hnames : ".." ∉ dirs ++ [name]) :
    w.hides root (w.normalize (root.descend (dirs ++ [name]))) = false ↔
      ∀ front, front <+: dirs → w.tree.unlistable (w.cwd.join (root.descend front)).parts = false := by
  rw [normalize_descend hnames, ← Bool.not_eq_true, hides_iff]
  simp only [Path.descend_inj]
  constructor
  · rintro h front ⟨rest, rfl⟩
    by_contra hrefuses
    exact h ⟨front, rest ++ [name], by simp, by simp, by simpa using hrefuses⟩
  · rintro h ⟨front, rest, hrest, hdirs, hrefuses⟩
    obtain ⟨rest, last, rfl⟩ := (List.eq_nil_or_concat' rest).resolve_left hrest
    rw [← List.append_assoc] at hdirs
    obtain ⟨rfl, -⟩ := List.append_inj' hdirs rfl
    simp [h front (List.prefix_append _ _)] at hrefuses

end Workspace

/-! ## Which files are left -/

namespace Scan

variable {s : Scan} {w : Workspace} {root : Path} {dirs : List String} {name : String}

/-- The names of a file that is reported do not climb. -/
theorem Reports.notMem_dots (hw : w.Sound) (h : s.Reports w root dirs name) : ".." ∉ dirs ++ [name] := by
  have hfinds := (finds_iff_reports hw).2 ⟨dirs, name, rfl, h⟩
  obtain ⟨names, hdots, hpath⟩ := (below_of_finds hfinds).within hw.toWellFormed
  rwa [Path.descend_inj.1 hpath]

/-- A file is reported if it would be without faults and no directory hides it. -/
theorem reports_iff_faultless (hw : w.Sound) : s.Reports w root dirs name ↔
    s.Reports w.faultless root dirs name ∧
      w.hides root (w.normalize (root.descend (dirs ++ [name]))) = false := by
  constructor
  · intro h
    rw [Workspace.hides_normalize (h.notMem_dots hw)]
    refine ⟨⟨fun front hfront => (Workspace.listable_iff.1 (h.listable front hfront)).1, ?_, h.entered,
      h.accepted, ?_⟩, fun front hfront => (Workspace.listable_iff.1 (h.listable front hfront)).2⟩
    · simpa only [Workspace.standing?_faultless] using h.directory
    · simpa only [Workspace.standing?_faultless, Workspace.isFile_faultless] using h.file
  · rintro ⟨h, hseen⟩
    rw [Workspace.hides_normalize (h.notMem_dots hw.faultless)] at hseen
    refine ⟨fun front hfront => Workspace.listable_iff.2 ⟨h.listable front hfront, hseen front hfront⟩,
      ?_, h.entered, h.accepted, ?_⟩
    · simpa only [Workspace.standing?_faultless] using h.directory
    · simpa only [Workspace.standing?_faultless, Workspace.isFile_faultless] using h.file

/-- **The files of a scan** are those of the scan without faults, less those that are hidden. -/
theorem exists_files_faultless (hw : w.Sound) (s : Scan) {b : Bool} (hroot : w.isDirectory root = .ok b) :
    ∃ all found m n, Polls (s.files w.faultless root) (.ok all) m ∧ Polls (s.files w root) (.ok found) n ∧
      (∀ q ∈ all, w.Below root q) ∧
      Path.sort (found.map w.normalize) =
        (Path.sort (all.map w.normalize)).filter fun q => !w.hides root q := by
  have hroot' : w.faultless.isDirectory root = .ok b := (w.isDirectory_faultless root).trans hroot
  obtain ⟨all, m, hall, hallSorted, hallMem⟩ := exists_ascending_files hw.faultless s hroot'
  obtain ⟨found, n, hfound, hfoundSorted, hfoundMem⟩ := exists_ascending_files hw s hroot
  have hallBelow : ∀ q ∈ all, w.faultless.Below root q := fun q hq => below_of_finds ((hallMem q).1 hq).2
  obtain ⟨hallOrder, hallSort⟩ := ascending_normalize w hallSorted
    fun q hq => (hallBelow q hq).within hw.faultless.toWellFormed
  obtain ⟨hfoundOrder, hfoundSort⟩ := ascending_normalize w hfoundSorted
    fun q hq => (below_of_finds ((hfoundMem q).1 hq).2).within hw.toWellFormed
  refine ⟨all, found, m, n, hall, hfound, hallBelow, ?_⟩
  rw [hallSort, hfoundSort]
  have hmem : ∀ q, q ∈ found ↔ q ∈ all ∧ w.hides root (w.normalize q) = false := by
    intro q
    rw [hfoundMem, hallMem, Accepted, Accepted, w.isDirectory_faultless, finds_iff_reports hw,
      finds_iff_reports hw.faultless, and_assoc]
    refine and_congr_right fun _ => ?_
    constructor
    · rintro ⟨dirs, name, rfl, hreports⟩
      obtain ⟨hreports', hseen⟩ := (reports_iff_faultless hw).1 hreports
      exact ⟨⟨dirs, name, rfl, hreports'⟩, hseen⟩
    · rintro ⟨⟨dirs, name, rfl, hreports⟩, hseen⟩
      exact ⟨dirs, name, rfl, (reports_iff_faultless hw).2 ⟨hreports, hseen⟩⟩
  refine hfoundOrder.ext (hallOrder.filter _) fun p => ?_
  simp only [List.mem_filter, List.mem_map, hmem, Bool.not_eq_true']
  constructor
  · rintro ⟨q, ⟨hq, hseen⟩, rfl⟩
    exact ⟨⟨q, hq, rfl⟩, hseen⟩
  · rintro ⟨⟨q, hq, rfl⟩, hseen⟩
    exact ⟨q, ⟨hq, hseen⟩, rfl⟩

end Scan

/-! ## Which calls are left -/

/-- Taking away keys and taking away duplicates can be done in any order. -/
theorem distinctBy_filter {α β : Type} [BEq β] [LawfulBEq β] {key : α → β} {keeps : α → Bool} {xs : List α}
    (h : ∀ a ∈ xs, ∀ b ∈ xs, key a = key b → keeps a = keeps b) :
    distinctBy key (xs.filter keeps) = (distinctBy key xs).filter keeps := by
  induction xs with
  | nil => rfl
  | cons x xs ih =>
      have hrest := ih fun a ha b hb => h a (List.mem_cons_of_mem _ ha) b (List.mem_cons_of_mem _ hb)
      rw [distinctBy]
      cases hx : keeps x with
      | true =>
          rw [List.filter_cons_of_pos hx, List.filter_cons_of_pos hx, distinctBy, hrest,
            List.filter_filter, List.filter_filter]
          simp only [Bool.and_comm]
      | false =>
          rw [List.filter_cons_of_neg (by simp [hx]), List.filter_cons_of_neg (by simp [hx]), hrest,
            List.filter_filter]
          -- what goes because of its key would go anyway
          refine List.filter_congr fun y hy => ?_
          cases hy' : keeps y with
          | false => rfl
          | true =>
              have hne : key y ≠ key x := fun heq => by
                have := h y (List.mem_cons_of_mem _ ((distinctBy_sublist xs).mem hy)) x
                  List.mem_cons_self heq
                simp [hx, hy'] at this
              simpa using hne

namespace CallSite

variable {w : Workspace} {settings : Settings} {forms : List String} {key : String}

theorem file_of_mem_sitesIn {file : Path} {c : CallSite} (h : c ∈ sitesIn w forms key file) :
    c.file = file := by
  rw [sitesIn] at h
  cases hsource : w.source? file with
  | none => simp [hsource] at h
  | some content =>
      rw [hsource, Option.elim_some] at h
      split at h
      · simp at h
      · obtain ⟨site, -, rfl⟩ := List.mem_map.1 h
        rfl

/-- In a file that refuses to be read nothing is found, and the faults of others do nothing to it. -/
theorem sitesIn_faultless {file : Path} (habsolute : file.isAbsolute = true) :
    sitesIn w forms key file =
      if w.tree.unreadable file.parts then [] else sitesIn w.faultless forms key file := by
  have hjoin : w.cwd.join file = file := Path.join_of_isAbsolute habsolute
  have hsource : w.source? file =
      if w.tree.unreadable file.parts then none else w.faultless.source? file := by
    have hopen : w.faultless.tree.open? file = w.tree.open? file := by
      rw [FileTree.open?, FileTree.open?, FileTree.reach_congr w.entryAt?_faultless]
    have hjoin' : w.faultless.cwd.join file = file := hjoin
    rw [Workspace.source?, Workspace.source?, Workspace.asking, Workspace.asking, hjoin, hjoin',
      FileTree.readSource, FileTree.readSource, hopen]
    split
    · rfl
    · rfl
  rw [sitesIn, sitesIn, hsource]
  split
  · rfl
  · rfl

theorem flatMap_sitesIn_faultless {files : List Path} (habsolute : ∀ q ∈ files, q.isAbsolute = true)
    (seen : Path → Bool) :
    (files.filter seen).flatMap (sitesIn w forms key) =
      (files.flatMap (sitesIn w.faultless forms key)).filter fun c =>
        !w.tree.unreadable c.file.parts && seen c.file := by
  induction files with
  | nil => rfl
  | cons file files ih =>
      rw [List.forall_mem_cons] at habsolute
      have hfile : (sitesIn w.faultless forms key file).filter (fun c =>
          !w.tree.unreadable c.file.parts && seen c.file) =
          if seen file then sitesIn w forms key file else [] := by
        have hsame : ∀ c ∈ sitesIn w.faultless forms key file,
            (!w.tree.unreadable c.file.parts && seen c.file) =
              (!w.tree.unreadable file.parts && seen file) :=
          fun c hc => by rw [file_of_mem_sitesIn hc]
        rw [List.filter_congr hsame, sitesIn_faultless (w := w) habsolute.1]
        cases w.tree.unreadable file.parts <;> cases seen file <;> simp
      rw [List.flatMap_cons, List.filter_append, ← ih habsolute.2, hfile, List.filter_cons]
      cases seen file <;> simp

/-- **Faults are isolated.**  Let the root be a path that can be asked about.  The scan of a workspace
with faults succeeds, and it finds what the scan of the workspace without them finds, in the same
order, less the calls in files that refuse to be read and in files that are hidden by a directory, from
the root on, that refuses to be listed.  A pool of any number of workers comes to the same. -/
theorem faults_isolated (hw : w.Sound) (settings : Settings) (key root : String) {b : Bool}
    (hroot : w.isDirectory (.ofString root) = .ok b) {workers : Nat} (hworkers : 1 ≤ workers) :
    ∃ sites,
      ((below w.faultless settings (.ofString root) (some key)).outcome none).1 = .ok sites ∧
      ((below w settings (.ofString root) (some key)).outcome none).1 = .ok (sites.filter fun c =>
        !w.tree.unreadable c.file.parts && !w.hides (.ofString root) c.file) ∧
      (belowPooled w settings key workers (.ofString root)).Refines
        (below w settings (.ofString root) (some key)) := by
  obtain ⟨all, found, m, n, hall, hfound, hbelow, hfiles⟩ :=
    Scan.exists_files_faultless hw (Scan.ofSettings settings) hroot
  have hnormal : (w.normalize (.ofString root)).Normal :=
    hw.toWellFormed.normal (Path.proper_ofString root)
  -- the files in absolute form lie below the root in absolute form
  have hfile : ∀ q ∈ Path.sort (all.map w.normalize), w.Below (w.normalize (.ofString root)) q := by
    intro q hq
    obtain ⟨p, hp, rfl⟩ := List.mem_map.1 (List.mem_mergeSort.1 hq)
    exact (hbelow p hp).normalize hw.toWellFormed
  have hcalls : ∀ c ∈ (Path.sort (all.map w.normalize)).flatMap
      (sitesIn w.faultless settings.callForms key), c.file ∈ Path.sort (all.map w.normalize) := by
    intro c hc
    obtain ⟨file, hfile, hc⟩ := List.mem_flatMap.1 hc
    rwa [file_of_mem_sitesIn hc]
  refine ⟨_, (polls_below hall key).gives.outcome, ?_, belowPooled_refines hw settings key _ hworkers⟩
  rw [(polls_below hfound key).gives.outcome, hfiles,
    flatMap_sitesIn_faultless fun q hq => ((hfile q hq).normal hw.toWellFormed hnormal).absolute,
    distinctBy_filter]
  · rfl
  · intro a ha c hc hkey
    have hsame : a.file = c.file := file_eq_of_toString hw.toWellFormed hnormal hfile (hcalls a ha)
      (hcalls c hc) (congrArg Prod.fst hkey)
    rw [hsame]

/-! ## A directory of callers -/

/-- What stands in a file with a call. -/
def caller : ServiceKeys.Entry := .file ("container.resolve('mail')".toList.map fun c => c.toNat.toUInt8)

/-- A directory with a file that calls, and what else there is, with faults. -/
def callingWorkspace (more : List (List String × ServiceKeys.Entry))
    (unlistable unreadable : List String → Bool) : Workspace where
  tree.entries := [(["p"], .directory), (["p", "app"], .directory), (["p", "app", "a.ts"], caller)] ++ more
  tree.unlistable := unlistable
  tree.unreadable := unreadable
  cwd := ⟨.single, []⟩

/-- A file that can be read, one that refuses, and one below a directory that refuses. -/
def faultyWorkspace : Workspace :=
  callingWorkspace [(["p", "app", "b.ts"], caller), (["p", "app", "lib"], .directory),
    (["p", "app", "lib", "c.ts"], caller)] (· == ["p", "app", "lib"]) (· == ["p", "app", "b.ts"])

theorem faults_isolated_calling :
    faultyWorkspace.Sound ∧ faultyWorkspace.isDirectory (.ofString "/p/app") = .ok true ∧ 1 ≤ 2 ∧
    faultyWorkspace.hides (.ofString "/p/app") ⟨.single, ["p", "app", "a.ts"]⟩ = false ∧
    faultyWorkspace.hides (.ofString "/p/app") ⟨.single, ["p", "app", "lib", "c.ts"]⟩ = true ∧
    ∃ sites,
      ((below faultyWorkspace.faultless .default (.ofString "/p/app") (some "mail")).outcome none).1 =
        .ok sites ∧
      ((below faultyWorkspace .default (.ofString "/p/app") (some "mail")).outcome none).1 =
        .ok (sites.filter fun c => !faultyWorkspace.tree.unreadable c.file.parts &&
          !faultyWorkspace.hides (.ofString "/p/app") c.file) ∧
      (belowPooled faultyWorkspace .default "mail" 2 (.ofString "/p/app")).Refines
        (below faultyWorkspace .default (.ofString "/p/app") (some "mail")) := by
  have hsound : faultyWorkspace.Sound := Workspace.sound_of_names rfl (by decide) (by decide)
  exact ⟨hsound, rfl, by decide, by decide, by decide,
    faults_isolated hsound .default "mail" "/p/app" rfl (by decide)⟩

/-- **A directory above the root hides nothing**: it cannot be listed, every file that is found lies
below it, and still there are calls. -/
theorem below_unlistable_above :
    (callingWorkspace [] (· == ["p"]) fun _ => false).Sound ∧
    ∃ sites, ((below (callingWorkspace [] (· == ["p"]) fun _ => false) .default (.ofString "/p/app")
        (some "mail")).outcome none).1 = .ok sites ∧
      sites ≠ [] ∧ ∀ c ∈ sites, ∃ dir, dir <+: c.file.parts ∧
        (callingWorkspace [] (· == ["p"]) fun _ => false).tree.unlistable dir = true := by
  have hfiles : ((below (callingWorkspace [] (· == ["p"]) fun _ => false) .default (.ofString "/p/app")
      (some "mail")).outcome none).1.toOption.map (·.map (·.file.parts)) =
        some [["p", "app", "a.ts"]] := by decide +kernel
  obtain ⟨sites, hsites, hparts⟩ := Option.map_eq_some_iff.1 hfiles
  refine ⟨Workspace.sound_of_names rfl (by decide) (by decide), sites, eq_ok_of_toOption hsites, ?_, ?_⟩
  · rintro rfl
    simp at hparts
  · intro c hc
    have hfile : c.file.parts = ["p", "app", "a.ts"] := by
      simpa [hparts] using List.mem_map_of_mem (f := (·.file.parts)) hc
    exact ⟨["p"], by simp [hfile], rfl⟩

end CallSite

end ServiceKeys
