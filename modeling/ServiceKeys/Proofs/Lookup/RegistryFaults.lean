import ServiceKeys.Proofs.Glob.Expandable
import ServiceKeys.Proofs.Lookup.Registry

/-!
# When registration files cannot be found

Globs that have passed their check are relative, but not every relative glob can be expanded: two stars
may stand next to something else in a component, and a glob may have no component at all.  Such a glob is
noticed when registration files are looked for, whatever the tree; and but for names that are too long for
the system nothing else can go wrong then (`Project.registryFiles_faults_exact`).
-/

namespace ServiceKeys

open Lookup

variable {w : Workspace} {N : String → Prop}

theorem Glob.isAbsolute_of_matches {t : FileTree} {directoriesOnly : Bool} {cs : List Component} {p q : Path}
    (habsolute : p.isAbsolute = true) (h : Matches t directoriesOnly cs p q) : q.isAbsolute = true := by
  induction h with
  | here => exact habsolute
  | name _ _ ih => exact ih habsolute
  | wild _ _ _ _ ih => exact ih habsolute
  | anyDepth henters _ ih => exact ih (isAbsolute_of_enters henters habsolute)

namespace Project

variable {root : Path} {glob : String} {globs : List String}

/-- An access has failed for a name that is too long, and some name of a kind is. -/
def OverlongAccess (N : String → Prop) (f : Failure) : Prop := ∃ e : AccessError, f = .access e ∧ e.Overlong N

theorem failsOnly_access {α : Type} {r : Except AccessError α} (h : FailsOnly r (·.Overlong N)) :
    FailsOnly (r.mapError Failure.access) (OverlongAccess N) :=
  .mapError (h.mono fun e he => ⟨e, rfl, he⟩)

/-- The matches of a glob that can be read can be found, but for names that are too long. -/
theorem failsOnly_matched (hw : w.Sound) (ht : w.tree.NamedBy N) (hroot : root.NamedBy N)
    (habsolute : root.isAbsolute = true) {g : Glob.Pattern} (hparse : Glob.parse glob = .ok g)
    (hg : Glob.NamedBy g.components N) : FailsOnly (matched w root glob) (OverlongAccess N) := by
  rw [matched, hparse]
  exact .map (failsOnly_access (Glob.failsOnly_expand hw ht hg hroot habsolute))

/-- What a glob matches has names of the kind that the directory and the glob have. -/
theorem namedBy_of_matched (hw : w.Sound) (ht : w.tree.NamedBy N) (hroot : root.NamedBy N)
    (habsolute : root.isAbsolute = true) {g : Glob.Pattern} (hparse : Glob.parse glob = .ok g)
    (hg : Glob.NamedBy g.components N) {ps : List Path} (h : matched w root glob = .ok ps) :
    ∀ p ∈ ps, p.NamedBy N ∧ p.isAbsolute = true := by
  intro p hp
  obtain ⟨g', found, hparse', hexpand, rfl⟩ := matched_eq_ok_iff.1 h
  obtain rfl := Except.ok.inj (hparse.symm.trans hparse')
  have hmatches := ((Glob.mem_expand_iff hw habsolute hexpand).1 (List.mem_mergeSort.1 hp)).2
  exact ⟨Glob.namedBy_of_matches ht hg hroot hmatches, Glob.isAbsolute_of_matches habsolute hmatches⟩

theorem failsOnly_withFiles (ht : w.tree.NamedBy N) {files ps : List Path}
    (hps : ∀ p ∈ ps, p.NamedBy N ∧ p.isAbsolute = true) :
    FailsOnly (withFiles w files ps) (OverlongAccess N) := by
  refine .foldlM fun files p hp => ?_
  split
  · exact .ok _
  · exact .map (failsOnly_access (w.failsOnly_isFile ht (hps p hp).1 (hps p hp).2))

/-! ## The faults of globs -/

/-- The names that play a part when the files of globs are looked for: those in the tree, the components of
what its links lead to, and those of the directory and of the globs. -/
inductive Named (w : Workspace) (root : Path) (globs : List String) : String → Prop
  | tree {name : String} (h : w.tree.HasName name) : Named w root globs name
  | link {x : List String × ServiceKeys.Entry} {step : String} (h : x ∈ w.tree.entries)
      (hstep : step ∈ x.2.steps) : Named w root globs step
  | root {part : String} (h : part ∈ (w.normalize root).parts) : Named w root globs part
  | glob {glob part : String} (hglob : glob ∈ globs) (h : part ∈ Path.components glob.toList) :
      Named w root globs part

/-- Why the files of globs are not found: a glob cannot be expanded, and it is the first one of that kind,
or a name is too long. -/
inductive Faulty (w : Workspace) (root : Path) (globs : List String) : Failure → Prop
  | glob {front back : List String} {glob : String} {fault : Glob.Fault}
      (hglobs : globs = front ++ glob :: back) (hfront : ∀ g ∈ front, Glob.Expandable g)
      (hglob : ¬ Glob.Expandable glob) (hfault : Glob.parse glob = .error fault) :
      Faulty w root globs (.glob glob fault)
  | access {e : AccessError} (h : e.Overlong (Named w root globs)) : Faulty w root globs (.access e)

theorem faulty_of_access {f : Failure} (h : OverlongAccess (Named w root globs) f) :
    Faulty w root globs f := by
  obtain ⟨e, rfl, he⟩ := h
  exact .access he

/-- **Looking for the files of relative globs has no other faults.** -/
theorem failsOnly_locate (hw : w.Sound) (root : Path)
    (hrelative : ∀ glob ∈ globs, Path.isAnyAbsolute glob.toList = false) :
    FailsOnly ((locate w root globs).outcome none).1 (Faulty w root globs) := by
  have ht : w.tree.NamedBy (Named w root globs) := ⟨fun _ => .tree, fun _ h _ => .link h⟩
  have hroot : (w.normalize root).NamedBy (Named w root globs) := fun _ => .root
  have habsolute : (w.normalize root).isAbsolute = true := Path.isAbsolute_normalize hw.absolute root
  rw [(gives_locate w root globs).outcome]
  -- the globs in front have been expanded when a glob's turn comes
  suffices hall : ∀ rest front files, globs = front ++ rest → (∀ g ∈ front, Glob.Expandable g) →
      FailsOnly (rest.foldlM (fun files glob => matched w (w.normalize root) glob >>= fun found =>
        withFiles w files (found.map w.normalize)) files) (Faulty w root globs) from
    hall globs [] [] rfl (by simp)
  intro rest
  induction rest with
  | nil => exact fun _ _ _ _ => .ok _
  | cons glob rest ih =>
      intro front files hglobs hfront
      have hglob : glob ∈ globs := hglobs ▸ List.mem_append_right _ List.mem_cons_self
      have hiff := Glob.exists_parse_iff (hrelative glob hglob)
      rw [List.foldlM_cons]
      cases hparse : Glob.parse glob with
      | error fault =>
          have hmatched : matched w (w.normalize root) glob = .error (.glob glob fault) := by
            rw [matched, hparse]
          rw [hmatched]
          refine .error (.glob hglobs hfront (fun h => ?_) hparse)
          obtain ⟨g, hg⟩ := hiff.2 h
          simp [hparse] at hg
      | ok g =>
          have hg : Glob.NamedBy g.components (Named w root globs) :=
            Glob.namedBy_of_parse hparse fun _ => .glob hglob
          refine FailsOnly.bind (.bind ?_ fun found hfound => ?_) fun files' _ => ?_
          · exact (failsOnly_matched hw ht hroot habsolute hparse hg).mono fun _ => faulty_of_access
          · have hnamed := namedBy_of_matched hw ht hroot habsolute hparse hg hfound
            refine (failsOnly_withFiles ht fun p hp => ?_).mono fun _ => faulty_of_access
            obtain ⟨q, hq, rfl⟩ := List.mem_map.1 hp
            exact ⟨(hnamed q hq).1.normalize (hnamed q hq).2, Path.isAbsolute_normalize hw.absolute q⟩
          · exact ih (front ++ [glob]) files' (by simp [hglobs])
              (List.forall_mem_append.2 ⟨hfront, List.forall_mem_singleton.2 (hiff.1 ⟨g, hparse⟩)⟩)

/-- **The registration files of settings that could be built are found exactly if every glob can be
expanded**, as far as no name is too long for the system.  A glob that cannot be expanded is in the way in
every tree; and when the files are not found, the first such glob is the reason, or a name that is too
long. -/
theorem registryFiles_faults_exact (hw : w.Sound) (root : Path) {d : Draft} {s : Settings}
    (hs : Settings.ofDraft d = .ok s) :
    ((∃ files, ((openAt w root s).registryFiles.outcome none).1 = .ok files) →
      ∀ glob ∈ s.registryGlobs, Glob.Expandable glob) ∧
    ((∀ name, Named w root s.registryGlobs name → name.utf8ByteSize ≤ FileTree.nameLimit) →
      (∀ glob ∈ s.registryGlobs, Glob.Expandable glob) →
      ∃ files, ((openAt w root s).registryFiles.outcome none).1 = .ok files) ∧
    ∀ f, ((openAt w root s).registryFiles.outcome none).1 = .error f → Faulty w root s.registryGlobs f := by
  have hrelative : ∀ glob ∈ s.registryGlobs, Path.isAnyAbsolute glob.toList = false := fun glob hglob =>
    (Settings.checkRegistryGlob_eq_ok ((Settings.ofDraft_eq_ok_iff.1 hs).registry.passes glob hglob)).2.1
  have hlocate : (openAt w root s).registryFiles = locate w root s.registryGlobs := by
    have hroot : w.normalize (w.normalize root) = w.normalize root := Path.normalize_normalize hw.absolute root
    simp only [registryFiles, openAt, locate, hroot]
  have hfails := failsOnly_locate hw root hrelative
  rw [hlocate]
  refine ⟨?_, fun hshort hexpandable => ?_, hfails⟩
  · rintro ⟨files, hfiles⟩ glob hglob
    obtain ⟨ps, hmatched, -⟩ := (locate_eq_ok_iff.1 hfiles).1 glob hglob
    obtain ⟨g, -, hparse, -⟩ := matched_eq_ok_iff.1 hmatched
    exact (Glob.exists_parse_iff (hrelative glob hglob)).1 ⟨g, hparse⟩
  · cases hr : ((locate w root s.registryGlobs).outcome none).1 with
    | ok files => exact ⟨files, rfl⟩
    | error f =>
        cases hfails f hr with
        | glob hglobs _ hglob _ =>
            exact absurd (hexpandable _ (hglobs ▸ List.mem_append_right _ List.mem_cons_self)) hglob
        | access h =>
            obtain ⟨-, name, hname, hlong⟩ := h
            exact absurd (hshort name hname) (Nat.not_le.2 hlong)

/-- Settings with one glob and no search directory. -/
def globSettings (glob : String) : Settings :=
  { Settings.default with registryGlobs := [glob], includeGlobs := [], searchRoot := "" }

theorem ofDraft_globSettings {glob : String} (h : Settings.checkRegistryGlob (.text glob) = .ok glob) :
    Settings.ofDraft { registryGlobs := some (.text glob), includeGlobs := some (.list [])
                       searchRoot := some (.text "") } = .ok (globSettings glob) :=
  Settings.ofDraft_of_texts h (by decide) (by decide)

/-- No name is too long when the files of this glob are looked for in the directory with links. -/
theorem linked_named {name : String} (h : Named linkedWorkspace Scan.linkedRoot ["**/*.ts"] name) :
    name.utf8ByteSize ≤ FileTree.nameLimit := by
  have hentries : ∀ x ∈ linkedWorkspace.tree.entries, ∀ n ∈ x.1, n.utf8ByteSize ≤ FileTree.nameLimit := by
    decide
  have hsteps : ∀ x ∈ linkedWorkspace.tree.entries, ∀ n ∈ x.2.steps, n.utf8ByteSize ≤ FileTree.nameLimit := by
    decide
  have hroot : ∀ n ∈ (linkedWorkspace.normalize Scan.linkedRoot).parts, n.utf8ByteSize ≤ FileTree.nameLimit := by
    decide
  have hglobs : ∀ glob ∈ ["**/*.ts"], ∀ n ∈ Path.components glob.toList,
      n.utf8ByteSize ≤ FileTree.nameLimit := by decide
  cases h with
  | tree h =>
      obtain ⟨x, hx, hname⟩ := h
      exact hentries x hx name hname
  | link h hstep => exact hsteps _ h name hstep
  | root h => exact hroot name h
  | glob hglob h => exact hglobs _ hglob name h

theorem registryFiles_faults_exact_linked :
    linkedWorkspace.Sound ∧
    Settings.ofDraft { registryGlobs := some (.text "**/*.ts"), includeGlobs := some (.list [])
                       searchRoot := some (.text "") } = .ok (globSettings "**/*.ts") ∧
    ∃ files, ((openAt linkedWorkspace Scan.linkedRoot (globSettings "**/*.ts")).registryFiles.outcome
      none).1 = .ok files := by
  have hpass : Settings.checkRegistryGlob (.text "**/*.ts") = .ok "**/*.ts" := rfl
  have hs := ofDraft_globSettings hpass
  obtain ⟨-, hfound, -⟩ := registryFiles_faults_exact linkedWorkspace_sound Scan.linkedRoot hs
  refine ⟨linkedWorkspace_sound, hs, hfound (fun _ => linked_named) ?_⟩
  exact List.forall_mem_singleton.2 ((Glob.exists_parse_iff (by decide)).1 ⟨_, rfl⟩)

/-- **A glob that passes its check is refused by a lookup.** -/
theorem registryFiles_starsInside :
    Settings.ofDraft { registryGlobs := some (.text "src/**.ts"), includeGlobs := some (.list [])
                       searchRoot := some (.text "") } = .ok (globSettings "src/**.ts") ∧
    ((openAt linkedWorkspace Scan.linkedRoot (globSettings "src/**.ts")).registryFiles.outcome none).1 =
      .error (.glob "src/**.ts" .starsInside) :=
  ⟨ofDraft_globSettings rfl, (gives_locate linkedWorkspace Scan.linkedRoot ["src/**.ts"]).outcome⟩

end Project

end ServiceKeys
