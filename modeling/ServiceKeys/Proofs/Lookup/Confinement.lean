import ServiceKeys.Proofs.Glob.Matches
import ServiceKeys.Proofs.Lookup.Files
import ServiceKeys.Proofs.Lookup.References

/-!
# Lookups stay inside the project

Settings name places by texts: globs of registration files and a search directory.  The checks cut a
text at either separator, while a path is cut at slashes only; so a text that passes them gives a path
that is relative and has no double dots (`Settings.dotdot_notMem_components`).  What a glob matches and
what a scan finds goes on from the project's directory by such components and by names of the tree,
and names of a tree do not climb.

That a lookup stays inside is a matter of the results that it has, whatever budget it has and whatever
else it does; `Lookup.Ensures` says so of a lookup, one rule for each way of building one.  Main
statement: `Project.lookups_confined`.
-/

namespace ServiceKeys

open Lookup

/-! ## Texts that pass the checks -/

/-- A text that does not climb is a path without double dots: the check cuts at slashes, and at more. -/
theorem Settings.dotdot_notMem_components {cs : List Char} (h : climbs cs = false) :
    ".." ∉ Path.components cs := by
  rw [Path.dotdot_mem_components_iff]
  intro hmem
  have hloose : ['.', '.'] ∈ looseComponents cs :=
    Text.mem_splitBy_of_imp (by simp +contextual) (by decide) hmem
  simp [climbs, hloose] at h

theorem Path.isAbsolute_ofString {s : String} (h : isAnyAbsolute s.toList = false) :
    (ofString s).isAbsolute = false := by
  rw [isAnyAbsolute, Bool.or_eq_false_iff] at h
  have hhead : s.toList.head? ≠ some '/' := by simpa using h.1
  rw [ofString_of_head? hhead]
  rfl

/-! ## What a lookup ensures -/

namespace Lookup

variable {α β : Type} {P P' : α → Prop} {Q : β → Prop}

/-- What holds of every result that a lookup has, from whatever trace it starts. -/
def Ensures (l : Lookup α) (P : α → Prop) : Prop :=
  ∀ t a t', (ExceptT.run l).run t = (.ok a, t') → P a

theorem Ensures.outcome {l : Lookup α} (h : Ensures l P) {budget : Option Nat} {a : α}
    (ha : (l.outcome budget).1 = .ok a) : P a := h { budget } a _ (Prod.ext ha rfl)

theorem Ensures.mono {l : Lookup α} (h : Ensures l P) (himp : ∀ a, P a → P' a) : Ensures l P' :=
  fun t a t' hrun => himp a (h t a t' hrun)

theorem ensures_pure {a : α} (h : P a) : Ensures (pure a) P := by
  rintro t b t' hrun
  obtain rfl : a = b := Except.ok.inj (congrArg Prod.fst hrun)
  exact h

theorem ensures_throw (e : Failure) : Ensures (throw e : Lookup α) P := by
  rintro t b t' hrun
  exact absurd (congrArg Prod.fst hrun) (by simp)

/-- Nothing is known of a lookup whose result does not matter. -/
theorem ensures_true (l : Lookup α) : Ensures l fun _ => True := fun _ _ _ _ => trivial

theorem Ensures.bind {l : Lookup α} {f : α → Lookup β} (h : Ensures l P)
    (hf : ∀ a, P a → Ensures (f a) Q) : Ensures (l >>= f) Q := by
  intro t b t' hrun
  rw [run_bind] at hrun
  rcases hl : (ExceptT.run l).run t with ⟨_ | a, t₁⟩
  · rw [hl] at hrun
    exact absurd (congrArg Prod.fst hrun) (by simp)
  · rw [hl] at hrun
    exact hf a (h t a t₁ hl) t₁ b t' hrun

/-- A lookup behind one whose result does not matter. -/
theorem ensures_after {l : Lookup α} {f : α → Lookup β} (hf : ∀ a, Ensures (f a) Q) :
    Ensures (l >>= f) Q := (ensures_true l).bind fun a _ => hf a

theorem ensures_accessed {r : Except AccessError α} (h : ∀ a, r = .ok a → P a) :
    Ensures (accessed r) P := by
  cases r with
  | ok a => exact ensures_pure (h a rfl)
  | error e => exact ensures_throw _

theorem ensures_mapM {f : α → Lookup β} {xs : List α} (h : ∀ x ∈ xs, Ensures (f x) Q) :
    Ensures (xs.mapM f) fun ys => ∀ y ∈ ys, Q y := by
  induction xs with
  | nil => exact ensures_pure (by simp)
  | cons x xs ih =>
      rw [List.mapM_cons]
      refine (h x List.mem_cons_self).bind fun y hy => ?_
      refine (ih fun z hz => h z (List.mem_cons_of_mem _ hz)).bind fun ys hys => ?_
      exact ensures_pure (List.forall_mem_cons.2 ⟨hy, hys⟩)

theorem ensures_foldlM {f : β → α → Lookup β} {xs : List α} {b : β} (hb : Q b)
    (h : ∀ b, Q b → ∀ x ∈ xs, Ensures (f b x) Q) : Ensures (xs.foldlM f b) Q := by
  induction xs generalizing b with
  | nil => exact ensures_pure hb
  | cons x xs ih =>
      rw [List.foldlM_cons]
      refine (h b hb x List.mem_cons_self).bind fun b' hb' => ih hb' ?_
      exact fun b hb z hz => h b hb z (List.mem_cons_of_mem _ hz)

end Lookup

/-! ## What a glob matches -/

namespace Glob

variable {t : FileTree}

/-- A component that does not lead out of a directory. -/
def Component.Settled : Component → Prop
  | .name n => Path.ProperName n ∧ n ≠ ".."
  | .wild _ | .anyDepth => True

theorem settled_of_component {s : String} {c : Component} (h : component s = .ok c)
    (hs : Path.ProperName s ∧ s ≠ "..") : c.Settled := by
  unfold component at h
  dsimp only at h
  split at h
  · obtain rfl := Except.ok.inj h
    trivial
  · split at h
    · simp at h
    · split at h
      · obtain rfl := Except.ok.inj h
        trivial
      · obtain rfl := Except.ok.inj h
        exact hs

/-- A glob that is read has components, and its own are what they are read as. -/
theorem mapM_component_of_parse {glob : String} {g : Pattern} (h : parse glob = .ok g) :
    Path.components glob.toList ≠ [] ∧ (Path.components glob.toList).mapM component = .ok g.components := by
  have hthrow : ∀ (fault : Fault) (f : PUnit → Except Fault Pattern), (throw fault >>= f) ≠ .ok g :=
    nofun
  rw [parse] at h
  split at h
  · exact absurd h (hthrow _ _)
  · dsimp only at h
    split at h
    · exact absurd h (hthrow _ _)
    · split at h
      · exact absurd h (hthrow _ _)
      · rename_i hparts
        obtain ⟨cs, hcs, h⟩ := bind_eq_ok_iff.1 h
        obtain rfl := Except.ok.inj h
        exact ⟨by simpa [Path.ofString] using hparts, hcs⟩

/-- The components of a glob without double dots do not climb. -/
theorem settled_of_parse {glob : String} {g : Pattern} (h : parse glob = .ok g)
    (hdots : ".." ∉ Path.components glob.toList) : ∀ c ∈ g.components, c.Settled := by
  intro c hc
  obtain ⟨s, hs, hcomponent⟩ := (mem_of_mapM_eq_ok (mapM_component_of_parse h).2).1 hc
  refine settled_of_component hcomponent ⟨Path.proper_ofString glob s hs, ?_⟩
  rintro rfl
  exact hdots hs

variable (ht : ∀ name, t.HasName name → Path.ProperName name ∧ name ≠ "..")
include ht

theorem properlyWithin_directories {depth : Nat} {p : Path} {ps : List Path}
    (h : directories t depth p = .ok ps) : ∀ q ∈ ps, p.ProperlyWithin q := by
  induction depth generalizing p ps with
  | zero =>
      obtain rfl := Except.ok.inj h
      exact List.forall_mem_singleton.2 (.refl p)
  | succ depth ih =>
      simp only [directories, bind_eq_ok_iff] at h
      obtain ⟨names, hnames, pss, hpss, h⟩ := h
      obtain rfl := Except.ok.inj h
      refine List.forall_mem_cons.2 ⟨.refl p, fun q hq => ?_⟩
      obtain ⟨qs, hqs, hq⟩ := List.mem_flatten.1 hq
      obtain ⟨sub, hsub, hdirs⟩ := (mem_of_mapM_eq_ok hpss).1 hqs
      obtain ⟨name, hholds, rfl⟩ := (mem_filterMap_listed_iff hnames).1 hsub
      exact (Path.ProperlyWithin.child (ht _ (hasName_of_holds hholds)) p).trans (ih hdirs q hq)

/-- **Every match lies in the directory.** -/
theorem properlyWithin_select {directoriesOnly : Bool} {cs : List Component} (hcs : ∀ c ∈ cs, c.Settled)
    {p : Path} {ps : List Path} (h : select t directoriesOnly cs p = .ok ps) :
    ∀ q ∈ ps, p.ProperlyWithin q := by
  induction cs generalizing p ps with
  | nil =>
      obtain rfl := Except.ok.inj h
      exact List.forall_mem_singleton.2 (.refl p)
  | cons c cs ih =>
      rw [List.forall_mem_cons] at hcs
      cases c with
      | name n =>
          simp only [select, bind_eq_ok_iff] at h
          obtain ⟨goes, -, h⟩ := h
          split at h
          · exact fun q hq => (Path.ProperlyWithin.child hcs.1 p).trans (ih hcs.2 h q hq)
          · obtain rfl := Except.ok.inj h
            simp
      | wild pieces =>
          simp only [select_wild, bind_eq_ok_iff] at h
          obtain ⟨names, hnames, pss, hpss, h⟩ := h
          obtain rfl := Except.ok.inj h
          intro q hq
          obtain ⟨qs, hqs, hq⟩ := List.mem_flatten.1 hq
          obtain ⟨⟨name, e⟩, hname, hentry⟩ := (mem_of_mapM_eq_ok hpss).1 hqs
          have hname' : t.HasName name := hasName_of_holds ((mem_listed_iff hnames).1 hname)
          exact (Path.ProperlyWithin.child (ht _ hname') p).trans
            (ih hcs.2 (select_of_mem_selectEntry hentry hq) q hq)
      | anyDepth =>
          simp only [select, bind_eq_ok_iff] at h
          obtain ⟨dirs, hdirs, pss, hpss, h⟩ := h
          obtain rfl := Except.ok.inj h
          intro q hq
          obtain ⟨qs, hqs, hq⟩ := List.mem_flatten.1 (mem_distinct.1 hq)
          obtain ⟨dir, hdir, hnext⟩ := (mem_of_mapM_eq_ok hpss).1 hqs
          exact (properlyWithin_directories ht hdirs dir hdir).trans (ih hcs.2 hnext q hq)

theorem properlyWithin_expand {g : Pattern} (hg : ∀ c ∈ g.components, c.Settled) {dir : Path}
    {ps : List Path} (h : expand t dir g = .ok ps) : ∀ q ∈ ps, dir.ProperlyWithin q := by
  simp only [expand, bind_eq_ok_iff] at h
  obtain ⟨isDirectory, -, h⟩ := h
  split at h
  · exact properlyWithin_select ht hg h
  · obtain rfl := Except.ok.inj h
    simp

end Glob

/-! ## The registration files -/

namespace Project

variable {w : Workspace} {root : Path}

theorem ensures_globMatches (hw : w.WellFormed) {glob : String}
    (hclimbs : Settings.climbs glob.toList = false) :
    Ensures (globMatches w root glob) fun ps => ∀ q ∈ ps, root.ProperlyWithin q := by
  rw [globMatches]
  cases hparse : Glob.parse glob with
  | error fault => exact ensures_throw _
  | ok g =>
      have hexpand : ∀ ps, Glob.expand w.tree root g = .ok ps → ∀ q ∈ ps, root.ProperlyWithin q :=
        fun ps => Glob.properlyWithin_expand hw.names (Glob.settled_of_parse hparse
          (Settings.dotdot_notMem_components hclimbs))
      refine (ensures_accessed hexpand).bind fun ps hps => ensures_pure fun q hq => ?_
      exact hps q (List.mem_mergeSort.1 hq)

theorem ensures_addFiles (hroot : w.normalize root = root) {files ps : List Path}
    (hfiles : ∀ q ∈ files, root.ProperlyWithin q) (hps : ∀ q ∈ ps, root.ProperlyWithin q) :
    Ensures (addFiles w files ps) fun files => ∀ q ∈ files, root.ProperlyWithin q := by
  refine ensures_foldlM hfiles fun files hfiles p hp => ?_
  obtain ⟨q, hq, rfl⟩ := List.mem_map.1 hp
  have hadded : ∀ file ∈ files ++ [w.normalize q], root.ProperlyWithin file := by
    have hnormal : w.normalize q = q := (hps q hq).within.normalize_eq hroot
    rw [hnormal]
    exact List.forall_mem_append.2 ⟨hfiles, List.forall_mem_singleton.2 (hps q hq)⟩
  split
  · exact ensures_pure hfiles
  · refine ensures_after fun isFile => ?_
    split
    · exact ensures_pure hadded
    · exact ensures_pure hfiles

/-- **Registration files lie in the directory** in which globs that do not climb are expanded. -/
theorem ensures_locate (hw : w.WellFormed) {globs : List String}
    (hglobs : ∀ glob ∈ globs, Settings.climbs glob.toList = false) :
    Ensures (locate w root globs) fun files => ∀ q ∈ files, (w.normalize root).ProperlyWithin q := by
  have hroot : w.normalize (w.normalize root) = w.normalize root := Path.normalize_normalize hw.absolute root
  refine (ensures_foldlM (Q := fun files => ∀ q ∈ files, (w.normalize root).ProperlyWithin q) (by simp)
    fun files hfiles glob hglob => ?_).bind fun files hfiles => ?_
  · refine (ensures_globMatches hw (hglobs glob hglob)).bind fun ps hps => ?_
    dsimp only
    split
    · exact ensures_after fun _ => ensures_addFiles hroot hfiles hps
    · exact ensures_addFiles hroot hfiles hps
  · exact ensures_after fun _ => ensures_pure hfiles

end Project

/-! ## The calls of a scan -/

namespace Scan

variable {w : Workspace} {dir : Path}

theorem ensures_walk (hw : w.WellFormed) (s : Scan) (depth : Nat) (dir : Path) :
    Ensures (s.walk w depth dir) fun found => ∀ q ∈ found, dir.Within q := by
  induction depth generalizing dir with
  | zero => exact ensures_pure (by simp)
  | succ depth ih =>
      rw [walk]
      refine ensures_after fun _ => ?_
      cases hlist : w.list dir with
      | error e => exact ensures_after fun _ => ensures_pure (by simp)
      | ok names =>
          have hentry : ∀ x ∈ inOrder names, Ensures
              (s.ofEntry w (walk s w depth) (dir.child x.1) x.2) fun found => ∀ q ∈ found, dir.Within q := by
            intro x hx
            have hname := hasName_of_list hlist x (List.mem_mergeSort.1 hx)
            have hchild : dir.Within (dir.child x.1) := .child (hw.names _ hname).2 dir
            rcases s.ofEntry_cases w (walk s w depth) (dir.child x.1) x.2 with
              h | h | ⟨message, h⟩ | h <;> rw [h]
            · exact ensures_pure (by simp)
            · exact ensures_pure (List.forall_mem_singleton.2 hchild)
            · exact ensures_after fun _ => ensures_pure (by simp)
            · exact (ih _).mono fun found hfound q hq => hchild.trans (hfound q hq)
          refine (ensures_mapM hentry).bind fun found hfound => ensures_pure fun q hq => ?_
          obtain ⟨qs, hqs, hq⟩ := List.mem_flatten.1 hq
          exact hfound qs hqs q hq

theorem ensures_files (hw : w.WellFormed) (s : Scan) (dir : Path) :
    Ensures (s.files w dir) fun found => ∀ q ∈ found, dir.Within q := by
  refine ensures_after fun isDirectory => ?_
  split
  · exact ensures_walk hw s _ dir
  · exact ensures_after fun _ => ensures_pure (by simp)

end Scan

namespace CallSite

variable {w : Workspace}

theorem ensures_inFile (forms : List String) (key : String) (file : Path) :
    Ensures (inFile w forms key file) fun sites => ∀ c ∈ sites, c.file = file := by
  refine ensures_after fun _ => ensures_after fun content => ?_
  cases content with
  | none => exact ensures_pure (by simp)
  | some content =>
      dsimp only
      split
      · exact ensures_pure (by simp)
      · refine ensures_pure fun c hc => ?_
        obtain ⟨site, -, rfl⟩ := List.mem_map.1 hc
        rfl

/-- **Calls are found in the directory** that is searched. -/
theorem ensures_below (hw : w.WellFormed) (settings : Settings) (dir : Path) (key : Option String) :
    Ensures (below w settings dir key) fun sites => ∀ c ∈ sites, (w.normalize dir).Within c.file := by
  cases key with
  | none => exact ensures_throw _
  | some key =>
      refine (Scan.ensures_files hw _ dir).bind fun found hfound => ensures_after fun _ => ?_
      have hfiles : ∀ file ∈ Path.sort (found.map w.normalize), (w.normalize dir).Within file := by
        intro file hfile
        obtain ⟨q, hq, rfl⟩ := List.mem_map.1 (List.mem_mergeSort.1 hfile)
        exact (hfound q hq).normalize w.cwd
      have hsearch : ∀ file ∈ Path.sort (found.map w.normalize),
          Ensures (inFile w settings.callForms key file) fun sites =>
            ∀ c ∈ sites, (w.normalize dir).Within c.file := by
        intro file hfile
        refine (ensures_inFile _ _ file).mono fun sites hsites c hc => ?_
        rw [hsites c hc]
        exact hfiles file hfile
      refine (ensures_mapM hsearch).bind fun found hfound => ensures_pure fun c hc => ?_
      obtain ⟨sites, hsites, hc⟩ := List.mem_flatten.1 ((distinctBy_sublist _).mem hc)
      exact hfound sites hsites c hc

end CallSite

/-! ## Confinement -/

namespace Project

/-- A project whose directory is in absolute form, and whose texts pass the checks. -/
structure Confined (p : Project) : Prop where
  workspace : p.workspace.WellFormed
  root : p.workspace.normalize p.root = p.root
  globs : ∀ glob ∈ p.settings.registryGlobs, Settings.climbs glob.toList = false
  searchRoot : Settings.Inside p.settings.searchRoot

theorem confined_of_ofDraft {w : Workspace} (hw : w.WellFormed) (root : Path) {d : Draft} {s : Settings}
    (hs : Settings.ofDraft d = .ok s) : (openAt w root s).Confined where
  workspace := hw
  root := Path.normalize_normalize hw.absolute root
  globs glob hglob :=
    (Settings.checkRegistryGlob_eq_ok ((Settings.ofDraft_eq_ok_iff.1 hs).registry.passes glob hglob)).2.2
  searchRoot := (Settings.ofDraft_eq_ok_iff.1 hs).inside

variable {p : Project}

theorem Confined.ensures_registryFiles (hp : p.Confined) :
    Ensures p.registryFiles fun files => ∀ q ∈ files, p.root.ProperlyWithin q := by
  have hlocate : Ensures p.registryFiles fun files =>
      ∀ q ∈ files, (p.workspace.normalize p.root).ProperlyWithin q := ensures_locate hp.workspace hp.globs
  rwa [hp.root] at hlocate

theorem Confined.within_searchDirectory (hp : p.Confined) : p.root.Within p.searchDirectory := by
  rw [searchDirectory]
  split
  · exact .refl _
  · rename_i hne
    obtain ⟨habsolute, hclimbs⟩ := hp.searchRoot (by simpa using hne)
    have hjoin : p.root.join (.ofString p.settings.searchRoot) =
        p.root.descend (Path.ofString p.settings.searchRoot).parts := by
      rw [Path.join, Path.isAbsolute_ofString habsolute]
      rfl
    have hwithin : p.root.Within (p.root.descend (Path.ofString p.settings.searchRoot).parts) :=
      ⟨_, Settings.dotdot_notMem_components hclimbs, rfl⟩
    have hnormal : p.workspace.normalize _ = _ := hwithin.normalize_eq hp.root
    rw [hjoin, hnormal]
    exact hwithin

theorem Confined.ensures_references (hp : p.Confined) (file : Path) :
    Ensures (p.references file) fun found => ∀ c ∈ found.2, p.root.Within c.file := by
  have hdir := hp.within_searchDirectory
  have hnormal : p.workspace.normalize p.searchDirectory = p.searchDirectory :=
    hdir.normalize_eq hp.root
  have hscan : ∀ key, Ensures (CallSite.below p.workspace p.settings p.searchDirectory key) fun sites =>
      ∀ c ∈ sites, p.root.Within c.file := by
    intro key
    have hbelow := CallSite.ensures_below hp.workspace p.settings p.searchDirectory key
    rw [hnormal] at hbelow
    exact hbelow.mono fun sites hsites c hc => hdir.trans (hsites c hc)
  rw [references]
  split
  · exact ensures_after fun _ => ensures_pure (by simp)
  · refine ensures_after fun keys => ?_
    split
    · exact ensures_after fun _ => ensures_pure (by simp)
    · refine (ensures_mapM fun key _ => hscan key).bind fun found hfound => ensures_pure fun c hc => ?_
      obtain ⟨sites, hsites, hc⟩ := List.mem_flatten.1 ((distinctBy_sublist _).mem hc)
      exact hfound sites hsites c hc

/-- **Lookups stay inside the project.**  With settings that could be built, whatever the root and the
tree: every registration file, the directory that is searched, and the file of every call of the
references are the root in absolute form continued by components that do not climb, whenever the lookup
has a result, with any budget. -/
theorem lookups_confined {w : Workspace} (hw : w.WellFormed) (root : Path) {d : Draft} {s : Settings}
    (hs : Settings.ofDraft d = .ok s) :
    (∀ budget files, ((openAt w root s).registryFiles.outcome budget).1 = .ok files →
      ∀ q ∈ files, (w.normalize root).Within q) ∧
    (w.normalize root).Within (openAt w root s).searchDirectory ∧
    ∀ file budget ks sites, (((openAt w root s).references file).outcome budget).1 = .ok (ks, sites) →
      ∀ c ∈ sites, (w.normalize root).Within c.file := by
  have hp := confined_of_ofDraft hw root hs
  refine ⟨fun budget files h q hq => (hp.ensures_registryFiles.outcome h q hq).within,
    hp.within_searchDirectory, ?_⟩
  exact fun file budget ks sites h => (hp.ensures_references file).outcome h

theorem lookups_confined_sample :
    sample.workspace.WellFormed ∧ Settings.ofDraft (sampleDraft "src") = .ok sample.settings ∧
    (sample.registryFiles.outcome none).1 = .ok [sampleRegistryFile] ∧
    ["p"] <+: sampleRegistryFile.parts ∧ ["p"] <+: sample.searchDirectory.parts ∧
    ∀ ks sites, ((sample.references sampleFile).outcome none).1 = .ok (ks, sites) →
      ∀ c ∈ sites, ["p"] <+: c.file.parts := by
  obtain ⟨hfiles, hdirectory, hreferences⟩ :=
    lookups_confined sample_wellFormed (.ofString "/p") sample_ofDraft
  refine ⟨sample_wellFormed, sample_ofDraft, sample_registryFiles, ?_, hdirectory.isPrefix.2, ?_⟩
  · exact (hfiles none _ sample_registryFiles _ (List.mem_singleton_self _)).isPrefix.2
  · exact fun ks sites h c hc => (hreferences sampleFile none ks sites h c hc).isPrefix.2

end Project

end ServiceKeys
