import ServiceKeys.Proofs.Lookup.Walk
import ServiceKeys.Proofs.Lookup.References

/-!
# Cancelling a lookup

A lookup can be cancelled at its polls and nowhere else.  The polls of every lookup are counted here:
one for each registration file, one for each directory that a scan walks, and one for each file that
it accepts, all of them in one run and once more for each key.  A budget below that number cancels
the lookup; any other leaves its outcome as it is, and nothing in between is ever returned.  Main
statement: `Project.lookups_allOrNothing`.
-/

namespace ServiceKeys

open Lookup

/-! ## The polls of a scan -/

/-- The number of directories that a scan of a path walks, those that cannot be listed included, and
of files that it accepts. -/
def Scan.Tally (s : Scan) (w : Workspace) (root : Path) (n : Nat) : Prop :=
  ∃ dirs files : List Path, dirs.Nodup ∧ (∀ d, d ∈ dirs ↔ s.Walked w root d) ∧
    files.Nodup ∧ (∀ q, q ∈ files ↔ s.Accepted w root q) ∧ n = dirs.length + files.length

namespace CallSite

variable {w : Workspace}

/-- What is found below a directory, given the files of the scan. -/
theorem polls_below {settings : Settings} {dir : Path} {found : List Path} {n : Nat}
    (hfiles : Polls ((Scan.ofSettings settings).files w dir) (.ok found) n) (key : String) :
    Polls (below w settings dir (some key))
      (.ok (distinctBy CallSite.key
        ((Path.sort (found.map w.normalize)).flatMap (sitesIn w settings.callForms key))))
      (n + found.length) := by
  have heach : List.Forall₂ (fun file out => Polls _ (.ok out) 1)
      (Path.sort (found.map w.normalize)) _ :=
    List.forall₂_map_right_iff.2
      (List.forall₂_same.2 fun file _ => polls_inFile w settings.callForms key file)
  have hall := polls_mapM_const heach
  have hlength : (Path.sort (found.map w.normalize)).length * 1 = found.length := by
    rw [Nat.mul_one, Path.sort, List.length_mergeSort, List.length_map]
  rw [hlength] at hall
  rw [List.flatMap_def]
  exact hfiles.bind_add ((polls_debug _).bind_ok (hall.bind_silent (polls_pure _)))

/-- **The polls of a scan.**  A directory that cannot be asked about is not walked, and the scan fails
at once; any other scan succeeds after one poll for each directory and each file. -/
theorem exists_tally (hw : w.Sound) (settings : Settings) (dir : Path) :
    ∃ n, (Scan.ofSettings settings).Tally w dir n ∧
      ((n = 0 ∧ ∃ e, ∀ key, Polls (below w settings dir (some key)) (.error (.access e)) 0) ∨
        ∀ key, ∃ sites, Polls (below w settings dir (some key)) (.ok sites) n) := by
  cases hdir : w.isDirectory dir with
  | error e =>
      have hfiles := (Scan.ofSettings settings).polls_files_error hdir
      have hnone : (Scan.ofSettings settings).Tally w dir 0 :=
        ⟨[], [], .nil, by simp [Scan.Walked, hdir], .nil, by simp [Scan.Accepted, hdir], rfl⟩
      exact ⟨0, hnone, Or.inl ⟨rfl, e, fun key => hfiles.bind_error⟩⟩
  | ok b =>
      obtain ⟨dirs, found, hpolls, hdirs, hmem, hfound, htaken⟩ :=
        Scan.surveys_files hw (Scan.ofSettings settings) hdir
      refine ⟨dirs.length + found.length, ⟨dirs, found, hdirs, hmem, hfound, htaken, rfl⟩, Or.inr ?_⟩
      exact fun key => ⟨_, polls_below hpolls key⟩

end CallSite

namespace Project

open Registration

variable {p : Project}

theorem polls_references_excluded (hcwd : p.workspace.cwd.isAbsolute = true) {file : Path}
    (h : p.settings.includes (p.workspace.displayed p.root file) = false) :
    Polls (p.references file) (.ok ([], [])) 0 := by
  rw [references, displayed_normalize hcwd, h]
  exact (polls_info _).bind_ok (polls_pure _)

/-- A file without keys has no references, and no scan is made. -/
theorem polls_references_nil (hcwd : p.workspace.cwd.isAbsolute = true) {file : Path} {m : Nat}
    (hkeys : Polls (p.keys file) (.ok []) m)
    (hincludes : p.settings.includes (p.workspace.displayed p.root file) = true) :
    Polls (p.references file) (.ok ([], [])) m := by
  rw [references, displayed_normalize hcwd, keys_normalize hcwd, hincludes]
  exact hkeys.bind_silent ((polls_info _).bind_ok (polls_pure _))

/-- The references of a file with keys: the polls of the keys, and those of a scan for each key. -/
theorem polls_references {r : Except Failure (List (List CallSite))} {m n : Nat}
    (hcwd : p.workspace.cwd.isAbsolute = true) {file : Path} {ks : List (Option String)}
    (hkeys : Polls (p.keys file) (.ok ks) m) (hne : ks ≠ [])
    (hincludes : p.settings.includes (p.workspace.displayed p.root file) = true)
    (hscans : Polls (ks.mapM (CallSite.below p.workspace p.settings p.searchDirectory)) r n) :
    Polls (p.references file)
      (r.map fun sites => (ks, distinctBy CallSite.key sites.flatten)) (m + n) := by
  have hempty : ks.isEmpty = false := List.isEmpty_eq_false_iff.2 hne
  rw [references, displayed_normalize hcwd, keys_normalize hcwd, hincludes]
  refine hkeys.bind_add ?_
  rw [hempty]
  cases r with
  | error e => exact hscans.bind_error
  | ok sites => exact hscans.bind_silent (polls_pure _)

theorem exists_polls_references (hw : p.workspace.Sound) {file : Path} {keys : List String} {m : Nat}
    (hkeys : Polls (p.keys file) (.ok (keys.map some)) m)
    (hincludes : p.settings.includes (p.workspace.displayed p.root file) = true) :
    ∃ n, (Scan.ofSettings p.settings).Tally p.workspace p.searchDirectory n ∧
      ∃ r, r ≠ .error .cancelled ∧ Polls (p.references file) r (m + (keys.map some).length * n) := by
  obtain ⟨n, htally, hbelow⟩ := CallSite.exists_tally hw p.settings p.searchDirectory
  refine ⟨n, htally, ?_⟩
  cases keys with
  | nil =>
      rw [List.map_nil, List.length_nil, Nat.zero_mul]
      exact ⟨_, by simp, polls_references_nil hw.absolute hkeys hincludes⟩
  | cons key keys =>
      rcases hbelow with ⟨rfl, e, herror⟩ | hok
      · -- the scan for the first key fails, and with it the lookup
        have hfirst : Polls (((key :: keys).map some).mapM
            (CallSite.below p.workspace p.settings p.searchDirectory)) (.error (.access e)) 0 := by
          rw [List.map_cons, List.mapM_cons]
          exact (herror key).bind_error
        refine ⟨.error (.access e), by simp, ?_⟩
        exact polls_references hw.absolute hkeys (by simp) hincludes hfirst
      · choose sites hsites using hok
        have hall : Polls (((key :: keys).map some).mapM
            (CallSite.below p.workspace p.settings p.searchDirectory))
            (.ok ((key :: keys).map sites)) (((key :: keys).map some).length * n) :=
          polls_mapM_const (List.forall₂_map_left_iff.2 (List.forall₂_map_right_iff.2
            (List.forall₂_same.2 fun k _ => hsites k)))
        exact ⟨_, by simp [Except.map], polls_references hw.absolute hkeys (by simp) hincludes hall⟩

/-- **Cancelling is all or nothing, and the polls are counted exactly.**  Let the templates be the
built-in ones and the registration files be found.  Looking a key up polls once for each registration
file, unless the key is blank, and so does looking up the keys of a file.  A scan polls once for each
directory that it walks and each file that it accepts.  The references of a file take the polls of its
keys and those of a scan for each key; those of a file that may not be registered take none.  Each of
these lookups is cancelled by a budget of fewer polls than that, and no other budget changes its
outcome. -/
theorem lookups_allOrNothing (p : Project) (hw : p.workspace.Sound)
    (htemplates : p.settings.templates = Template.builtin) {files : List Path}
    (hfiles : (p.registryFiles.outcome none).1 = .ok files) :
    (∀ key, AllOrNothing (p.definitions key)
      (if Text.trim key.toList = [] then 0 else files.length)) ∧
    (∀ file, AllOrNothing (p.keys file) files.length) ∧
    (∀ dir, ∃ n, (Scan.ofSettings p.settings).Tally p.workspace dir n ∧
      ∀ key, AllOrNothing (CallSite.below p.workspace p.settings dir (some key)) n) ∧
    ∀ file, ∃ n ks, (Scan.ofSettings p.settings).Tally p.workspace p.searchDirectory n ∧
      ((p.keys file).outcome none).1 = .ok ks ∧
      AllOrNothing (p.references file)
        (if p.settings.includes (p.workspace.displayed p.root file) then
          files.length + ks.length * n else 0) := by
  have h : ∀ t ∈ p.settings.templates, Wrapped t :=
    fun t ht => wrapped_of_mem_builtin (htemplates ▸ ht)
  have hgives := gives_registryFiles hfiles
  refine ⟨?_, ?_, ?_, ?_⟩
  · intro key
    by_cases hblank : Text.trim key.toList = []
    · rw [if_pos hblank]
      refine Polls.allOrNothing (r := .ok []) ?_ (by simp)
      rw [definitions, List.isEmpty_iff.2 hblank]
      exact polls_pure _
    · rw [if_neg hblank]
      obtain ⟨ds, hds, -⟩ := exists_polls_definitions h hblank hgives
      exact hds.allOrNothing (by simp)
  · intro file
    obtain ⟨ks, hks, -⟩ := exists_polls_keys h hgives file
    exact hks.allOrNothing (by simp)
  · intro dir
    obtain ⟨n, htally, ⟨rfl, e, herror⟩ | hok⟩ := CallSite.exists_tally hw p.settings dir
    · exact ⟨0, htally, fun key => (herror key).allOrNothing (by simp)⟩
    · refine ⟨n, htally, fun key => ?_⟩
      obtain ⟨sites, hsites⟩ := hok key
      exact hsites.allOrNothing (by simp)
  · intro file
    obtain ⟨ks, hks, -, hregisters⟩ := exists_polls_keys h hgives file
    obtain ⟨keys, -, rfl⟩ := exists_keyTexts hregisters
    cases hincludes : p.settings.includes (p.workspace.displayed p.root file) with
    | true =>
        obtain ⟨n, htally, r, hr, hreferences⟩ := exists_polls_references hw hks hincludes
        exact ⟨n, _, htally, hks.gives.outcome, hreferences.allOrNothing hr⟩
    | false =>
        obtain ⟨n, htally, -⟩ := CallSite.exists_tally hw p.settings p.searchDirectory
        refine ⟨n, _, htally, hks.gives.outcome, ?_⟩
        exact (polls_references_excluded hw.absolute hincludes).allOrNothing (by simp)

theorem sample_sound : sample.workspace.Sound where
  toWellFormed := sample_wellFormed
  single := by decide

theorem lookups_allOrNothing_sample :
    sample.workspace.Sound ∧ sample.settings.templates = Template.builtin ∧
    (sample.registryFiles.outcome none).1 = .ok [sampleRegistryFile] ∧
    AllOrNothing (sample.definitions "mail.v2") 1 ∧ AllOrNothing (sample.definitions " ") 0 ∧
    AllOrNothing (sample.keys sampleFile) 1 ∧
    ∃ n ks, (Scan.ofSettings sample.settings).Tally sample.workspace sample.searchDirectory n ∧
      ((sample.keys sampleFile).outcome none).1 = .ok ks ∧
      AllOrNothing (sample.references sampleFile) (1 + ks.length * n) := by
  obtain ⟨hdefinitions, hkeys, -, hreferences⟩ :=
    lookups_allOrNothing sample sample_sound rfl sample_registryFiles
  exact ⟨sample_sound, rfl, sample_registryFiles, hdefinitions "mail.v2", hdefinitions " ",
    hkeys sampleFile, hreferences sampleFile⟩

end Project

end ServiceKeys
