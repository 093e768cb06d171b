import ServiceKeys.Proofs.Lookup.Pool
import ServiceKeys.Proofs.Lookup.Cancellation

/-!
# Scanning on a pool of workers

The scan for the calls of a key as a search on a pool: the files below a directory are listed by the
caller, each is searched by a task of its own, and the calls are merged in the order of the files.
Whatever the number of workers, and however their steps are interleaved, the scan comes to what the
scan of one file after the other comes to, or it is cancelled.  Main statement:
`CallSite.pooled_refines`.
-/

namespace ServiceKeys.CallSite

open Lookup

/-- The scan of files on a pool. -/
def filesPooled (w : Workspace) (forms : List String) (key : String) (workers : Nat)
    (files : List Path) : Search Path (List CallSite) (List (List CallSite)) where
  list := pure files
  job := inFile w forms key
  merge := id
  workers := workers

/-- The scan below a directory on a pool. -/
def belowPooled (w : Workspace) (settings : Settings) (key : String) (workers : Nat) (dir : Path) :
    Search Path (List CallSite) (List CallSite) where
  list := do
    let found ← (Scan.ofSettings settings).files w dir
    let files := Path.sort (found.map w.normalize)
    Lookup.debug ("Scanning " ++ toString files.length ++ " file(s) for key " ++ Text.quoted key)
    return files
  job := inFile w settings.callForms key
  merge := fun sites => distinctBy CallSite.key sites.flatten
  workers := workers

variable {w : Workspace} {settings : Settings} {forms : List String} {key : String} {workers : Nat}

theorem filesPooled_inTurn (files : List Path) :
    (filesPooled w forms key workers files).inTurn = files.mapM (inFile w forms key) := by
  simp [Search.inTurn, filesPooled]

theorem belowPooled_inTurn (dir : Path) :
    (belowPooled w settings key workers dir).inTurn = below w settings dir (some key) := by
  simp [Search.inTurn, belowPooled, below]

theorem exists_polls_files (hw : w.Sound) (settings : Settings) (dir : Path) :
    ∃ r n, Polls ((Scan.ofSettings settings).files w dir) r n ∧ r ≠ .error .cancelled := by
  cases hdir : w.isDirectory dir with
  | error e => exact ⟨_, 0, (Scan.ofSettings settings).polls_files_error hdir, nofun⟩
  | ok b =>
      obtain ⟨dirs, found, hpolls, -⟩ := Scan.surveys_files hw (Scan.ofSettings settings) hdir
      exact ⟨_, _, hpolls, nofun⟩

/-- The scan below a directory on a pool does what the one in turn does. -/
theorem belowPooled_refines (hw : w.Sound) (settings : Settings) (key : String) (dir : Path)
    (hworkers : 1 ≤ workers) :
    (belowPooled w settings key workers dir).Refines (below w settings dir (some key)) := by
  obtain ⟨r, n, hfiles, hr⟩ := exists_polls_files hw settings dir
  obtain ⟨listed, hlisted, hne⟩ : ∃ listed,
      Polls (belowPooled w settings key workers dir).list listed n ∧ listed ≠ .error .cancelled := by
    cases r with
    | error e =>
        exact ⟨.error e, hfiles.bind_error, fun he => hr (by rw [Except.error.inj he])⟩
    | ok found =>
        exact ⟨_, hfiles.bind_silent ((polls_debug _).bind_ok (polls_pure _)), nofun⟩
  rw [← belowPooled_inTurn]
  exact Search.Regular.refines_inTurn ⟨hlisted, polls_inFile w settings.callForms key, hne⟩ hworkers

/-- **A scan on a pool does what the scan in turn does.**  The scan of any files with any number of
workers comes to an end under every schedule.  It comes to the calls in each of the files, in the order
of the files, unless a poll comes after the token was set; then, and only then, it is cancelled.  The
same holds of the scan below a directory and what it merges. -/
theorem pooled_refines (w : Workspace) (settings : Settings) (key : String) {workers : Nat}
    (hworkers : 1 ≤ workers) :
    (∀ files, (∃ sites, (Lookup.outcome (files.mapM (inFile w settings.callForms key)) none).1 =
        .ok sites) ∧
      (filesPooled w settings.callForms key workers files).Refines
        (files.mapM (inFile w settings.callForms key))) ∧
    (w.Sound → ∀ dir, (belowPooled w settings key workers dir).Refines
      (below w settings dir (some key))) := by
  refine ⟨fun files => ?_, fun hw dir => belowPooled_refines hw settings key dir hworkers⟩
  have hregular : (filesPooled w settings.callForms key workers files).Regular (.ok files) 0
      (sitesIn w settings.callForms key) :=
    ⟨polls_pure files, polls_inFile w settings.callForms key, nofun⟩
  refine ⟨⟨_, (hregular.scan files).gives.outcome⟩, ?_⟩
  rw [← filesPooled_inTurn]
  exact hregular.refines_inTurn hworkers

theorem pooled_refines_sample :
    1 ≤ 2 ∧ Project.sample.workspace.Sound ∧
    (belowPooled Project.sample.workspace Project.sample.settings "mail.v2" 2
      Project.sample.searchDirectory).Refines
      (below Project.sample.workspace Project.sample.settings Project.sample.searchDirectory
        (some "mail.v2")) :=
  ⟨by decide, Project.sample_sound, (pooled_refines _ _ _ (by decide)).2 Project.sample_sound _⟩

end ServiceKeys.CallSite
