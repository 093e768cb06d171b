import ServiceKeys.Proofs.Lookup.Polls

/-!
# Searching files on a pool of workers

A search lists files, searches each of them and merges what it found.  With more than one worker, and
files to share out, it hands the files to a pool: one task for each file, of which as many run at the
same time as there are workers, in any order and interleaved in any way.  The caller reads the results
in the order of the files; when one of them is the failure of a cancelled task, it withdraws the tasks
that have not started, waits for the others and fails.  The token may be set at any time.

`Search.Step` is one step of such a search and `Search.Reach` the states that a schedule leads to.
Two things are kept along every schedule: what is known of the tasks and of the caller (`Sound`), and
that the search is bound to fail exactly when some poll came after the token was set (`Doomed`).  Main
statement: `Search.refines_inTurn`, every schedule comes to an end, and to what the search in turn comes
to, unless a poll comes after the token was set.
-/

namespace ServiceKeys

open Lookup

/-- How often a lookup polls when it is not cancelled. -/
def Lookup.polls {α : Type} (l : Lookup α) : Nat := (l.outcome none).2.polls

theorem Lookup.Polls.polls_eq {α : Type} {l : Lookup α} {r : Except Failure α} {n : Nat}
    (h : Polls l r n) : l.polls = n := by
  obtain ⟨t, hrun, hpolls, -⟩ := h.passes {} (by simp)
  have houtcome : l.outcome none = (r, t) := hrun
  rw [Lookup.polls, houtcome, hpolls]
  exact Nat.zero_add n

/-- A search of files. -/
structure Search (ι α γ : Type) where
  /-- Lists the files. -/
  list : Lookup (List ι)
  /-- Searches one file. -/
  job : ι → Lookup α
  /-- Puts together what was found. -/
  merge : List α → γ
  /-- How many files may be searched at the same time. -/
  workers : Nat

namespace Search

variable {ι α γ : Type}

/-- The search of one file after the other. -/
def inTurn (S : Search ι α γ) : Lookup γ := do
  let files ← S.list
  let found ← files.mapM S.job
  return S.merge found

/-! ## The pool -/

/-- The task of one file. -/
inductive Task (α : Type) where
  | queued
  /-- The task runs, and some of its polls were let through. -/
  | running (polls : Nat)
  | finished (r : Except Failure α)
  /-- The task was withdrawn before it started. -/
  | withdrawn

namespace Task

def isRunning : Task α → Bool
  | .running _ => true
  | _ => false

/-- A task that will not run again. -/
def isSettled : Task α → Bool
  | .finished _ | .withdrawn => true
  | _ => false

end Task

/-- What the caller is about. -/
inductive Caller (α γ : Type) where
  /-- It lists the files, and some polls were let through. -/
  | listing (polls : Nat)
  /-- It searches the files itself, one after the other. -/
  | scanning (polls : Nat)
  /-- It hands the files to the pool. -/
  | submitting
  /-- It reads the results in order, and has these. -/
  | reading (found : List α)
  /-- It withdraws the tasks, from this one on. -/
  | withdrawing (task : Nat)
  /-- It waits for the tasks that run. -/
  | leaving (r : Except Failure (List α))
  | returned (r : Except Failure γ)

/-- A search under way. -/
structure State (ι α γ : Type) where
  /-- The token. -/
  cancelled : Bool
  files : List ι
  /-- The tasks of the files, as far as they were handed to the pool. -/
  tasks : List (Task α)
  caller : Caller α γ

/-- What happens next. -/
inductive Action where
  /-- The token is set. -/
  | cancel
  /-- A task polls, or the caller does. -/
  | poll (task : Option Nat)
  | start (task : Nat)
  | finish (task : Nat)
  /-- The caller does anything else. -/
  | proceed
  deriving DecidableEq

def initial : State ι α γ := ⟨false, [], [], .listing 0⟩

/-- One step of a search. -/
inductive Step (S : Search ι α γ) : State ι α γ → Action → State ι α γ → Prop where
  | cancel (s) : Step S s .cancel { s with cancelled := true }
  | list_passes {s n} : s.caller = .listing n → n < S.list.polls → s.cancelled = false →
      Step S s (.poll none) { s with caller := .listing (n + 1) }
  | list_stops {s n e} : s.caller = .listing n → n < S.list.polls → s.cancelled = true →
      (S.list.outcome (some n)).1 = .error e →
      Step S s (.poll none) { s with caller := .returned (.error e) }
  | list_fails {s n e} : s.caller = .listing n → S.list.polls ≤ n →
      (S.list.outcome none).1 = .error e →
      Step S s .proceed { s with caller := .returned (.error e) }
  | listed {s n files} : s.caller = .listing n → S.list.polls ≤ n →
      (S.list.outcome none).1 = .ok files →
      Step S s .proceed { s with
        files := files
        caller := if S.workers = 1 ∨ files.length < 2 then .scanning 0 else .submitting }
  | scan_passes {s n} : s.caller = .scanning n → n < Lookup.polls (s.files.mapM S.job) →
      s.cancelled = false → Step S s (.poll none) { s with caller := .scanning (n + 1) }
  | scan_stops {s n} : s.caller = .scanning n → n < Lookup.polls (s.files.mapM S.job) →
      s.cancelled = true → Step S s (.poll none) { s with
        caller := .returned ((Lookup.outcome (s.files.mapM S.job) (some n)).1.map S.merge) }
  | scanned {s n} : s.caller = .scanning n → Lookup.polls (s.files.mapM S.job) ≤ n →
      Step S s .proceed { s with
        caller := .returned ((Lookup.outcome (s.files.mapM S.job) none).1.map S.merge) }
  | submit {s} : s.caller = .submitting → s.tasks.length < s.files.length →
      Step S s .proceed { s with tasks := s.tasks ++ [.queued] }
  | submitted {s} : s.caller = .submitting → s.tasks.length = s.files.length →
      Step S s .proceed { s with caller := .reading [] }
  | start {s i} : s.tasks[i]? = some .queued →
      s.tasks.countP Task.isRunning < min S.workers s.files.length →
      Step S s (.start i) { s with tasks := s.tasks.set i (.running 0) }
  | task_passes {s i n x} : s.tasks[i]? = some (.running n) → s.files[i]? = some x →
      n < (S.job x).polls → s.cancelled = false →
      Step S s (.poll (some i)) { s with tasks := s.tasks.set i (.running (n + 1)) }
  | task_stops {s i n x} : s.tasks[i]? = some (.running n) → s.files[i]? = some x →
      n < (S.job x).polls → s.cancelled = true →
      Step S s (.poll (some i)) { s with
        tasks := s.tasks.set i (.finished ((S.job x).outcome (some n)).1) }
  | task_finishes {s i n x} : s.tasks[i]? = some (.running n) → s.files[i]? = some x →
      (S.job x).polls ≤ n →
      Step S s (.finish i) { s with tasks := s.tasks.set i (.finished ((S.job x).outcome none).1) }
  | read {s found a} : s.caller = .reading found →
      s.tasks[found.length]? = some (.finished (.ok a)) →
      Step S s .proceed { s with caller := .reading (found ++ [a]) }
  | read_cancelled {s found} : s.caller = .reading found →
      s.tasks[found.length]? = some (.finished (.error .cancelled)) →
      Step S s .proceed { s with caller := .withdrawing 0 }
  | read_failed {s found e} : s.caller = .reading found →
      s.tasks[found.length]? = some (.finished (.error e)) → e ≠ .cancelled →
      Step S s .proceed { s with caller := .leaving (.error e) }
  | read_all {s found} : s.caller = .reading found → found.length = s.tasks.length →
      Step S s .proceed { s with caller := .leaving (.ok found) }
  | withdraw {s i} : s.caller = .withdrawing i → s.tasks[i]? = some .queued →
      Step S s .proceed { s with tasks := s.tasks.set i .withdrawn, caller := .withdrawing (i + 1) }
  | withdraw_started {s i t} : s.caller = .withdrawing i → s.tasks[i]? = some t → t ≠ .queued →
      Step S s .proceed { s with caller := .withdrawing (i + 1) }
  | withdrawn {s i} : s.caller = .withdrawing i → s.tasks.length ≤ i →
      Step S s .proceed { s with caller := .leaving (.error .cancelled) }
  | leave {s r} : s.caller = .leaving r → (∀ t ∈ s.tasks, t.isSettled = true) →
      Step S s .proceed { s with caller := .returned (r.map S.merge) }

/-- The states that a schedule leads to. -/
inductive Reach (S : Search ι α γ) : List Action → State ι α γ → Prop where
  | initial : Reach S [] initial
  | step {acts s a s'} : Reach S acts s → S.Step s a s' → Reach S (acts ++ [a]) s'

/-- A search does on a pool what the lookup `l` does.  No schedule goes on for ever, and none is stuck
before the search has returned.  The search then comes to what `l` comes to, unless a poll came after
the token was set; then, and only then, it is cancelled. -/
structure Refines (S : Search ι α γ) (l : Lookup γ) : Prop where
  bounded : ∃ n, ∀ acts s, S.Reach acts s → acts.countP (· ≠ .cancel) ≤ n
  progress : ∀ acts s, S.Reach acts s →
    (∃ r, s.caller = .returned r) ∨ ∃ a s', S.Step s a s' ∧ a ≠ .cancel
  outcome : ∀ acts s r, S.Reach acts s → s.caller = .returned r →
    r = .error .cancelled ∨ r = (l.outcome none).1
  uncancelled : ∀ acts s r, S.Reach acts s → s.caller = .returned r → .cancel ∉ acts →
    r = (l.outcome none).1
  cancelled_iff : ∀ acts s r, S.Reach acts s → s.caller = .returned r →
    (r = .error .cancelled ↔ ∃ task, List.Sublist [.cancel, .poll task] acts)

/-! ## What is known of a search under way -/

/-- What is known of a search: the files, if they can be listed, and how often that polls; what is
found in each file, after one poll. -/
structure Regular (S : Search ι α γ) (listed : Except Failure (List ι)) (m : Nat) (found : ι → α) :
    Prop where
  list : Polls S.list listed m
  job : ∀ x, Polls (S.job x) (.ok (found x)) 1
  listed_ne : listed ≠ .error .cancelled

/-- A task that found something. -/
def Task.done (a : α) : Task α := .finished (.ok a)

/-- What a task may be, in the file where `a` is found. -/
def Task.Sound (a : α) : Task α → Prop
  | .queued | .withdrawn => True
  | .running n => n ≤ 1
  | .finished r => r = .ok a ∨ r = .error .cancelled

section

variable (S : Search ι α γ) (listed : Except Failure (List ι)) (m : Nat) (found : ι → α)

/-- What a search comes to, unless it is cancelled. -/
def goal : Except Failure γ := listed.map fun files => S.merge (files.map found)

/-- What the caller may be about, with these files and tasks. -/
def Fits (files : List ι) (tasks : List (Task α)) : Caller α γ → Prop
  | .listing n => n ≤ m ∧ tasks = []
  | .scanning n => listed = .ok files ∧ tasks = [] ∧ n ≤ files.length
  | .submitting => listed = .ok files ∧ .withdrawn ∉ tasks
  | .reading read => listed = .ok files ∧ tasks.length = files.length ∧ .withdrawn ∉ tasks ∧
      read.map Task.done <+: tasks
  | .withdrawing _ => listed = .ok files ∧ tasks.length = files.length
  | .leaving r => listed = .ok files ∧
      (r = .error .cancelled ∨ r = .ok (files.map found) ∧ ∀ t ∈ tasks, ∃ a, t = Task.done a)
  | .returned r => r = .error .cancelled ∨
      r = S.goal listed found ∧ ∀ t ∈ tasks, ∃ a, t = Task.done a

/-- What is known of every state of a search. -/
structure Sound (s : State ι α γ) : Prop where
  tasks : ∀ (i : Nat) (t : Task α), s.tasks[i]? = some t →
    ∃ x, s.files[i]? = some x ∧ t.Sound (found x)
  caller : S.Fits listed m found s.files s.tasks s.caller

end

/-- The search is bound to be cancelled. -/
def Doomed (tasks : List (Task α)) : Caller α γ → Prop
  | .listing _ | .scanning _ => False
  | .submitting | .reading _ => .finished (.error .cancelled) ∈ tasks
  | .withdrawing _ => True
  | .leaving r => r = .error .cancelled
  | .returned r => r = .error .cancelled

variable {S : Search ι α γ} {listed : Except Failure (List ι)} {m : Nat} {found : ι → α}
  {s s' : State ι α γ} {a : Action}

namespace Regular

theorem list_polls (h : S.Regular listed m found) : S.list.polls = m := h.list.polls_eq

theorem job_polls (h : S.Regular listed m found) (x : ι) : (S.job x).polls = 1 := (h.job x).polls_eq

theorem scan (h : S.Regular listed m found) (files : List ι) :
    Polls (files.mapM S.job) (.ok (files.map found)) files.length :=
  (polls_mapM_const (List.forall₂_map_right_iff.2 (List.forall₂_same.2 fun x _ => h.job x))).congr
    rfl (Nat.mul_one _)

theorem scan_polls (h : S.Regular listed m found) (files : List ι) :
    Lookup.polls (files.mapM S.job) = files.length := (h.scan files).polls_eq

/-- The search in turn. -/
theorem inTurn (h : S.Regular listed m found) :
    (S.inTurn.outcome none).1 = S.goal listed found := by
  suffices hgives : Gives S.inTurn (S.goal listed found) from hgives.outcome
  cases hlisted : listed with
  | error e => exact (hlisted ▸ h.list : Polls S.list (.error e) m).bind_error.gives
  | ok files =>
      have hlist : Polls S.list (.ok files) m := hlisted ▸ h.list
      exact (hlist.bind_add ((h.scan files).bind_silent
        (polls_pure (S.merge (files.map found))))).gives

end Regular

/-! ### A task takes a step -/

/-- The tasks after a step of one that can still take one. -/
theorem mem_set_iff {tasks : List (Task α)} {i : Nat} {t t' u : Task α} (ht : tasks[i]? = some t)
    (hu : u ≠ t) (hu' : u ≠ t') : u ∈ tasks.set i t' ↔ u ∈ tasks := by
  constructor
  · intro hmem
    exact (List.mem_or_eq_of_mem_set hmem).resolve_right hu'
  · intro hmem
    obtain ⟨j, hj⟩ := List.mem_iff_getElem?.1 hmem
    have hne : i ≠ j := by
      rintro rfl
      exact hu (Option.some.inj (hj.symm.trans ht))
    exact List.mem_iff_getElem?.2 ⟨j, by rw [List.getElem?_set_ne hne, hj]⟩

theorem not_all_done {tasks : List (Task α)} {i : Nat} {t : Task α} (ht : tasks[i]? = some t)
    (hopen : t.isSettled = false) : ¬ ∀ u ∈ tasks, ∃ a, u = Task.done a := by
  intro hall
  obtain ⟨a, rfl⟩ := hall t (List.mem_of_getElem? ht)
  exact Bool.noConfusion hopen

theorem done_prefix_set {tasks : List (Task α)} {read : List α} {i : Nat} {t t' : Task α}
    (h : read.map Task.done <+: tasks) (ht : tasks[i]? = some t) (hopen : t.isSettled = false) :
    read.map Task.done <+: tasks.set i t' := by
  obtain ⟨rest, rfl⟩ := h
  have hle : (read.map Task.done).length ≤ i := by
    by_contra hlt
    have hread : t ∈ read.map Task.done := by
      rw [List.getElem?_append_left (Nat.lt_of_not_le hlt)] at ht
      exact List.mem_of_getElem? ht
    obtain ⟨a, -, rfl⟩ := List.mem_map.1 hread
    exact Bool.noConfusion hopen
  rw [List.set_append_right i t' hle]
  exact List.prefix_append _ _

/-- The caller is not concerned by a step of a task. -/
theorem Fits.set {files : List ι} {tasks : List (Task α)} {c : Caller α γ} {i : Nat} {t t' : Task α}
    (h : S.Fits listed m found files tasks c) (ht : tasks[i]? = some t) (hopen : t.isSettled = false)
    (ht' : t' ≠ .withdrawn) : S.Fits listed m found files (tasks.set i t') c := by
  have hwithdrawn : .withdrawn ∉ tasks → .withdrawn ∉ tasks.set i t' := fun hnot hmem =>
    hnot ((List.mem_or_eq_of_mem_set hmem).resolve_right ht'.symm)
  cases c with
  | listing n =>
      obtain ⟨-, rfl⟩ := h
      simp at ht
  | scanning n =>
      obtain ⟨-, rfl, -⟩ := h
      simp at ht
  | submitting => exact ⟨h.1, hwithdrawn h.2⟩
  | reading read =>
      obtain ⟨hlisted, hlength, hnot, hread⟩ := h
      exact ⟨hlisted, by rw [List.length_set, hlength], hwithdrawn hnot,
        done_prefix_set hread ht hopen⟩
  | withdrawing n => exact ⟨h.1, by rw [List.length_set, h.2]⟩
  | leaving r =>
      refine ⟨h.1, h.2.imp_right fun hdone => ?_⟩
      exact absurd hdone.2 (not_all_done ht hopen)
  | returned r => exact Or.imp_right (fun hdone => absurd hdone.2 (not_all_done ht hopen)) h

theorem doomed_set_iff {tasks : List (Task α)} {c : Caller α γ} {i : Nat} {t t' : Task α}
    (ht : tasks[i]? = some t) (hopen : t.isSettled = false)
    (ht' : t' ≠ .finished (.error .cancelled)) : Doomed (tasks.set i t') c ↔ Doomed tasks c := by
  have hne : Task.finished (.error .cancelled) ≠ t := by
    rintro rfl
    exact Bool.noConfusion hopen
  have hmem := mem_set_iff ht hne ht'.symm
  cases c with
  | submitting => exact hmem
  | reading read => exact hmem
  | _ => exact Iff.rfl

/-- A task that is stopped while it runs dooms the search. -/
theorem Fits.doomed_set {files : List ι} {tasks : List (Task α)} {c : Caller α γ} {i : Nat}
    {t : Task α} (h : S.Fits listed m found files tasks c) (ht : tasks[i]? = some t)
    (hopen : t.isSettled = false) : Doomed (tasks.set i (.finished (.error .cancelled))) c := by
  have hmem : Task.finished (.error .cancelled) ∈ tasks.set i (.finished (.error .cancelled)) :=
    List.mem_set (List.getElem?_eq_some_iff.1 ht).1 _
  cases c with
  | listing n =>
      obtain ⟨-, rfl⟩ := h
      simp at ht
  | scanning n =>
      obtain ⟨-, rfl, -⟩ := h
      simp at ht
  | submitting => exact hmem
  | reading read => exact hmem
  | withdrawing n => trivial
  | leaving r => exact h.2.resolve_right fun hdone => not_all_done ht hopen hdone.2
  | returned r => exact Or.resolve_right h fun hdone => not_all_done ht hopen hdone.2

theorem sound_set {files : List ι} {tasks : List (Task α)} {i : Nat} {x : ι} {t' : Task α}
    (h : ∀ (i : Nat) (t : Task α), tasks[i]? = some t → ∃ x, files[i]? = some x ∧ t.Sound (found x))
    (hx : files[i]? = some x) (ht' : t'.Sound (found x)) (j : Nat) (u : Task α)
    (hu : (tasks.set i t')[j]? = some u) : ∃ x, files[j]? = some x ∧ u.Sound (found x) := by
  by_cases hij : i = j
  · subst hij
    have hlt : i < tasks.length := by simpa using (List.getElem?_eq_some_iff.1 hu).1
    rw [List.getElem?_set_self hlt] at hu
    exact ⟨x, hx, Option.some.inj hu ▸ ht'⟩
  · rw [List.getElem?_set_ne hij] at hu
    exact h j u hu

theorem sound_submit {files : List ι} {tasks : List (Task α)}
    (h : ∀ (i : Nat) (t : Task α), tasks[i]? = some t → ∃ x, files[i]? = some x ∧ t.Sound (found x))
    (hlt : tasks.length < files.length) (i : Nat) (t : Task α)
    (ht : (tasks ++ [.queued])[i]? = some t) : ∃ x, files[i]? = some x ∧ t.Sound (found x) := by
  rcases Nat.lt_or_ge i tasks.length with hi | hi
  · rw [List.getElem?_append_left hi] at ht
    exact h i t ht
  · rw [List.getElem?_append_right hi] at ht
    have hlast := (List.getElem?_eq_some_iff.1 ht).1
    rw [List.length_singleton] at hlast
    refine ⟨_, List.getElem?_eq_getElem (by omega), ?_⟩
    rw [List.mem_singleton.1 (List.mem_of_getElem? ht)]
    trivial

/-- What is known is known after a step of a task as well. -/
theorem Sound.set {i : Nat} {x : ι} {t t' : Task α} (h : S.Sound listed m found s)
    (ht : s.tasks[i]? = some t) (hopen : t.isSettled = false) (hx : s.files[i]? = some x)
    (ht' : t'.Sound (found x)) (hnot : t' ≠ .withdrawn) :
    S.Sound listed m found { s with tasks := s.tasks.set i t' } :=
  ⟨sound_set h.tasks hx ht', h.caller.set ht hopen hnot⟩

/-! ## One step -/

theorem done_prefix_append {tasks : List (Task α)} {read : List α} {b : α}
    (h : read.map Task.done <+: tasks) (hb : tasks[read.length]? = some (.finished (.ok b))) :
    (read ++ [b]).map Task.done <+: tasks := by
  obtain ⟨rest, rfl⟩ := h
  rw [List.getElem?_append_right (Nat.le_of_eq (List.length_map _)), List.length_map, Nat.sub_self] at hb
  obtain ⟨rest', rfl⟩ : ∃ rest', rest = Task.done b :: rest' := by
    cases rest with
    | nil => simp at hb
    | cons t rest => exact ⟨rest, by rw [Option.some.inj hb]; rfl⟩
  exact ⟨rest', by simp⟩

/-- When all results are read, all tasks found something. -/
theorem all_done_of_prefix {tasks : List (Task α)} {read : List α}
    (h : read.map Task.done <+: tasks) (hall : read.length = tasks.length) :
    ∀ t ∈ tasks, ∃ a, t = Task.done a := by
  have htasks : read.map Task.done = tasks := h.eq_of_length (by rw [List.length_map, hall])
  intro t ht
  obtain ⟨a, -, rfl⟩ := List.mem_map.1 (htasks ▸ ht)
  exact ⟨a, rfl⟩

theorem Sound.fits {c : Caller α γ} (h : S.Sound listed m found s) (hcaller : s.caller = c) :
    S.Fits listed m found s.files s.tasks c := hcaller ▸ h.caller

/-- Every result that the caller has read is that of its file. -/
theorem Sound.read_eq {read : List α} (h : S.Sound listed m found s)
    (hread : read.map Task.done <+: s.tasks) (hlength : read.length = s.files.length) :
    read = s.files.map found := by
  refine List.ext_getElem? fun i => ?_
  rw [List.getElem?_map]
  cases hi : read[i]? with
  | none =>
      have hle : s.files.length ≤ i := hlength ▸ List.getElem?_eq_none_iff.1 hi
      rw [List.getElem?_eq_none_iff.2 hle, Option.map_none]
  | some a =>
      have htask : s.tasks[i]? = some (Task.done a) := by
        obtain ⟨rest, hrest⟩ := hread
        have hlt : i < (read.map Task.done).length := by
          rw [List.length_map]
          exact (List.getElem?_eq_some_iff.1 hi).1
        rw [← hrest, List.getElem?_append_left hlt, List.getElem?_map, hi, Option.map_some]
      obtain ⟨x, hx, ha | ha⟩ := h.tasks i _ htask
      · rw [hx, Option.map_some, Except.ok.inj ha]
      · cases ha

/-- **What is known of a search is known after every step.** -/
theorem Sound.step (hS : S.Regular listed m found) (h : S.Sound listed m found s)
    (hstep : S.Step s a s') : S.Sound listed m found s' := by
  cases hstep with
  | cancel => exact ⟨h.tasks, h.caller⟩
  | @list_passes n hcaller hlt hcancelled =>
      obtain ⟨-, htasks⟩ := h.fits hcaller
      exact ⟨h.tasks, hS.list_polls ▸ hlt, htasks⟩
  | @list_stops n e hcaller hlt hcancelled hstopped =>
      rw [hS.list.outcome_of_lt (hS.list_polls ▸ hlt)] at hstopped
      exact ⟨h.tasks, Or.inl (congrArg _ (Except.error.inj hstopped).symm)⟩
  | @list_fails n e hcaller hle hfails =>
      obtain ⟨-, htasks⟩ := h.fits hcaller
      rw [hS.list.gives.outcome] at hfails
      refine ⟨h.tasks, Or.inr ⟨by rw [hfails]; rfl, ?_⟩⟩
      rw [htasks]
      simp
  | @listed n files hcaller hle hlisted =>
      obtain ⟨-, htasks⟩ := h.fits hcaller
      rw [hS.list.gives.outcome] at hlisted
      refine ⟨by simp [htasks], ?_⟩
      show S.Fits _ m found files s.tasks (if S.workers = 1 ∨ files.length < 2 then _ else _)
      split
      · exact ⟨hlisted, htasks, Nat.zero_le _⟩
      · exact ⟨hlisted, by simp [htasks]⟩
  | @scan_passes n hcaller hlt hcancelled =>
      obtain ⟨hlisted, htasks, -⟩ := h.fits hcaller
      exact ⟨h.tasks, hlisted, htasks, hS.scan_polls s.files ▸ hlt⟩
  | @scan_stops n hcaller hlt hcancelled =>
      refine ⟨h.tasks, Or.inl ?_⟩
      rw [(hS.scan s.files).outcome_of_lt (hS.scan_polls s.files ▸ hlt)]
      rfl
  | @scanned n hcaller hle =>
      obtain ⟨hlisted, htasks, -⟩ := h.fits hcaller
      refine ⟨h.tasks, Or.inr ⟨?_, by simp [htasks]⟩⟩
      rw [(hS.scan s.files).gives.outcome, goal, hlisted]
      rfl
  | submit hcaller hlt =>
      obtain ⟨hlisted, hnot⟩ := h.fits hcaller
      refine ⟨sound_submit h.tasks hlt, ?_⟩
      show S.Fits _ m found s.files (s.tasks ++ [.queued]) s.caller
      rw [hcaller]
      exact ⟨hlisted, by simpa using hnot⟩
  | submitted hcaller hlength =>
      obtain ⟨hlisted, hnot⟩ := h.fits hcaller
      exact ⟨h.tasks, hlisted, hlength, hnot, List.nil_prefix⟩
  | @start i hqueued hbusy =>
      obtain ⟨x, hx, -⟩ := h.tasks i _ hqueued
      exact h.set hqueued rfl hx (Nat.zero_le 1) nofun
  | @task_passes i n x hrunning hx hlt hcancelled =>
      rw [hS.job_polls x] at hlt
      exact h.set hrunning rfl hx hlt nofun
  | @task_stops i n x hrunning hx hlt hcancelled =>
      refine h.set hrunning rfl hx (Or.inr ?_) nofun
      exact (hS.job x).outcome_of_lt (hS.job_polls x ▸ hlt)
  | @task_finishes i n x hrunning hx hle =>
      exact h.set hrunning rfl hx (Or.inl (hS.job x).gives.outcome) nofun
  | @read read b hcaller hread =>
      obtain ⟨hlisted, hlength, hnot, hprefix⟩ := h.fits hcaller
      exact ⟨h.tasks, hlisted, hlength, hnot, done_prefix_append hprefix hread⟩
  | @read_cancelled read hcaller hread =>
      obtain ⟨hlisted, hlength, -⟩ := h.fits hcaller
      exact ⟨h.tasks, hlisted, hlength⟩
  | @read_failed read e hcaller hread hne =>
      obtain ⟨x, -, he | he⟩ := h.tasks _ _ hread
      · cases he
      · exact absurd (Except.error.inj he) hne
  | @read_all read hcaller hall =>
      obtain ⟨hlisted, hlength, -, hprefix⟩ := h.fits hcaller
      refine ⟨h.tasks, hlisted, Or.inr ⟨?_, ?_⟩⟩
      · rw [h.read_eq hprefix (hall.trans hlength)]
      · exact all_done_of_prefix hprefix hall
  | @withdraw i hcaller hqueued =>
      obtain ⟨hlisted, hlength⟩ := h.fits hcaller
      obtain ⟨x, hx, -⟩ := h.tasks i _ hqueued
      exact ⟨sound_set h.tasks hx trivial, hlisted, by rw [List.length_set, hlength]⟩
  | @withdraw_started i t hcaller ht hne => exact ⟨h.tasks, (h.fits hcaller : S.Fits _ m found _ _ (.withdrawing i))⟩
  | @withdrawn i hcaller hle =>
      obtain ⟨hlisted, -⟩ := h.fits hcaller
      exact ⟨h.tasks, hlisted, Or.inl rfl⟩
  | @leave r hcaller hsettled =>
      obtain ⟨hlisted, hr⟩ := h.fits hcaller
      refine ⟨h.tasks, hr.imp (fun hr => by rw [hr]; rfl) fun hr => ⟨?_, hr.2⟩⟩
      rw [hr.1, goal, hlisted]
      rfl

theorem Step.cancelled_iff (hstep : S.Step s a s') :
    s'.cancelled = true ↔ s.cancelled = true ∨ a = .cancel := by
  cases hstep <;> simp

/-- **A poll that finds the token set dooms the search, and nothing else does.** -/
theorem Sound.doomed_iff (hS : S.Regular listed m found) (h : S.Sound listed m found s)
    (hstep : S.Step s a s') : Doomed s'.tasks s'.caller ↔
      Doomed s.tasks s.caller ∨ s.cancelled = true ∧ ∃ task, a = .poll task := by
  -- a step that is no poll, or finds the token unset
  have hquiet : ∀ {P Q : Prop}, (P ↔ Q) → ¬ (s.cancelled = true ∧ ∃ task, a = .poll task) →
      (P ↔ Q ∨ s.cancelled = true ∧ ∃ task, a = .poll task) := fun hiff hnot =>
    hiff.trans (or_iff_left hnot).symm
  cases hstep with
  | cancel => exact hquiet Iff.rfl (by simp)
  | list_passes hcaller hlt hcancelled =>
      rw [hcaller]
      exact hquiet Iff.rfl (by simp [hcancelled])
  | list_stops hcaller hlt hcancelled hstopped =>
      rw [hS.list.outcome_of_lt (hS.list_polls ▸ hlt)] at hstopped
      refine iff_of_true ?_ (Or.inr ⟨hcancelled, none, rfl⟩)
      exact congrArg _ (Except.error.inj hstopped).symm
  | @list_fails n e hcaller hle hfails =>
      rw [hS.list.gives.outcome] at hfails
      have hne : Except.error e ≠ (.error .cancelled : Except Failure γ) := by
        intro he
        exact hS.listed_ne (by rw [hfails, Except.error.inj he])
      rw [hcaller]
      exact hquiet (iff_of_false hne id) (by simp)
  | listed hcaller hle hlisted =>
      obtain ⟨-, htasks⟩ := h.fits hcaller
      refine hquiet ?_ (by simp)
      rw [hcaller, htasks]
      split
      · exact Iff.rfl
      · exact iff_of_false List.not_mem_nil id
  | scan_passes hcaller hlt hcancelled =>
      rw [hcaller]
      exact hquiet Iff.rfl (by simp [hcancelled])
  | scan_stops hcaller hlt hcancelled =>
      refine iff_of_true ?_ (Or.inr ⟨hcancelled, none, rfl⟩)
      rw [(hS.scan s.files).outcome_of_lt (hS.scan_polls s.files ▸ hlt)]
      rfl
  | scanned hcaller hle =>
      rw [hcaller, (hS.scan s.files).gives.outcome]
      exact hquiet (iff_of_false nofun id) (by simp)
  | submit hcaller hlt =>
      refine hquiet ?_ (by simp)
      rw [hcaller]
      simp [Doomed]
  | submitted hcaller hlength =>
      rw [hcaller]
      exact hquiet Iff.rfl (by simp)
  | start hqueued hbusy => exact hquiet (doomed_set_iff hqueued rfl nofun) (by simp)
  | task_passes hrunning hx hlt hcancelled =>
      exact hquiet (doomed_set_iff hrunning rfl nofun) (by simp [hcancelled])
  | @task_stops i n x hrunning hx hlt hcancelled =>
      refine iff_of_true ?_ (Or.inr ⟨hcancelled, some i, rfl⟩)
      rw [(hS.job x).outcome_of_lt (hS.job_polls x ▸ hlt)]
      exact h.caller.doomed_set hrunning rfl
  | @task_finishes i n x hrunning hx hle =>
      rw [(hS.job x).gives.outcome]
      exact hquiet (doomed_set_iff hrunning rfl nofun) (by simp)
  | read hcaller hread =>
      rw [hcaller]
      exact hquiet Iff.rfl (by simp)
  | read_cancelled hcaller hread =>
      rw [hcaller]
      exact hquiet (iff_of_true trivial (List.mem_of_getElem? hread)) (by simp)
  | read_failed hcaller hread hne =>
      obtain ⟨x, -, he | he⟩ := h.tasks _ _ hread
      · cases he
      · exact absurd (Except.error.inj he) hne
  | read_all hcaller hall =>
      obtain ⟨-, -, -, hprefix⟩ := h.fits hcaller
      rw [hcaller]
      refine hquiet (iff_of_false nofun fun hmem => ?_) (by simp)
      obtain ⟨b, hb⟩ := all_done_of_prefix hprefix hall _ hmem
      cases hb
  | withdraw hcaller hqueued =>
      rw [hcaller]
      exact hquiet Iff.rfl (by simp)
  | withdraw_started hcaller ht hne =>
      rw [hcaller]
      exact hquiet Iff.rfl (by simp)
  | withdrawn hcaller hle =>
      rw [hcaller]
      exact hquiet (iff_of_true rfl trivial) (by simp)
  | @leave r hcaller hsettled =>
      refine hquiet ?_ (by simp)
      rw [hcaller]
      cases r <;> simp [Doomed, Except.map]

/-! ## No schedule goes on for ever -/

/-- How many steps a task may still take. -/
def Task.rank : Task α → Nat
  | .queued => 3
  | .running n => 2 - n
  | .finished _ | .withdrawn => 0

/-- How many steps the caller may still take, and the tasks that it will yet hand to the pool, among
`size` files whose listing polls `m` times. -/
def Caller.rank (size m : Nat) (tasks : List (Task α)) : Caller α γ → Nat
  | .listing n => m - n + 6 * size + 5
  | .scanning n => size - n + 1
  | .submitting => 4 * (size - tasks.length) + 2 * size + 4
  | .reading read => size - read.length + size + 3
  | .withdrawing i => size - i + 2
  | .leaving _ => 1
  | .returned _ => 0

/-- How many steps are left, besides the setting of the token. -/
def State.rank (size m : Nat) (s : State ι α γ) : Nat :=
  s.caller.rank size m s.tasks + (s.tasks.map Task.rank).sum

theorem sum_rank_set {tasks : List (Task α)} {i : Nat} {t : Task α} (ht : tasks[i]? = some t)
    (t' : Task α) :
    ((tasks.set i t').map Task.rank).sum + t.rank = (tasks.map Task.rank).sum + t'.rank := by
  induction tasks generalizing i with
  | nil => simp at ht
  | cons u tasks ih =>
      cases i with
      | zero =>
          obtain rfl : u = t := Option.some.inj ht
          simp only [List.set_cons_zero, List.map_cons, List.sum_cons]
          omega
      | succ i =>
          have hrest := @ih i (by simpa using ht)
          simp only [List.set_cons_succ, List.map_cons, List.sum_cons]
          omega

theorem Caller.rank_set {size m : Nat} {tasks : List (Task α)} {i : Nat} {t : Task α}
    (c : Caller α γ) : c.rank size m (tasks.set i t) = c.rank size m tasks := by
  cases c <;> simp [rank]

/-- A step of a task that comes nearer to its end. -/
theorem rank_set_lt {size m i : Nat} {t t' : Task α} (ht : s.tasks[i]? = some t)
    (hlt : t'.rank < t.rank) :
    State.rank size m { s with tasks := s.tasks.set i t' } < s.rank size m := by
  have hsum := sum_rank_set ht t'
  simp only [State.rank, Caller.rank_set]
  omega

/-- A step of the caller that leaves the tasks as they are. -/
theorem rank_caller_lt {size m : Nat} {c c' : Caller α γ} {files : List ι} (hcaller : s.caller = c)
    (hlt : c'.rank size m s.tasks < c.rank size m s.tasks) :
    State.rank size m { s with files := files, caller := c' } < s.rank size m := by
  simp only [State.rank, hcaller]
  omega

/-- How many files there are, as far as they can be listed. -/
def sizeOf : Except Failure (List ι) → Nat
  | .ok files => files.length
  | .error _ => 0

/-- **Every step but the setting of the token brings the search nearer to its end.** -/
theorem Sound.rank_lt (hS : S.Regular listed m found) (h : S.Sound listed m found s)
    (hstep : S.Step s a s') (ha : a ≠ .cancel) :
    s'.rank (sizeOf listed) m < s.rank (sizeOf listed) m := by
  cases hstep with
  | cancel => exact absurd rfl ha
  | @list_passes n hcaller hlt hcancelled =>
      rw [hS.list_polls] at hlt
      refine rank_caller_lt hcaller ?_
      simp only [Caller.rank]
      omega
  | list_stops hcaller hlt hcancelled hstopped =>
      exact rank_caller_lt hcaller (Nat.succ_pos _)
  | list_fails hcaller hle hfails => exact rank_caller_lt hcaller (Nat.succ_pos _)
  | @listed n files hcaller hle hlisted =>
      obtain ⟨-, htasks⟩ := h.fits hcaller
      refine rank_caller_lt hcaller ?_
      split
      · simp only [Caller.rank]
        omega
      · simp only [Caller.rank]
        omega
  | @scan_passes n hcaller hlt hcancelled =>
      obtain ⟨rfl, -, -⟩ := h.fits hcaller
      rw [hS.scan_polls] at hlt
      refine rank_caller_lt hcaller ?_
      simp only [Caller.rank, sizeOf]
      omega
  | scan_stops hcaller hlt hcancelled => exact rank_caller_lt hcaller (Nat.succ_pos _)
  | scanned hcaller hle => exact rank_caller_lt hcaller (Nat.succ_pos _)
  | submit hcaller hlt =>
      obtain ⟨rfl, -⟩ := h.fits hcaller
      simp only [State.rank, hcaller, Caller.rank, sizeOf, List.length_append, List.length_singleton,
        List.map_append, List.sum_append, List.map_singleton, List.sum_singleton, Task.rank]
      omega
  | submitted hcaller hlength =>
      refine rank_caller_lt hcaller ?_
      simp only [Caller.rank, List.length_nil]
      omega
  | start hqueued hbusy => exact rank_set_lt hqueued (Nat.lt_succ_self 2)
  | @task_passes i n x hrunning hx hlt hcancelled =>
      rw [hS.job_polls] at hlt
      refine rank_set_lt hrunning ?_
      simp only [Task.rank]
      omega
  | @task_stops i n x hrunning hx hlt hcancelled =>
      rw [hS.job_polls] at hlt
      refine rank_set_lt hrunning ?_
      simp only [Task.rank]
      omega
  | @task_finishes i n x hrunning hx hle =>
      obtain ⟨y, -, hsound⟩ := h.tasks i _ hrunning
      have hn : n ≤ 1 := hsound
      refine rank_set_lt hrunning ?_
      simp only [Task.rank]
      omega
  | @read read b hcaller hread =>
      obtain ⟨rfl, hlength, -⟩ := h.fits hcaller
      have hlt := (List.getElem?_eq_some_iff.1 hread).1
      refine rank_caller_lt hcaller ?_
      simp only [Caller.rank, sizeOf, List.length_append, List.length_singleton]
      omega
  | read_cancelled hcaller hread =>
      refine rank_caller_lt hcaller ?_
      simp only [Caller.rank]
      omega
  | read_failed hcaller hread hne =>
      refine rank_caller_lt hcaller ?_
      simp only [Caller.rank]
      omega
  | read_all hcaller hall =>
      refine rank_caller_lt hcaller ?_
      simp only [Caller.rank]
      omega
  | @withdraw i hcaller hqueued =>
      have hsum := sum_rank_set hqueued .withdrawn
      simp only [State.rank, hcaller, Caller.rank, Task.rank] at hsum ⊢
      omega
  | @withdraw_started i t hcaller ht hne =>
      obtain ⟨rfl, hlength⟩ := h.fits hcaller
      have hlt := (List.getElem?_eq_some_iff.1 ht).1
      refine rank_caller_lt hcaller ?_
      simp only [Caller.rank, sizeOf]
      omega
  | withdrawn hcaller hle =>
      refine rank_caller_lt hcaller ?_
      simp only [Caller.rank]
      omega
  | leave hcaller hsettled => exact rank_caller_lt hcaller Nat.one_pos

/-! ## No schedule is stuck -/

/-- A task that is not settled, or one that keeps it waiting, can take a step. -/
theorem Sound.exists_task_step (hworkers : 1 ≤ S.workers)
    (h : S.Sound listed m found s) {t : Task α} (ht : t ∈ s.tasks) (hopen : t.isSettled = false) :
    ∃ a s', S.Step s a s' ∧ a ≠ .cancel := by
  -- a task that runs polls or finishes
  have hrunning : ∀ u ∈ s.tasks, u.isRunning = true → ∃ a s', S.Step s a s' ∧ a ≠ .cancel := by
    intro u hu hrun
    obtain ⟨i, hi⟩ := List.mem_iff_getElem?.1 hu
    cases u with
    | running n =>
        obtain ⟨x, hx, -⟩ := h.tasks i _ hi
        rcases Nat.lt_or_ge n (S.job x).polls with hlt | hle
        · cases hcancelled : s.cancelled with
          | true => exact ⟨_, _, .task_stops hi hx hlt hcancelled, nofun⟩
          | false => exact ⟨_, _, .task_passes hi hx hlt hcancelled, nofun⟩
        · exact ⟨_, _, .task_finishes hi hx hle, nofun⟩
    | _ => exact Bool.noConfusion hrun
  obtain ⟨i, hi⟩ := List.mem_iff_getElem?.1 ht
  cases t with
  | running n => exact hrunning _ ht rfl
  | queued =>
      obtain ⟨x, hx, -⟩ := h.tasks i _ hi
      have hfiles : 0 < s.files.length := Nat.zero_lt_of_lt (List.getElem?_eq_some_iff.1 hx).1
      rcases Nat.lt_or_ge (s.tasks.countP Task.isRunning) (min S.workers s.files.length) with hlt | hle
      · exact ⟨_, _, .start hi hlt, nofun⟩
      · -- every worker is busy, so there is a task that runs
        obtain ⟨u, hu, hrun⟩ := List.countP_pos_iff.1
          (Nat.lt_of_lt_of_le (Nat.lt_min.2 ⟨hworkers, hfiles⟩) hle)
        exact hrunning u hu hrun
  | finished r => exact Bool.noConfusion hopen
  | withdrawn => exact Bool.noConfusion hopen

/-- **A search that has not returned can take a step.** -/
theorem Sound.progress (hS : S.Regular listed m found) (hworkers : 1 ≤ S.workers)
    (h : S.Sound listed m found s) :
    (∃ r, s.caller = .returned r) ∨ ∃ a s', S.Step s a s' ∧ a ≠ .cancel := by
  cases hcaller : s.caller with
  | returned r => exact Or.inl ⟨r, rfl⟩
  | listing n =>
      refine Or.inr ?_
      rcases Nat.lt_or_ge n S.list.polls with hlt | hle
      · cases hcancelled : s.cancelled with
        | true =>
            have hstopped := hS.list.outcome_of_lt (hS.list_polls ▸ hlt)
            exact ⟨_, _, .list_stops hcaller hlt hcancelled hstopped, nofun⟩
        | false => exact ⟨_, _, .list_passes hcaller hlt hcancelled, nofun⟩
      · cases hlisted : (S.list.outcome none).1 with
        | error e => exact ⟨_, _, .list_fails hcaller hle hlisted, nofun⟩
        | ok files => exact ⟨_, _, .listed hcaller hle hlisted, nofun⟩
  | scanning n =>
      refine Or.inr ?_
      rcases Nat.lt_or_ge n (Lookup.polls (s.files.mapM S.job)) with hlt | hle
      · cases hcancelled : s.cancelled with
        | true => exact ⟨_, _, .scan_stops hcaller hlt hcancelled, nofun⟩
        | false => exact ⟨_, _, .scan_passes hcaller hlt hcancelled, nofun⟩
      · exact ⟨_, _, .scanned hcaller hle, nofun⟩
  | submitting =>
      refine Or.inr ?_
      rcases Nat.lt_trichotomy s.tasks.length s.files.length with hlt | heq | hgt
      · exact ⟨_, _, .submit hcaller hlt, nofun⟩
      · exact ⟨_, _, .submitted hcaller heq, nofun⟩
      · obtain ⟨x, hx, -⟩ := h.tasks _ _ (List.getElem?_eq_getElem hgt)
        simp at hx
  | reading read =>
      refine Or.inr ?_
      obtain ⟨-, -, hnot, hprefix⟩ := h.fits hcaller
      cases hnext : s.tasks[read.length]? with
      | none =>
          have hle := hprefix.length_le
          rw [List.length_map] at hle
          have hall := Nat.le_antisymm hle (List.getElem?_eq_none_iff.1 hnext)
          exact ⟨_, _, .read_all hcaller hall, nofun⟩
      | some t =>
          have hmem := List.mem_of_getElem? hnext
          cases t with
          | queued => exact h.exists_task_step hworkers hmem rfl
          | running n => exact h.exists_task_step hworkers hmem rfl
          | withdrawn => exact absurd hmem hnot
          | finished r =>
              obtain ⟨x, -, rfl | rfl⟩ := h.tasks _ _ hnext
              · exact ⟨_, _, .read hcaller hnext, nofun⟩
              · exact ⟨_, _, .read_cancelled hcaller hnext, nofun⟩
  | withdrawing i =>
      refine Or.inr ?_
      cases hnext : s.tasks[i]? with
      | none => exact ⟨_, _, .withdrawn hcaller (List.getElem?_eq_none_iff.1 hnext), nofun⟩
      | some t =>
          cases t with
          | queued => exact ⟨_, _, .withdraw hcaller hnext, nofun⟩
          | _ => exact ⟨_, _, .withdraw_started hcaller hnext nofun, nofun⟩
  | leaving r =>
      refine Or.inr ?_
      by_cases hsettled : ∀ t ∈ s.tasks, t.isSettled = true
      · exact ⟨_, _, .leave hcaller hsettled, nofun⟩
      · obtain ⟨t, ht, hopen⟩ : ∃ t ∈ s.tasks, t.isSettled = false := by simpa using hsettled
        exact h.exists_task_step hworkers ht hopen

/-! ## Whole schedules -/

/-- **What is known of every state that a schedule leads to.** -/
theorem Reach.sound (hS : S.Regular listed m found) {acts : List Action} (h : S.Reach acts s) :
    S.Sound listed m found s := by
  induction h with
  | initial => exact ⟨by simp [Search.initial], Nat.zero_le m, rfl⟩
  | step _ hstep ih => exact ih.step hS hstep

theorem Reach.cancelled_iff {acts : List Action} (h : S.Reach acts s) :
    s.cancelled = true ↔ .cancel ∈ acts := by
  induction h with
  | initial => simp [Search.initial]
  | step _ hstep ih => rw [hstep.cancelled_iff, ih, List.mem_append, List.mem_singleton, eq_comm]

theorem Reach.rank_le (hS : S.Regular listed m found) {acts : List Action} (h : S.Reach acts s) :
    acts.countP (· ≠ .cancel) + s.rank (sizeOf listed) m ≤ m + 6 * sizeOf listed + 5 := by
  induction h with
  | initial => simp [Search.initial, State.rank, Caller.rank]
  | @step acts s a s' hreach hstep ih =>
      rw [List.countP_append]
      by_cases ha : a = .cancel
      · subst ha
        cases hstep
        exact ih
      · have hcount : [a].countP (· ≠ .cancel) = 1 := by simp [ha]
        have hlt := (hreach.sound hS).rank_lt hS hstep ha
        rw [hcount]
        omega

/-- A poll after the token was set, in a schedule that goes on. -/
theorem struck_append_iff {acts : List Action} {a : Action} :
    (∃ task, List.Sublist [.cancel, .poll task] (acts ++ [a])) ↔
      (∃ task, List.Sublist [.cancel, .poll task] acts) ∨
        .cancel ∈ acts ∧ ∃ task, a = .poll task := by
  constructor
  · rintro ⟨task, h⟩
    obtain ⟨front, back, hsplit, hfront, hback⟩ := List.sublist_append_iff.1 h
    rcases List.sublist_singleton.1 hback with rfl | rfl
    · rw [List.append_nil] at hsplit
      exact Or.inl ⟨task, hsplit ▸ hfront⟩
    · have hpair : [Action.cancel] ++ [.poll task] = front ++ [a] := hsplit
      obtain ⟨rfl, ha⟩ := List.append_inj' hpair rfl
      exact Or.inr ⟨List.singleton_sublist.1 hfront, task, (List.singleton_inj.1 ha).symm⟩
  · rintro (⟨task, h⟩ | ⟨hmem, task, rfl⟩)
    · exact ⟨task, h.trans (List.sublist_append_left _ _)⟩
    · exact ⟨task, (List.singleton_sublist.2 hmem).append_right [.poll task]⟩

theorem Reach.doomed_iff (hS : S.Regular listed m found) {acts : List Action} (h : S.Reach acts s) :
    Doomed s.tasks s.caller ↔ ∃ task, List.Sublist [.cancel, .poll task] acts := by
  induction h with
  | initial => simp [Search.initial, Doomed]
  | step hreach hstep ih =>
      rw [(hreach.sound hS).doomed_iff hS hstep, ih, hreach.cancelled_iff, struck_append_iff]

/-- **A search on a pool does what the search in turn does**, whatever the number of workers and under
every schedule. -/
theorem Regular.refines_inTurn (hS : S.Regular listed m found) (hworkers : 1 ≤ S.workers) :
    S.Refines S.inTurn := by
  have houtcome : ∀ acts s r, S.Reach acts s → s.caller = .returned r →
      r = .error .cancelled ∨ r = (S.inTurn.outcome none).1 := by
    intro acts s r hreach hreturned
    rw [hS.inTurn]
    exact ((hreach.sound hS).fits hreturned).imp_right And.left
  have hcancelled : ∀ acts s r, S.Reach acts s → s.caller = .returned r →
      (r = .error .cancelled ↔ ∃ task, List.Sublist [.cancel, .poll task] acts) := by
    intro acts s r hreach hreturned
    have hdoomed := hreach.doomed_iff hS
    rwa [hreturned] at hdoomed
  refine ⟨⟨m + 6 * sizeOf listed + 5, ?_⟩, ?_, houtcome, ?_, hcancelled⟩
  · intro acts s hreach
    exact Nat.le_trans (Nat.le_add_right _ _) (hreach.rank_le hS)
  · intro acts s hreach
    exact (hreach.sound hS).progress hS hworkers
  · intro acts s r hreach hreturned hnot
    refine (houtcome acts s r hreach hreturned).resolve_left fun hr => ?_
    obtain ⟨task, hsublist⟩ := (hcancelled acts s r hreach hreturned).1 hr
    exact hnot (hsublist.subset List.mem_cons_self)

end Search

end ServiceKeys
