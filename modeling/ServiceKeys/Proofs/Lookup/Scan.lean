import ServiceKeys.Proofs.Lookup.Engine
import ServiceKeys.Proofs.Path.Normal

/-!
# The files of a scan

A scan of a directory succeeds unless the directory cannot be asked about, and that has one cause: a
component on the way to it is longer than a name can be.  What the scan yields lies below the
directory, under names of the tree; in a tree with proper names, seen from a proper working
directory, every file is therefore yielded in absolute form.
-/

namespace ServiceKeys

open Lookup

/-! ## What can be asked -/

namespace FileTree

/-- The causes for which following a path ends. -/
def reachCauses : List AccessCause := [.notFound, .notDirectory, .nameTooLong, .linkLoop]

theorem mem_reachCauses_of_reachWith {t : FileTree}
    {follow : List String → List String → Except AccessCause Reached}
    (hfollow : ∀ place parts cause, follow place parts = .error cause → cause ∈ reachCauses)
    {parts place : List String} {cause : AccessCause}
    (h : t.reachWith follow place parts = .error cause) : cause ∈ reachCauses := by
  -- the cases of a component: a dot, double dots, an overlong name, and the entries it can have
  induction parts generalizing place with
  | nil => simp [reachWith] at h
  | cons part rest ih =>
      rw [reachWith] at h
      split at h
      · exact ih h
      · split at h
        · exact ih h
        · split at h
          · cases h
            decide
          · dsimp only at h
            split at h
            · cases h
              decide
            · exact ih h
            · split at h
              · simp at h
              · cases h
                decide
            · exact hfollow _ _ _ h

theorem mem_reachCauses_of_reachFrom {t : FileTree} {n : Nat} {place parts : List String}
    {cause : AccessCause} (h : t.reachFrom n place parts = .error cause) : cause ∈ reachCauses := by
  induction n generalizing place parts cause with
  | zero =>
      refine mem_reachCauses_of_reachWith ?_ h
      intro place parts cause h
      cases h
      decide
  | succ n ih => exact mem_reachCauses_of_reachWith (fun place parts cause h => ih h) h

/-- **A question about a path fails only for a name that is too long.** -/
theorem cause_of_asks {t : FileTree} {sort : ServiceKeys.Entry → Bool} {p : Path} {e : AccessError}
    (h : t.asks sort p = .error e) : e.cause = .nameTooLong := by
  rw [asks] at h
  split at h
  · simp at h
  · rename_i e' hreach
    split at h
    · simp at h
    · rename_i habsent
      obtain rfl : e' = e := Except.error.inj h
      have hcause : e'.cause ∈ reachCauses := by
        rw [reach] at hreach
        cases hfrom : t.reachFrom linkLimit [] p.parts with
        | ok r => simp [hfrom, Except.mapError] at hreach
        | error cause =>
            rw [hfrom] at hreach
            obtain rfl : (⟨cause, p⟩ : AccessError) = e' := Except.error.inj hreach
            exact mem_reachCauses_of_reachFrom hfrom
      have hall : ∀ cause ∈ reachCauses, cause.meansAbsent = false → cause = .nameTooLong := by decide
      exact hall _ hcause (by simpa using habsent)

theorem reachWith_congr {t t' : FileTree} (h : ∀ place, t.entryAt? place = t'.entryAt? place)
    (follow : List String → List String → Except AccessCause Reached) (parts place : List String) :
    t.reachWith follow place parts = t'.reachWith follow place parts := by
  induction parts generalizing place with
  | nil => rfl
  | cons part rest ih => simp only [reachWith, ih, h]

/-- What a path leads to is a matter of the entries. -/
theorem reachFrom_congr {t t' : FileTree} (h : ∀ place, t.entryAt? place = t'.entryAt? place)
    (n : Nat) : t.reachFrom n = t'.reachFrom n := by
  induction n with
  | zero => exact funext fun place => funext fun parts => reachWith_congr h _ parts place
  | succ n ih =>
      rw [reachFrom, reachFrom, ih]
      exact funext fun place => funext fun parts => reachWith_congr h _ parts place

theorem reach_congr {t t' : FileTree} (h : ∀ place, t.entryAt? place = t'.entryAt? place) (p : Path) :
    t.reach p = t'.reach p := by
  rw [reach, reach, reachFrom_congr h]

theorem asks_congr {t t' : FileTree} (h : ∀ place, t.entryAt? place = t'.entryAt? place)
    (sort : ServiceKeys.Entry → Bool) (p : Path) : t.asks sort p = t'.asks sort p := by
  rw [asks, asks, reach_congr h]

/-- Where a directory was reached, the rest of a way goes on from it, with some links left to be
followed. -/
theorem exists_reachWith_append {t : FileTree}
    {follow : List String → List String → Except AccessCause Reached} {n : Nat}
    (hself : t.reachWith follow = t.reachFrom n)
    (hfollow : ∀ place parts r, follow place parts = .ok r → r.entry = .directory →
      ∃ m, ∀ more, follow place (parts ++ more) = t.reachFrom m r.place more)
    {parts place : List String} {r : Reached} (h : t.reachWith follow place parts = .ok r)
    (hr : r.entry = .directory) :
    ∃ m, ∀ more, t.reachWith follow place (parts ++ more) = t.reachFrom m r.place more := by
  induction parts generalizing place with
  | nil =>
      obtain rfl : (⟨place, .directory⟩ : Reached) = r := Except.ok.inj h
      exact ⟨n, fun more => by rw [List.nil_append, hself]⟩
  | cons part rest ih =>
      simp only [List.cons_append, reachWith]
      rw [reachWith] at h
      split at h
      · rename_i hdot
        simp only [if_pos hdot]
        exact ih h
      · rename_i hdot
        simp only [if_neg hdot]
        split at h
        · rename_i hdots
          simp only [if_pos hdots]
          exact ih h
        · rename_i hdots
          simp only [if_neg hdots]
          split at h
          · simp at h
          · rename_i hshort
            simp only [if_neg hshort]
            dsimp only at h
            split at h
            · simp at h
            · exact ih h
            · split at h
              · obtain rfl := Except.ok.inj h
                simp at hr
              · simp at h
            · simp only [← List.append_assoc]
              exact hfollow _ _ _ h hr

theorem exists_reachFrom_append {t : FileTree} {n : Nat} {place parts : List String} {r : Reached}
    (h : t.reachFrom n place parts = .ok r) (hr : r.entry = .directory) :
    ∃ m, ∀ more, t.reachFrom n place (parts ++ more) = t.reachFrom m r.place more := by
  induction n generalizing place parts r with
  | zero => exact exists_reachWith_append (n := 0) rfl (fun _ _ _ h => by simp at h) h hr
  | succ n ih => exact exists_reachWith_append (n := n + 1) rfl (fun _ _ _ h hr => ih h hr) h hr

/-- One step from a place: a name that is neither a dot nor double dots. -/
theorem reachFrom_name (t : FileTree) (m : Nat) (place : List String) {name : String}
    (hdot : name ≠ ".") (hdots : name ≠ "..") :
    (nameLimit < name.utf8ByteSize → t.reachFrom m place [name] = .error .nameTooLong) ∧
    (name.utf8ByteSize ≤ nameLimit → t.entryAt? (place ++ [name]) = some .directory →
      t.reachFrom m place [name] = .ok ⟨place ++ [name], .directory⟩) := by
  have hstep : ∀ follow, t.reachWith follow place [name] = _ := fun follow => by
    rw [reachWith, if_neg (by simpa using hdot), if_neg (by simpa using hdots)]
  have hfrom : ∃ follow, t.reachFrom m = t.reachWith follow := by
    cases m with
    | zero => exact ⟨_, rfl⟩
    | succ m => exact ⟨_, rfl⟩
  obtain ⟨follow, hfollow⟩ := hfrom
  constructor
  · intro hlong
    rw [hfollow, hstep, if_pos hlong]
  · intro hshort hentry
    rw [hfollow, hstep, if_neg (Nat.not_lt.2 hshort)]
    simp only [hentry]
    rfl

theorem reachFrom_overlong {t : FileTree} {name : String} (hlong : nameLimit < name.utf8ByteSize) {n : Nat}
    {place parts : List String} {r : Reached} (h : t.reachFrom n place parts = .ok r)
    (hr : r.entry = .directory) :
    t.reachFrom n place (parts ++ [name]) = .error .nameTooLong := by
  have hshort : ∀ short ∈ [".", ".."], name ≠ short := by
    rintro short hshort rfl
    have hall : ∀ short ∈ [".", ".."], short.utf8ByteSize ≤ nameLimit := by decide
    exact absurd (hall _ hshort) (Nat.not_le.2 hlong)
  obtain ⟨m, hm⟩ := exists_reachFrom_append h hr
  rw [hm]
  exact (t.reachFrom_name m r.place (hshort "." (by simp)) (hshort ".." (by simp))).1 hlong

/-- A directory is reached where the answer is yes. -/
theorem exists_reachFrom_of_isDirectory {t : FileTree} {p : Path} (h : t.isDirectory p = .ok true) :
    ∃ r, t.reachFrom linkLimit [] p.parts = .ok r ∧ r.entry = .directory := by
  rw [isDirectory, asks, reach] at h
  cases hfrom : t.reachFrom linkLimit [] p.parts with
  | error cause =>
      rw [hfrom] at h
      dsimp only [Except.mapError] at h
      split at h
      · exact absurd (Except.ok.inj h) Bool.false_ne_true
      · simp at h
  | ok r =>
      rw [hfrom] at h
      have hsort : isDirectoryEntry r.entry = true := Except.ok.inj h
      refine ⟨r, rfl, ?_⟩
      cases hentry : r.entry with
      | directory => rfl
      | _ => simp [hentry, isDirectoryEntry] at hsort

end FileTree

theorem cause_of_isDirectory {w : Workspace} {p : Path} {e : AccessError}
    (h : w.isDirectory p = .error e) : e.cause = .nameTooLong := by
  rw [Workspace.isDirectory, Workspace.asking] at h
  cases hasks : w.tree.isDirectory (w.cwd.join p) with
  | ok b => simp [hasks, Except.mapError] at h
  | error e' =>
      rw [hasks] at h
      obtain rfl : ({ e' with path := p } : AccessError) = e := Except.error.inj h
      show e'.cause = .nameTooLong
      exact FileTree.cause_of_asks hasks

/-- **An overlong name in a directory cannot be asked about.** -/
theorem isDirectory_child_overlong {w : Workspace} {dir : Path} {name : String}
    (habsolute : dir.isAbsolute = true) (hdir : w.isDirectory dir = .ok true)
    (hlong : FileTree.nameLimit < name.utf8ByteSize) :
    w.isDirectory (dir.child name) = .error ⟨.nameTooLong, dir.child name⟩ := by
  have hjoin : w.cwd.join dir = dir := Path.join_of_isAbsolute habsolute
  have hchild : w.cwd.join (dir.child name) = dir.child name := Path.join_of_isAbsolute habsolute
  rw [Workspace.isDirectory, Workspace.asking, hjoin] at hdir
  have htree : w.tree.isDirectory dir = .ok true := mapError_eq_ok_iff.1 hdir
  obtain ⟨r, hr, hentry⟩ := FileTree.exists_reachFrom_of_isDirectory htree
  have hfrom : w.tree.reachFrom FileTree.linkLimit [] (dir.child name).parts = _ :=
    FileTree.reachFrom_overlong hlong hr hentry
  rw [Workspace.isDirectory, Workspace.asking, hchild, FileTree.isDirectory, FileTree.asks,
    FileTree.reach, hfrom]
  rfl

/-! ## What a scan yields -/

/-- The names of a tree. -/
def FileTree.HasName (t : FileTree) (name : String) : Prop := ∃ e ∈ t.entries, name ∈ e.1

/-- A path that leads from a directory along names of the tree. -/
def Workspace.Below (w : Workspace) (dir q : Path) : Prop :=
  q.root = dir.root ∧ ∃ names, q.parts = dir.parts ++ names ∧ ∀ n ∈ names, w.tree.HasName n

theorem Workspace.below_of_child {w : Workspace} {dir q : Path} {name : String}
    (hname : w.tree.HasName name) (h : w.Below (dir.child name) q) : w.Below dir q := by
  obtain ⟨hroot, names, hparts, hnames⟩ := h
  refine ⟨hroot, name :: names, ?_, List.forall_mem_cons.2 ⟨hname, hnames⟩⟩
  rw [hparts, Path.child, List.append_assoc, List.singleton_append]

/-- A directory is listed if it does not refuse and is reached, and its names are those of the entries
one below it. -/
theorem FileTree.list_eq_ok_iff {t : FileTree} {dir : Path}
    {names : List (String × ServiceKeys.Entry)} : t.list dir = .ok names ↔
      t.unlistable dir.parts = false ∧
        ∃ place, t.reach dir = .ok ⟨place, .directory⟩ ∧ names = t.children place := by
  rw [FileTree.list]
  cases t.unlistable dir.parts with
  | true => simp [bind, Except.bind, throw, throwThe, MonadExceptOf.throw]
  | false =>
      cases hreach : t.reach dir with
      | error e => simp [bind, Except.bind]
      | ok r =>
          obtain ⟨place, entry⟩ := r
          cases entry with
          | directory => simp [bind, Except.bind, pure, Except.pure, eq_comm]
          | _ => simp [bind, Except.bind, throw, throwThe, MonadExceptOf.throw]

theorem Workspace.list_eq_ok_iff {w : Workspace} {dir : Path}
    {names : List (String × ServiceKeys.Entry)} : w.list dir = .ok names ↔
      w.tree.unlistable (w.cwd.join dir).parts = false ∧
        ∃ place, w.reach dir = .ok ⟨place, .directory⟩ ∧ names = w.tree.children place := by
  simp only [Workspace.list, Workspace.reach, Workspace.asking, mapError_eq_ok_iff,
    FileTree.list_eq_ok_iff]

theorem exists_place_of_list {w : Workspace} {dir : Path} {names : List (String × ServiceKeys.Entry)}
    (h : w.list dir = .ok names) :
    ∃ place, w.reach dir = .ok ⟨place, .directory⟩ ∧ names = w.tree.children place :=
  (Workspace.list_eq_ok_iff.1 h).2

theorem mem_children {t : FileTree} {place : List String} {name : String} {e : ServiceKeys.Entry} :
    (name, e) ∈ t.children place ↔ (place ++ [name], e) ∈ t.entries := by
  rw [FileTree.children, List.mem_filterMap]
  constructor
  · rintro ⟨⟨q, e'⟩, hentry, hchild⟩
    dsimp only at hchild
    split at hchild
    · rename_i hplace
      obtain ⟨name', hname, heq⟩ := Option.map_eq_some_iff.1 hchild
      obtain ⟨rfl, rfl⟩ := Prod.mk.inj heq
      obtain rfl : q.dropLast = place := by
        rw [Bool.and_eq_true, beq_iff_eq] at hplace
        exact hplace.1
      rwa [List.dropLast_append_getLast? _ hname]
    · simp at hchild
  · intro hentry
    exact ⟨_, hentry, by simp⟩

theorem hasName_of_list {w : Workspace} {dir : Path} {names : List (String × ServiceKeys.Entry)}
    (h : w.list dir = .ok names) : ∀ e ∈ names, w.tree.HasName e.1 := by
  obtain ⟨place, -, rfl⟩ := exists_place_of_list h
  rintro ⟨name, e⟩ he
  exact ⟨_, mem_children.1 he, by simp⟩

namespace Lookup

theorem exists_mapM_below {α β : Type} {f : α → Lookup (List β)} {P : β → Prop} {xs : List α}
    (h : ∀ x ∈ xs, ∃ ys, Gives (f x) (.ok ys) ∧ ∀ y ∈ ys, P y) :
    ∃ yss, Gives (xs.mapM f) (.ok yss) ∧ ∀ y ∈ yss.flatten, P y := by
  induction xs with
  | nil => exact ⟨[], gives_pure _, by simp⟩
  | cons x xs ih =>
      obtain ⟨ys, hys, hP⟩ := h x List.mem_cons_self
      obtain ⟨yss, hyss, hP'⟩ := ih fun z hz => h z (List.mem_cons_of_mem _ hz)
      refine ⟨ys :: yss, ?_, ?_⟩
      · rw [List.mapM_cons]
        exact hys.bind_ok (hyss.bind_ok (gives_pure _))
      · rw [List.flatten_cons]
        exact List.forall_mem_append.2 ⟨hP, hP'⟩

end Lookup

namespace Scan

/-- What one entry contributes: nothing, itself, nothing and a record in the log, or what the descent
into it comes to. -/
theorem ofEntry_cases (s : Scan) (w : Workspace) (descend : Path → Lookup (List Path)) (p : Path)
    (e : ServiceKeys.Entry) :
    s.ofEntry w descend p e = pure [] ∨ s.ofEntry w descend p e = pure [p] ∨
      (∃ message, s.ofEntry w descend p e = Lookup.debug message >>= fun _ => pure []) ∨
      s.ofEntry w descend p e = descend p := by
  have htaken : ∀ accepted : Bool, (if accepted then [p] else []) = [] ∨
      (if accepted then [p] else []) = [p] := by
    intro accepted
    cases accepted
    · exact Or.inl rfl
    · exact Or.inr rfl
  unfold ofEntry
  cases e with
  | directory =>
      dsimp only
      split
      · exact Or.inr (Or.inr (Or.inr rfl))
      · exact Or.inl rfl
  | file bytes =>
      rcases htaken (s.accepts p.name) with h | h
      · exact Or.inl (congrArg pure h)
      · exact Or.inr (Or.inl (congrArg pure h))
  | link target =>
      dsimp only
      split
      · split
        · rcases htaken (s.accepts p.name) with h | h
          · exact Or.inl (congrArg pure h)
          · exact Or.inr (Or.inl (congrArg pure h))
        · exact Or.inl rfl
      · exact Or.inl rfl
      · exact Or.inr (Or.inr (Or.inl ⟨_, rfl⟩))

theorem exists_ofEntry (s : Scan) (w : Workspace) {descend : Path → Lookup (List Path)}
    (hdescend : ∀ dir, ∃ found, Gives (descend dir) (.ok found) ∧ ∀ q ∈ found, w.Below dir q)
    (p : Path) (e : ServiceKeys.Entry) :
    ∃ found, Gives (s.ofEntry w descend p e) (.ok found) ∧ ∀ q ∈ found, w.Below p q := by
  rcases s.ofEntry_cases w descend p e with h | h | ⟨message, h⟩ | h <;> rw [h]
  · exact ⟨[], gives_pure _, by simp⟩
  · exact ⟨[p], gives_pure _, List.forall_mem_singleton.2 ⟨rfl, [], by simp, by simp⟩⟩
  · exact ⟨[], (gives_debug _).bind_ok (gives_pure _), by simp⟩
  · exact hdescend p

/-- The walk succeeds, and every file that it yields lies below the directory. -/
theorem exists_walk (s : Scan) (w : Workspace) (depth : Nat) (dir : Path) :
    ∃ found, Gives (s.walk w depth dir) (.ok found) ∧ ∀ q ∈ found, w.Below dir q := by
  induction depth generalizing dir with
  | zero => exact ⟨[], gives_pure _, by simp⟩
  | succ depth ih =>
      rw [walk]
      cases hlist : w.list dir with
      | error e =>
          exact ⟨[], gives_poll.bind_ok ((gives_debug _).bind_ok (gives_pure _)), by simp⟩
      | ok names =>
          have hentry : ∀ e ∈ inOrder names, ∃ found,
              Gives (s.ofEntry w (walk s w depth) (dir.child e.1) e.2) (.ok found) ∧
                ∀ q ∈ found, w.Below dir q := by
            intro e he
            have hname := hasName_of_list hlist e (List.mem_mergeSort.1 he)
            obtain ⟨found, hgives, hbelow⟩ := exists_ofEntry s w ih (dir.child e.1) e.2
            exact ⟨found, hgives, fun q hq => w.below_of_child hname (hbelow q hq)⟩
          obtain ⟨found, hgives, hbelow⟩ := exists_mapM_below hentry
          exact ⟨found.flatten, gives_poll.bind_ok (hgives.bind_ok (gives_pure _)), hbelow⟩

/-- **The files below a directory**: the scan fails if the directory cannot be asked about, and else
it yields files below it. -/
theorem exists_files (s : Scan) (w : Workspace) {dir : Path} {b : Bool}
    (h : w.isDirectory dir = .ok b) :
    ∃ found, Gives (s.files w dir) (.ok found) ∧ ∀ q ∈ found, w.Below dir q := by
  have hasked : Gives (accessed (w.isDirectory dir)) (.ok b) := h ▸ gives_accessed _
  cases b with
  | true =>
      obtain ⟨found, hgives, hbelow⟩ := s.exists_walk w (w.tree.entries.length + 1) dir
      exact ⟨found, hasked.bind_ok hgives, hbelow⟩
  | false => exact ⟨[], hasked.bind_ok ((gives_debug _).bind_ok (gives_pure _)), by simp⟩

theorem gives_files_error (s : Scan) (w : Workspace) {dir : Path} {e : AccessError}
    (h : w.isDirectory dir = .error e) : Gives (s.files w dir) (.error (.access e)) := by
  have hasked : Gives (accessed (w.isDirectory dir)) (.error (.access e)) := h ▸ gives_accessed _
  exact hasked.bind_error

end Scan

/-! ## What is found in a file -/

namespace CallSite

/-- What is found in a file: nothing if it cannot be read or does not contain the key. -/
def sitesIn (w : Workspace) (forms : List String) (key : String) (file : Path) : List CallSite :=
  (w.source? file).elim [] fun content =>
    if content.isEmpty || !Text.contains key.toList content then []
    else (Call.sites content (forms.map fun form => Call.pattern form.toList key.toList)).map (mk file)

/-- A file is searched after one poll. -/
theorem polls_inFile (w : Workspace) (forms : List String) (key : String) (file : Path) :
    Polls (inFile w forms key file) (.ok (sitesIn w forms key file)) 1 := by
  have hread := polls_readSource w file
  rw [sitesIn]
  cases hsource : w.source? file with
  | none =>
      have hread' : Polls (w.readSource file) (.ok none) 0 := hsource ▸ hread
      exact .after_poll (hread'.bind_ok (polls_pure _))
  | some content =>
      have hread' : Polls (w.readSource file) (.ok (some content)) 0 := hsource ▸ hread
      refine .after_poll (hread'.bind_ok ?_)
      dsimp only [Option.elim_some]
      split
      · exact polls_pure _
      · exact polls_pure _

end CallSite

/-! ## Absolute form -/

/-- An absolute path of proper components, none of which climbs. -/
structure Path.Normal (p : Path) : Prop where
  absolute : p.isAbsolute = true
  proper : p.Proper
  settled : ".." ∉ p.parts

/-- A workspace as it can be: the working directory is an absolute path, and the names of the tree
are proper and none of them climbs. -/
structure Workspace.WellFormed (w : Workspace) : Prop where
  absolute : w.cwd.isAbsolute = true
  proper : w.cwd.Proper
  names : ∀ name, w.tree.HasName name → Path.ProperName name ∧ name ≠ ".."

/-- A workspace seen from the root directory is well-formed if the names of its tree are proper. -/
theorem Workspace.wellFormed_of_names {w : Workspace} (hcwd : w.cwd = ⟨.single, []⟩)
    (hnames : ∀ e ∈ w.tree.entries, ∀ name ∈ e.1,
      (name ≠ "" ∧ name ≠ "." ∧ '/' ∉ name.toList) ∧ name ≠ "..") : w.WellFormed where
  absolute := by rw [hcwd]; rfl
  proper := by simp [Path.Proper, hcwd]
  names := by
    rintro name ⟨e, he, hname⟩
    exact hnames e he name hname

theorem Workspace.WellFormed.normal {w : Workspace} (hw : w.WellFormed) {p : Path} (hp : p.Proper) :
    (w.normalize p).Normal where
  absolute := Path.isAbsolute_normalize hw.absolute p
  proper := hp.normalize hw.proper
  settled := Path.notMem_resolveDots _

theorem Path.Normal.normalize {p : Path} (h : p.Normal) (w : Workspace) : w.normalize p = p :=
  Path.normalize_eq_self h.absolute h.settled w.cwd

/-- What goes on properly from a path in absolute form is in absolute form. -/
theorem Path.ProperlyWithin.normal {dir q : Path} (hdir : dir.Normal) (h : dir.ProperlyWithin q) :
    q.Normal := by
  obtain ⟨names, hnames, rfl⟩ := h
  refine ⟨hdir.absolute, List.forall_mem_append.2 ⟨hdir.proper, fun n hn => (hnames n hn).1⟩, ?_⟩
  rw [Path.descend, List.mem_append, not_or]
  exact ⟨hdir.settled, fun hmem => (hnames _ hmem).2 rfl⟩

/-- What lies below a directory goes on from it by names of the tree, and those are proper. -/
theorem Workspace.Below.properlyWithin {w : Workspace} (hw : w.WellFormed) {dir q : Path}
    (h : w.Below dir q) : dir.ProperlyWithin q := by
  obtain ⟨hroot, names, hparts, hnames⟩ := h
  refine ⟨names, fun n hn => hw.names n (hnames n hn), ?_⟩
  rw [Path.descend, ← hparts, ← hroot]

/-- What lies below a path in absolute form is in absolute form. -/
theorem Workspace.Below.normal {w : Workspace} (hw : w.WellFormed) {dir q : Path} (hdir : dir.Normal)
    (h : w.Below dir q) : q.Normal := (h.properlyWithin hw).normal hdir

theorem Project.normal_searchDirectory {w : Workspace} (hw : w.WellFormed) (root : String)
    (s : Settings) : (Project.openAt w (.ofString root) s).searchDirectory.Normal := by
  have hroot : (w.normalize (.ofString root)).Normal := hw.normal (Path.proper_ofString root)
  unfold Project.searchDirectory
  split
  · exact hroot
  · exact hw.normal (hroot.proper.join (Path.proper_ofString _))

/-- A search directory that is given by one name stands in the project's directory. -/
theorem Project.searchDirectory_of_name {p : Project} (hroot : p.root.Normal)
    (hname : Path.ProperName p.settings.searchRoot) (hclimbs : p.settings.searchRoot ≠ "..") :
    p.searchDirectory = p.root.child p.settings.searchRoot := by
  have hempty : ¬ p.settings.searchRoot.isEmpty = true := by
    simpa using hname.1
  have hnormal : (p.root.child p.settings.searchRoot).Normal := by
    refine ⟨hroot.absolute, List.forall_mem_append.2 ⟨hroot.proper, ?_⟩, ?_⟩
    · exact List.forall_mem_singleton.2 hname
    · rw [Path.child, List.mem_append, not_or, List.mem_singleton]
      exact ⟨hroot.settled, Ne.symm hclimbs⟩
  rw [searchDirectory, if_neg hempty, Path.ofString_of_properName hname]
  exact hnormal.normalize p.workspace

end ServiceKeys
