import ServiceKeys.Proofs.Lookup.Files

/-!
# What a glob matches

A glob is expanded by a walk that carries lists of paths, bounds its descent and forgets duplicates on
the way.  `Glob.Matches` says without the walk which paths a glob matches: the components lead from the
directory to the path, a name to what stands there, a wildcard to an entry whose name fits, and two
stars along entries that are directories and no links.  When an expansion succeeds it yields exactly
these paths (`mem_expand_iff`); the bound is no restriction, because there is less room below each
directory than in it.  Whether it succeeds, and with which paths, is not a matter of the order in which
directories are listed (`alike_expand`).
-/

namespace ServiceKeys.Glob

open Relation (ReflTransGen)

/-! ## Entries of directories -/

/-- A directory that can be listed holds an entry under a name. -/
def Holds (t : FileTree) (p : Path) (name : String) (e : Entry) : Prop :=
  ∃ names, t.list p = .ok names ∧ (name, e) ∈ names

/-- One directory is entered from another: it is an entry there and no link. -/
def Enters (t : FileTree) (p q : Path) : Prop :=
  ∃ name, Holds t p name .directory ∧ q = p.child name

/-- Components of a glob lead from a directory to a path. -/
inductive Matches (t : FileTree) (directoriesOnly : Bool) : List Component → Path → Path → Prop
  | here (p : Path) : Matches t directoriesOnly [] p p
  | name {n : String} {rest : List Component} {p q : Path}
      (follows : mayFollow t (directoriesOnly || !rest.isEmpty) (p.child n) = .ok true)
      (more : Matches t directoriesOnly rest (p.child n) q) :
      Matches t directoriesOnly (.name n :: rest) p q
  | wild {pieces : List Piece} {rest : List Component} {p q : Path} {name : String} {e : Entry}
      (holds : Holds t p name e) (fits : matchPieces pieces name.toList = true)
      (directory : (directoriesOnly || !rest.isEmpty) = true → t.isDirectory (p.child name) = .ok true)
      (more : Matches t directoriesOnly rest (p.child name) q) :
      Matches t directoriesOnly (.wild pieces :: rest) p q
  | anyDepth {rest : List Component} {p d q : Path} (enters : ReflTransGen (Enters t) p d)
      (more : Matches t directoriesOnly rest d q) :
      Matches t directoriesOnly (.anyDepth :: rest) p q

/-- A glob selects a path under a directory. -/
def Selects (t : FileTree) (dir : Path) (glob : String) (q : Path) : Prop :=
  ∃ g, parse glob = .ok g ∧ t.isDirectory dir = .ok true ∧ Matches t g.directoriesOnly g.components dir q

variable {t : FileTree} {w : Workspace} {directoriesOnly : Bool} {p q : Path}

theorem mem_listed_iff {names : List (String × Entry)} (h : listed t p = .ok names) {name : String}
    {e : Entry} : (name, e) ∈ names ↔ Holds t p name e := by
  rw [listed] at h
  rw [Holds]
  split at h
  · rename_i hlist
    obtain rfl := Except.ok.inj h
    simp [hlist]
  · rename_i hlist
    split at h
    · obtain rfl := Except.ok.inj h
      simp [hlist]
    · simp at h

theorem hasName_of_holds {name : String} {e : Entry} (h : Holds t p name e) : t.HasName name := by
  obtain ⟨names, hlist, hname⟩ := h
  obtain ⟨-, place, -, rfl⟩ := FileTree.list_eq_ok_iff.1 hlist
  exact ⟨_, mem_children.1 hname, by simp⟩

/-- The results of computations that all succeed, put together. -/
theorem mem_flatten_of_mapM {ε α β : Type} {f : α → Except ε (List β)} {P : α → β → Prop} {xs : List α}
    {yss : List (List β)} (h : xs.mapM f = .ok yss)
    (hf : ∀ x ∈ xs, ∀ ys, f x = .ok ys → ∀ y, y ∈ ys ↔ P x y) (y : β) :
    y ∈ yss.flatten ↔ ∃ x ∈ xs, P x y := by
  have hall := mapM_eq_ok_iff.1 h
  clear h
  induction hall with
  | nil => simp
  | cons hx _ ih =>
      have hrest := ih fun x hx' => hf x (List.mem_cons_of_mem _ hx')
      rw [List.flatten_cons, List.mem_append, List.exists_mem_cons_iff, hf _ List.mem_cons_self _ hx]
      exact or_congr_right hrest

theorem exists_eq_ok_of_mapM {ε α β : Type} {f : α → Except ε β} {xs : List α} {ys : List β}
    (h : xs.mapM f = .ok ys) : ∀ x ∈ xs, ∃ y, f x = .ok y := by
  have hall := mapM_eq_ok_iff.1 h
  clear h
  induction hall with
  | nil => simp
  | cons hx _ ih => exact List.forall_mem_cons.2 ⟨⟨_, hx⟩, ih⟩

/-- What a wildcard component comes to at one entry. -/
def selectEntry (t : FileTree) (directoriesOnly : Bool) (pieces : List Piece) (rest : List Component)
    (p : Path) (name : String) : Except AccessError (List Path) :=
  (if directoriesOnly || !rest.isEmpty then t.isDirectory (p.child name) else pure true) >>= fun fits =>
    if fits && matchPieces pieces name.toList then select t directoriesOnly rest (p.child name)
    else pure []

theorem select_wild (pieces : List Piece) (rest : List Component) :
    select t directoriesOnly (.wild pieces :: rest) p =
      (listed t p >>= fun names =>
        (names.mapM fun x => selectEntry t directoriesOnly pieces rest p x.1) >>= fun found =>
          pure found.flatten) := by
  simp only [select]
  congr 1
  funext names
  congr 2
  funext x
  rw [selectEntry]
  split
  · rfl
  · rfl

/-- An entry that yields a path is one with which the selection goes on. -/
theorem select_of_mem_selectEntry {pieces : List Piece} {rest : List Component} {name : String}
    {ps : List Path} (h : selectEntry t directoriesOnly pieces rest p name = .ok ps) (hq : q ∈ ps) :
    select t directoriesOnly rest (p.child name) = .ok ps := by
  obtain ⟨fits, -, h⟩ := bind_eq_ok_iff.1 h
  split at h
  · exact h
  · obtain rfl := Except.ok.inj h
    simp at hq

/-! ## The paths of an expansion -/

/-- The names in an absolute path are seen in the same way from any working directory. -/
theorem list_of_holds {name : String} {e : Entry} (habsolute : p.isAbsolute = true)
    (h : Holds w.tree p name e) : ∃ names, w.list p = .ok names ∧ (name, e) ∈ names := by
  obtain ⟨names, hlist, hname⟩ := h
  refine ⟨names, ?_, hname⟩
  rw [Workspace.list, Workspace.asking, Path.join_of_isAbsolute habsolute, hlist]
  rfl

theorem room_lt_of_holds (hw : w.Sound) (habsolute : p.isAbsolute = true) {name : String}
    (h : Holds w.tree p name .directory) : w.room (p.child name) < w.room p := by
  obtain ⟨names, hlist, hname⟩ := list_of_holds habsolute h
  exact Workspace.room_child_lt hw hlist hname

theorem isAbsolute_of_enters (h : ReflTransGen (Enters t) p q) (habsolute : p.isAbsolute = true) :
    q.isAbsolute = true := by
  induction h with
  | refl => exact habsolute
  | tail _ hstep ih =>
      obtain ⟨name, -, rfl⟩ := hstep
      exact ih

/-- The directories that are entered from a directory are those that a descent goes on with. -/
theorem mem_filterMap_listed_iff {names : List (String × Entry)} (h : listed t p = .ok names) {sub : Path} :
    (sub ∈ names.filterMap fun (name, e) => if e == .directory then some (p.child name) else none) ↔
      Enters t p sub := by
  rw [List.mem_filterMap, Enters]
  constructor
  · rintro ⟨⟨name, e⟩, hname, hsub⟩
    dsimp only at hsub
    split at hsub
    · rename_i he
      obtain rfl := beq_iff_eq.1 he
      exact ⟨name, (mem_listed_iff h).1 hname, (Option.some.inj hsub).symm⟩
    · simp at hsub
  · rintro ⟨name, hholds, rfl⟩
    exact ⟨_, (mem_listed_iff h).2 hholds, by simp⟩

/-- A descent that is deep enough yields the directories that are entered. -/
theorem mem_directories_iff (hw : w.Sound) {depth : Nat} {ps : List Path}
    (habsolute : p.isAbsolute = true) (hdepth : w.room p < depth)
    (h : directories w.tree depth p = .ok ps) : q ∈ ps ↔ ReflTransGen (Enters w.tree) p q := by
  induction depth generalizing p q ps with
  | zero => exact absurd hdepth (Nat.not_lt_zero _)
  | succ depth ih =>
      simp only [directories, bind_eq_ok_iff] at h
      obtain ⟨names, hnames, pss, hpss, h⟩ := h
      obtain rfl := Except.ok.inj h
      generalize hentered : List.filterMap _ names = subs at hpss
      have hsubs : ∀ sub, sub ∈ subs ↔ Enters w.tree p sub :=
        fun sub => hentered ▸ mem_filterMap_listed_iff hnames
      have hbelow : ∀ sub, Enters w.tree p sub → ∀ qs, directories w.tree depth sub = .ok qs →
          ∀ q, q ∈ qs ↔ ReflTransGen (Enters w.tree) sub q := by
        rintro _ ⟨name, hholds, rfl⟩ qs hqs q
        have hroom := room_lt_of_holds hw habsolute hholds
        exact ih habsolute (by omega) hqs
      rw [List.mem_cons, mem_flatten_of_mapM hpss fun sub hsub => hbelow sub ((hsubs sub).1 hsub),
        ReflTransGen.cases_head_iff, eq_comm]
      simp only [hsubs]

theorem mem_selectEntry_iff {pieces : List Piece} {rest : List Component} {name : String}
    {ps : List Path}
    (hselect : ∀ qs, select t directoriesOnly rest (p.child name) = .ok qs →
      ∀ q, q ∈ qs ↔ Matches t directoriesOnly rest (p.child name) q)
    (h : selectEntry t directoriesOnly pieces rest p name = .ok ps) :
    q ∈ ps ↔ matchPieces pieces name.toList = true ∧
      ((directoriesOnly || !rest.isEmpty) = true → t.isDirectory (p.child name) = .ok true) ∧
      Matches t directoriesOnly rest (p.child name) q := by
  rw [selectEntry, bind_eq_ok_iff] at h
  obtain ⟨fits, hfits, h⟩ := h
  have hdirectory : fits = true ↔
      ((directoriesOnly || !rest.isEmpty) = true → t.isDirectory (p.child name) = .ok true) := by
    split at hfits
    · rename_i hneeds
      simp [hneeds, hfits]
    · rename_i hneeds
      obtain rfl := Except.ok.inj hfits
      simp [hneeds]
  rw [← hdirectory]
  cases hgoes : fits && matchPieces pieces name.toList with
  | true =>
      rw [hgoes] at h
      rw [Bool.and_eq_true] at hgoes
      rw [hselect ps h, and_iff_right hgoes.2, and_iff_right hgoes.1]
  | false =>
      rw [hgoes] at h
      obtain rfl := Except.ok.inj h
      rw [Bool.and_eq_false_iff] at hgoes
      constructor
      · simp
      · rintro ⟨hpieces, rfl, -⟩
        simp [hpieces] at hgoes

/-- **A selection that succeeds yields exactly the paths to which the components lead.** -/
theorem mem_select_iff (hw : w.Sound) {cs : List Component} {ps : List Path}
    (habsolute : p.isAbsolute = true) (h : select w.tree directoriesOnly cs p = .ok ps) :
    q ∈ ps ↔ Matches w.tree directoriesOnly cs p q := by
  induction cs generalizing p q ps with
  | nil =>
      obtain rfl := Except.ok.inj h
      rw [List.mem_singleton]
      constructor
      · rintro rfl
        exact .here _
      · rintro ⟨⟩
        rfl
  | cons c cs ih =>
      cases c with
      | name n =>
          simp only [select, bind_eq_ok_iff] at h
          obtain ⟨goes, hgoes, h⟩ := h
          cases goes with
          | true =>
              have hrest : q ∈ ps ↔ Matches w.tree directoriesOnly cs (p.child n) q := ih habsolute h
              rw [hrest]
              constructor
              · exact .name hgoes
              · rintro ⟨⟩
                assumption
          | false =>
              obtain rfl := Except.ok.inj h
              constructor
              · simp
              · rintro ⟨⟩
                simp_all
      | wild pieces =>
          simp only [select_wild, bind_eq_ok_iff] at h
          obtain ⟨names, hnames, pss, hpss, h⟩ := h
          obtain rfl := Except.ok.inj h
          have hentry : ∀ x ∈ names, ∀ qs,
              selectEntry w.tree directoriesOnly pieces cs p x.1 = .ok qs →
              ∀ q, q ∈ qs ↔ matchPieces pieces x.1.toList = true ∧
                ((directoriesOnly || !cs.isEmpty) = true → w.tree.isDirectory (p.child x.1) = .ok true) ∧
                Matches w.tree directoriesOnly cs (p.child x.1) q :=
            fun x _ qs hqs q => mem_selectEntry_iff (fun ps hps q => ih habsolute hps) hqs
          rw [mem_flatten_of_mapM hpss hentry]
          constructor
          · rintro ⟨⟨name, e⟩, hname, hpieces, hdirectory, hmore⟩
            exact .wild ((mem_listed_iff hnames).1 hname) hpieces hdirectory hmore
          · rintro ⟨⟩
            exact ⟨(_, _), (mem_listed_iff hnames).2 ‹_›, ‹_›, ‹_›, ‹_›⟩
      | anyDepth =>
          simp only [select, bind_eq_ok_iff] at h
          obtain ⟨dirs, hdirs, pss, hpss, h⟩ := h
          obtain rfl := Except.ok.inj h
          have hmem : ∀ d, d ∈ dirs ↔ ReflTransGen (Enters w.tree) p d := fun d =>
            mem_directories_iff hw habsolute (Nat.lt_succ_of_le (w.room_le p)) hdirs
          rw [mem_distinct, mem_flatten_of_mapM hpss fun d hd qs hqs q =>
            ih (isAbsolute_of_enters ((hmem d).1 hd) habsolute) hqs]
          constructor
          · rintro ⟨d, hd, hmore⟩
            exact .anyDepth ((hmem d).1 hd) hmore
          · rintro ⟨⟩
            exact ⟨_, (hmem _).2 ‹_›, ‹_›⟩

/-- **An expansion that succeeds yields exactly the paths that match.** -/
theorem mem_expand_iff (hw : w.Sound) {g : Pattern} {ps : List Path} (habsolute : p.isAbsolute = true)
    (h : expand w.tree p g = .ok ps) :
    q ∈ ps ↔ w.tree.isDirectory p = .ok true ∧ Matches w.tree g.directoriesOnly g.components p q := by
  simp only [expand, bind_eq_ok_iff] at h
  obtain ⟨isDirectory, hasked, h⟩ := h
  cases isDirectory with
  | true =>
      rw [if_pos rfl] at h
      rw [mem_select_iff hw habsolute h, and_iff_right hasked]
  | false =>
      obtain rfl := Except.ok.inj h
      simp [hasked]

/-! ## The order of a listing -/

section

variable {ε α β : Type}

/-- Wherever one computation succeeds, another one does with the same members. -/
def Alike (r r' : Except ε (List α)) : Prop :=
  ∀ xs, r = .ok xs → ∃ xs', r' = .ok xs' ∧ ∀ x, x ∈ xs' ↔ x ∈ xs

theorem Alike.refl (r : Except ε (List α)) : Alike r r := fun xs h => ⟨xs, h, fun _ => .rfl⟩

theorem Alike.bind {r r' : Except ε (List α)} {f f' : List α → Except ε (List β)} (h : Alike r r')
    (hf : ∀ xs xs', r = .ok xs → (∀ x, x ∈ xs' ↔ x ∈ xs) → Alike (f xs) (f' xs')) :
    Alike (r >>= f) (r' >>= f') := by
  intro ys hys
  obtain ⟨xs, hxs, hys⟩ := bind_eq_ok_iff.1 hys
  obtain ⟨xs', hxs', hmem⟩ := h xs hxs
  obtain ⟨ys', hys', hmem'⟩ := hf xs xs' hxs hmem ys hys
  exact ⟨ys', bind_eq_ok_iff.2 ⟨xs', hxs', hys'⟩, hmem'⟩

/-- What comes behind one and the same computation. -/
theorem alike_after {γ : Type} {f f' : γ → Except ε (List β)} (x : Except ε γ)
    (hf : ∀ c, Alike (f c) (f' c)) : Alike (x >>= f) (x >>= f') := by
  cases x with
  | error e => exact .refl _
  | ok c => exact hf c

theorem Alike.ite {r r' : Except ε (List α)} {c : Prop} [Decidable c] (h : Alike r r') :
    Alike (if c then r else pure []) (if c then r' else pure []) := by
  split
  · exact h
  · exact .refl _

/-- Computations that are alike, over lists with the same members. -/
theorem alike_mapM {f f' : α → Except ε (List β)} {xs xs' : List α} {g : List β → List β}
    (hg : ∀ ys ys', (∀ y, y ∈ ys' ↔ y ∈ ys) → ∀ y, y ∈ g ys' ↔ y ∈ g ys)
    (hxs : ∀ x, x ∈ xs' ↔ x ∈ xs) (hf : ∀ x ∈ xs, Alike (f x) (f' x)) :
    Alike (xs.mapM f >>= fun yss => pure (g yss.flatten))
      (xs'.mapM f' >>= fun yss => pure (g yss.flatten)) := by
  intro zs hzs
  obtain ⟨yss, hyss, hzs⟩ := bind_eq_ok_iff.1 hzs
  obtain rfl := Except.ok.inj hzs
  have hmem : ∀ y, y ∈ yss.flatten ↔ ∃ x ∈ xs, ∃ ys, f x = .ok ys ∧ y ∈ ys :=
    mem_flatten_of_mapM hyss fun x _ ys hys y => by simp [hys]
  have hblock : ∀ x ∈ xs', ∃ ys', f' x = .ok ys' ∧ ∀ y, y ∈ ys' ↔ ∃ ys, f x = .ok ys ∧ y ∈ ys := by
    intro x hx
    obtain ⟨ys, hys⟩ := exists_eq_ok_of_mapM hyss x ((hxs x).1 hx)
    obtain ⟨ys', hys', hsame⟩ := hf x ((hxs x).1 hx) ys hys
    exact ⟨ys', hys', fun y => (hsame y).trans (by simp [hys])⟩
  obtain ⟨yss', hyss', hmem'⟩ := exists_mapM_flatten hblock
  refine ⟨_, bind_eq_ok_iff.2 ⟨yss', hyss', rfl⟩, hg _ _ fun y => ?_⟩
  rw [hmem', hmem]
  simp only [hxs]

end

variable {t' : FileTree}

/-- Two trees hold the same entries, in whatever order their directories are listed. -/
structure SameEntries (t t' : FileTree) : Prop where
  listed : ∀ p, Alike (listed t p) (listed t' p)
  asks : ∀ sort p, t'.asks sort p = t.asks sort p
  size : t'.entries.length = t.entries.length

theorem SameEntries.isDirectory (h : SameEntries t t') (p : Path) :
    t'.isDirectory p = t.isDirectory p := h.asks _ p

theorem SameEntries.mayFollow (h : SameEntries t t') (needsDirectory : Bool) (p : Path) :
    mayFollow t' needsDirectory p = mayFollow t needsDirectory p := by
  rw [Glob.mayFollow, Glob.mayFollow, h.isDirectory, FileTree.exists?, h.asks]
  rfl

theorem alike_directories (h : SameEntries t t') (depth : Nat) (p : Path) :
    Alike (directories t depth p) (directories t' depth p) := by
  induction depth generalizing p with
  | zero => exact .refl _
  | succ depth ih =>
      refine (h.listed p).bind fun names names' _ hnames => ?_
      refine alike_mapM (g := (p :: ·)) ?_ ?_ fun sub _ => ih sub
      · intro ys ys' hys y
        simp [hys]
      · intro sub
        simp only [List.mem_filterMap, hnames]

theorem alike_selectEntry (h : SameEntries t t') {pieces : List Piece} {rest : List Component}
    {name : String} (hrest : Alike (select t directoriesOnly rest (p.child name))
      (select t' directoriesOnly rest (p.child name))) :
    Alike (selectEntry t directoriesOnly pieces rest p name)
      (selectEntry t' directoriesOnly pieces rest p name) := by
  rw [selectEntry, selectEntry, h.isDirectory]
  exact alike_after _ fun fits => hrest.ite

theorem alike_select (h : SameEntries t t') (cs : List Component) (p : Path) :
    Alike (select t directoriesOnly cs p) (select t' directoriesOnly cs p) := by
  induction cs generalizing p with
  | nil => exact .refl _
  | cons c cs ih =>
      cases c with
      | name n =>
          rw [select, select, h.mayFollow]
          exact alike_after _ fun goes => (ih _).ite
      | wild pieces =>
          rw [select_wild, select_wild]
          refine (h.listed p).bind fun names names' _ hnames => ?_
          exact alike_mapM (g := id) (fun _ _ hys => hys) hnames
            fun x _ => alike_selectEntry h (ih (p.child x.1))
      | anyDepth =>
          rw [select, select, h.size]
          refine (alike_directories h _ p).bind fun dirs dirs' _ hdirs => ?_
          refine alike_mapM (g := distinct) (fun ys ys' hys y => ?_) hdirs fun d _ => ih d
          rw [mem_distinct, mem_distinct, hys]

/-- **An expansion does not depend on the order of the entries**: neither whether it succeeds nor which
paths it yields. -/
theorem alike_expand (h : SameEntries t t') (p : Path) (g : Pattern) :
    Alike (expand t p g) (expand t' p g) := by
  rw [expand, expand, h.isDirectory]
  exact alike_after _ fun isDirectory => (alike_select h _ p).ite

/-- A directory is listed with its entries in another order, or it is not listed for the same reason. -/
theorem list_reordered (hw : w.Sound) {entries : List (List String × Entry)}
    (h : w.tree.entries.Perm entries) (p : Path) :
    (∃ names names', w.tree.list p = .ok names ∧ (Scan.reordered w entries).tree.list p = .ok names' ∧
      names.Perm names') ∨
    ∃ e, w.tree.list p = .error e ∧ (Scan.reordered w entries).tree.list p = .error e := by
  have hreach : (Scan.reordered w entries).tree.reach p = w.tree.reach p :=
    FileTree.reach_congr (Scan.entryAt?_reordered hw h) p
  rw [FileTree.list, FileTree.list, hreach]
  by_cases hrefused : w.tree.unlistable p.parts = true
  · exact Or.inr ⟨_, if_pos hrefused, if_pos hrefused⟩
  · have hopen : (Scan.reordered w entries).tree.unlistable p.parts ≠ true := hrefused
    simp only [if_neg hrefused, if_neg hopen]
    cases w.tree.reach p with
    | error e => exact Or.inr ⟨e, rfl, rfl⟩
    | ok r =>
        obtain ⟨place, entry⟩ := r
        cases entry with
        | directory => exact Or.inl ⟨_, _, rfl, rfl, h.filterMap _⟩
        | _ => exact Or.inr ⟨_, rfl, rfl⟩

/-- Entries in another order are the same entries. -/
theorem sameEntries_reordered (hw : w.Sound) {entries : List (List String × Entry)}
    (h : w.tree.entries.Perm entries) : SameEntries w.tree (Scan.reordered w entries).tree where
  asks sort p := FileTree.asks_congr (Scan.entryAt?_reordered hw h) sort p
  size := h.length_eq.symm
  listed p := by
    intro names hnames
    rw [listed] at hnames ⊢
    rcases list_reordered hw h p with ⟨names', names'', hlist, hlist', hperm⟩ | ⟨e, hlist, hlist'⟩
    · rw [hlist] at hnames
      obtain rfl := Except.ok.inj hnames
      exact ⟨names'', by rw [hlist'], fun x => hperm.mem_iff.symm⟩
    · rw [hlist] at hnames
      exact ⟨names, by rw [hlist', hnames], fun x => .rfl⟩

end ServiceKeys.Glob
