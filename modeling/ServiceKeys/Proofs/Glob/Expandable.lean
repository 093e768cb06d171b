import ServiceKeys.Proofs.Lookup.Confinement
import ServiceKeys.Proofs.Glob.Matches

/-!
# When a glob can be expanded

Two things can go wrong with a glob.  It may be no glob for an expansion: that is a matter of its text,
and for a relative one it means that it has no component or that two stars stand next to something else
in one (`exists_parse_iff`).  And an expansion may fail in the tree.  It asks questions about paths and
lists directories; a question fails only for a name that is too long, and a directory is listed only
after it has been found to be one, so a name that is too long is all that can be in the way
(`failsOnly_expand`).
-/

namespace ServiceKeys

open Relation (ReflTransGen)

/-! ## Names that are too long -/

/-- The components of what a link leads to. -/
def Entry.steps : Entry → List String
  | .link target => (Path.Given.ofString target).steps
  | .file _ | .directory => []

/-- The names in a tree, and the components of what its links lead to, are names of some kind. -/
structure FileTree.NamedBy (t : FileTree) (N : String → Prop) : Prop where
  names : ∀ name, t.HasName name → N name
  steps : ∀ x ∈ t.entries, ∀ step ∈ x.2.steps, N step

/-- The components of a path are names of some kind. -/
def Path.NamedBy (p : Path) (N : String → Prop) : Prop := ∀ part ∈ p.parts, N part

/-- An access failed for a name that is too long, and some name of a kind is. -/
def AccessError.Overlong (e : AccessError) (N : String → Prop) : Prop :=
  e.cause = .nameTooLong ∧ ∃ name, N name ∧ FileTree.nameLimit < name.utf8ByteSize

variable {t : FileTree} {w : Workspace} {N : String → Prop} {p q : Path}

theorem Path.NamedBy.child {name : String} (h : p.NamedBy N) (hname : N name) : (p.child name).NamedBy N :=
  List.forall_mem_append.2 ⟨h, List.forall_mem_singleton.2 hname⟩

theorem Path.NamedBy.normalize (h : p.NamedBy N) (habsolute : p.isAbsolute = true) :
    (w.normalize p).NamedBy N := by
  intro part hpart
  rw [Workspace.normalize, Path.normalize_of_isAbsolute habsolute] at hpart
  rcases Path.mem_of_mem_foldl_climb hpart with hpart | hpart
  · simp at hpart
  · exact h part hpart

namespace FileTree

/-- A way that is refused for a name that is too long has such a name on it, or a link on it does. -/
theorem exists_overlong_of_reachWith (ht : t.NamedBy N)
    {follow : List String → List String → Except AccessCause Reached}
    (hfollow : ∀ place parts, (∀ part ∈ parts, N part) → follow place parts = .error .nameTooLong →
      ∃ name, N name ∧ nameLimit < name.utf8ByteSize)
    {parts place : List String} (hparts : ∀ part ∈ parts, N part)
    (h : t.reachWith follow place parts = .error .nameTooLong) :
    ∃ name, N name ∧ nameLimit < name.utf8ByteSize := by
  induction parts generalizing place with
  | nil => simp [reachWith] at h
  | cons part rest ih =>
      obtain ⟨hpart, hrest⟩ := List.forall_mem_cons.1 hparts
      rw [reachWith] at h
      split at h
      · exact ih hrest h
      · split at h
        · exact ih hrest h
        · split at h
          · exact ⟨part, hpart, ‹_›⟩
          · dsimp only at h
            split at h
            · simp at h
            · exact ih hrest h
            · split at h
              · simp at h
              · simp at h
            · rename_i target hentry
              rw [entryAt?, List.isEmpty_eq_false_iff.2 (by simp)] at hentry
              obtain ⟨front, back, hentries, -⟩ := List.lookup_eq_some_iff.1 hentry
              have hmem : (place ++ [part], .link target) ∈ t.entries :=
                hentries ▸ List.mem_append_right _ List.mem_cons_self
              exact hfollow _ _ (List.forall_mem_append.2 ⟨ht.steps _ hmem, hrest⟩) h

theorem exists_overlong_of_reachFrom (ht : t.NamedBy N) {n : Nat} {parts place : List String}
    (hparts : ∀ part ∈ parts, N part) (h : t.reachFrom n place parts = .error .nameTooLong) :
    ∃ name, N name ∧ nameLimit < name.utf8ByteSize := by
  induction n generalizing place parts with
  | zero => exact exists_overlong_of_reachWith ht (by simp) hparts h
  | succ n ih => exact exists_overlong_of_reachWith ht (fun _ _ => ih) hparts h

/-- **A question fails only where a name is too long.** -/
theorem failsOnly_asks (ht : t.NamedBy N) (hp : p.NamedBy N) (sort : ServiceKeys.Entry → Bool) :
    FailsOnly (t.asks sort p) (·.Overlong N) := by
  intro e he
  have hcause := cause_of_asks he
  refine ⟨hcause, ?_⟩
  have hreach : t.reachFrom linkLimit [] p.parts = .error .nameTooLong := by
    rw [asks, reach] at he
    cases hfrom : t.reachFrom linkLimit [] p.parts with
    | ok r => simp [hfrom, Except.mapError] at he
    | error cause =>
        rw [hfrom] at he
        dsimp only [Except.mapError] at he
        split at he
        · simp at he
        · obtain rfl := Except.error.inj he
          rw [← hcause]
  exact exists_overlong_of_reachFrom ht hp hreach

end FileTree

theorem Workspace.failsOnly_isFile (ht : w.tree.NamedBy N) (hp : p.NamedBy N) (habsolute : p.isAbsolute = true) :
    FailsOnly (w.isFile p) (·.Overlong N) := by
  rw [isFile, asking, Path.join_of_isAbsolute habsolute]
  exact .mapError (FileTree.failsOnly_asks ht hp _)

namespace Glob

variable {directoriesOnly : Bool}

/-! ## Listing directories -/

/-- A path leads to a directory, or a name that is too long is in the way. -/
def Enterable (t : FileTree) (N : String → Prop) (p : Path) : Prop :=
  (∃ place, t.reach p = .ok ⟨place, .directory⟩) ∨ ∃ e, t.reach p = .error e ∧ e.Overlong N

theorem enterable_of_isDirectory (h : t.isDirectory p = .ok true) : Enterable t N p := by
  obtain ⟨⟨place, entry⟩, hreach, rfl⟩ := FileTree.exists_reachFrom_of_isDirectory h
  exact Or.inl ⟨place, mapError_eq_ok_iff.2 hreach⟩

/-- What can be entered can be listed; one that refuses counts as empty. -/
theorem failsOnly_listed (h : Enterable t N p) : FailsOnly (listed t p) (·.Overlong N) := by
  rw [listed, FileTree.list]
  by_cases hrefused : t.unlistable p.parts = true
  · rw [if_pos hrefused]
    exact .ok _
  · rw [if_neg hrefused]
    rcases h with ⟨place, hreach⟩ | ⟨e, hreach, hlong⟩
    · rw [hreach]
      exact .ok _
    · rw [hreach]
      simp only [bind, Except.bind, refused, hlong.1]
      exact .error hlong

/-- A directory in a directory can be entered. -/
theorem enterable_of_enters (hw : w.Sound) (ht : w.tree.NamedBy N) (h : Enters w.tree p q) :
    Enterable w.tree N q := by
  obtain ⟨name, hholds, rfl⟩ := h
  have hname := hasName_of_holds hholds
  obtain ⟨⟨-, hdot, -⟩, hdots⟩ := hw.names name hname
  obtain ⟨names, hlist, hmem⟩ := hholds
  obtain ⟨-, place, hreach, rfl⟩ := FileTree.list_eq_ok_iff.1 hlist
  have hchild := FileTree.reach_child hw.single hreach (mem_children.1 hmem) hdot hdots
  split at hchild
  · exact Or.inr ⟨_, hchild, rfl, name, ht.names name hname, ‹_›⟩
  · exact Or.inl ⟨_, hchild⟩

theorem namedBy_of_enters (ht : t.NamedBy N) (hp : p.NamedBy N) (h : Enters t p q) : q.NamedBy N := by
  obtain ⟨name, hholds, rfl⟩ := h
  exact hp.child (ht.names name (hasName_of_holds hholds))

theorem namedBy_of_descent (ht : t.NamedBy N) (hp : p.NamedBy N) (h : ReflTransGen (Enters t) p q) :
    q.NamedBy N := by
  induction h with
  | refl => exact hp
  | tail _ hstep ih => exact namedBy_of_enters ht ih hstep

theorem enterable_of_descent (hw : w.Sound) (ht : w.tree.NamedBy N) (hp : Enterable w.tree N p)
    (h : ReflTransGen (Enters w.tree) p q) : Enterable w.tree N q := by
  cases h with
  | refl => exact hp
  | tail _ hstep => exact enterable_of_enters hw ht hstep

/-- A descent that starts from a directory does not get stuck. -/
theorem failsOnly_directories (hw : w.Sound) (ht : w.tree.NamedBy N) {depth : Nat} (h : Enterable w.tree N p) :
    FailsOnly (directories w.tree depth p) (·.Overlong N) := by
  induction depth generalizing p with
  | zero => exact .ok _
  | succ depth ih =>
      rw [directories]
      refine (failsOnly_listed h).bind fun names hnames => ?_
      refine FailsOnly.bind (.mapM fun sub hsub => ih ?_) fun found _ => .ok _
      exact enterable_of_enters hw ht ((mem_filterMap_listed_iff hnames).1 hsub)

/-! ## Expanding -/

/-- The names among the components of a glob are names of some kind. -/
def NamedBy (cs : List Component) (N : String → Prop) : Prop := ∀ n, .name n ∈ cs → N n

/-- What components lead to has names of the kind that the path and the components have. -/
theorem namedBy_of_matches (ht : t.NamedBy N) {cs : List Component} (hcs : NamedBy cs N) (hp : p.NamedBy N)
    (h : Matches t directoriesOnly cs p q) : q.NamedBy N := by
  induction h with
  | here => exact hp
  | name _ _ ih =>
      exact ih (fun n hn => hcs n (List.mem_cons_of_mem _ hn)) (hp.child (hcs _ List.mem_cons_self))
  | wild hholds _ _ _ ih =>
      exact ih (fun n hn => hcs n (List.mem_cons_of_mem _ hn)) (hp.child (ht.names _ (hasName_of_holds hholds)))
  | anyDepth henters _ ih =>
      exact ih (fun n hn => hcs n (List.mem_cons_of_mem _ hn)) (namedBy_of_descent ht hp henters)

/-- **A selection fails only where a name is too long**, if it starts from a directory or has no component
left. -/
theorem failsOnly_select (hw : w.Sound) (ht : w.tree.NamedBy N) {cs : List Component} (hcs : NamedBy cs N)
    (hp : p.NamedBy N) (habsolute : p.isAbsolute = true) (h : cs = [] ∨ Enterable w.tree N p) :
    FailsOnly (select w.tree directoriesOnly cs p) (·.Overlong N) := by
  induction cs generalizing p with
  | nil => exact .ok _
  | cons c cs ih =>
      have hrest : NamedBy cs N := fun n hn => hcs n (List.mem_cons_of_mem _ hn)
      have henter : Enterable w.tree N p := h.resolve_left (List.cons_ne_nil _ _)
      -- a component that is not the last one goes on from a directory only
      have hgoes : ∀ {q}, ((directoriesOnly || !cs.isEmpty) = true → w.tree.isDirectory q = .ok true) →
          cs = [] ∨ Enterable w.tree N q := by
        intro q hdirectory
        cases hcase : cs with
        | nil => exact Or.inl rfl
        | cons c' cs' => exact Or.inr (enterable_of_isDirectory (hdirectory (by simp [hcase])))
      cases c with
      | name n =>
          have hnext := hp.child (hcs n List.mem_cons_self)
          rw [select]
          refine FailsOnly.bind ?_ fun goes hgoing => ?_
          · rw [mayFollow]
            split
            · exact FileTree.failsOnly_asks ht hnext _
            · exact FileTree.failsOnly_asks ht hnext _
          · split
            · rename_i hyes
              rw [hyes, mayFollow] at hgoing
              refine ih hrest hnext habsolute (hgoes fun hneeds => ?_)
              rwa [if_pos hneeds] at hgoing
            · exact .ok _
      | wild pieces =>
          rw [select_wild]
          refine (failsOnly_listed henter).bind fun names hnames => ?_
          refine FailsOnly.bind (.mapM fun x hx => ?_) fun found _ => .ok _
          have hholds := (mem_listed_iff hnames).1 hx
          have hnext := hp.child (ht.names _ (hasName_of_holds hholds))
          rw [selectEntry]
          refine FailsOnly.bind ?_ fun fits hfits => ?_
          · split
            · exact FileTree.failsOnly_asks ht hnext _
            · exact .ok _
          · split
            · rename_i hyes
              rw [(Bool.and_eq_true_iff.1 hyes).1] at hfits
              refine ih hrest hnext habsolute (hgoes fun hneeds => ?_)
              rwa [if_pos hneeds] at hfits
            · exact .ok _
      | anyDepth =>
          rw [select]
          refine (failsOnly_directories hw ht henter).bind fun dirs hdirs => ?_
          refine FailsOnly.bind (.mapM fun d hd => ?_) fun found _ => .ok _
          have hdescent : ReflTransGen (Enters w.tree) p d :=
            (mem_directories_iff hw habsolute (Nat.lt_succ_of_le (w.room_le p)) hdirs).1 hd
          exact ih hrest (namedBy_of_descent ht hp hdescent) (isAbsolute_of_enters hdescent habsolute)
            (Or.inr (enterable_of_descent hw ht henter hdescent))

/-- **An expansion fails only where a name is too long.** -/
theorem failsOnly_expand (hw : w.Sound) (ht : w.tree.NamedBy N) {g : Pattern} (hg : NamedBy g.components N)
    (hp : p.NamedBy N) (habsolute : p.isAbsolute = true) :
    FailsOnly (expand w.tree p g) (·.Overlong N) := by
  rw [expand]
  refine (FileTree.failsOnly_asks ht hp _).bind fun isDirectory hasked => ?_
  split
  · rename_i hyes
    rw [hyes] at hasked
    exact failsOnly_select hw ht hg hp habsolute (Or.inr (enterable_of_isDirectory hasked))
  · exact .ok _

/-! ## Reading globs -/

/-- A glob has a component, and two stars stand only where they are all of one. -/
def Expandable (glob : String) : Prop :=
  Path.components glob.toList ≠ [] ∧
    ∀ part ∈ Path.components glob.toList, ['*', '*'] <:+: part.toList → part.toList = ['*', '*']

theorem exists_component_iff {s : String} :
    (∃ c, component s = .ok c) ↔ (['*', '*'] <:+: s.toList → s.toList = ['*', '*']) := by
  have hinfix : Text.contains ['*', '*'] s.toList = true ↔ ['*', '*'] <:+: s.toList :=
    Text.contains_iff.trans ⟨fun ⟨a, b, h⟩ => ⟨a, b, h.symm⟩, fun ⟨a, b, h⟩ => ⟨a, b, h.symm⟩⟩
  rw [← hinfix]
  unfold component
  dsimp only
  split
  · rename_i hstars
    simp [beq_iff_eq.1 hstars]
  · rename_i hstars
    rw [beq_iff_eq] at hstars
    split
    · rename_i hcontains
      simp [hcontains, hstars]
    · rename_i hcontains
      split
      · simp [hcontains]
      · simp [hcontains]

theorem parse_eq {glob : String} (hrelative : Path.isAnyAbsolute glob.toList = false)
    (hne : Path.components glob.toList ≠ []) :
    parse glob = (Path.components glob.toList).mapM component >>= fun components =>
      pure { components, directoriesOnly := glob.toList.getLast? == some '/' } := by
  have hglob : glob.isEmpty = false := by
    rw [Bool.eq_false_iff]
    intro hempty
    rw [String.isEmpty_iff] at hempty
    exact hne (by rw [hempty]; rfl)
  have hparts : (Path.ofString glob).parts.isEmpty = false := by simpa [Path.ofString] using hne
  rw [parse, hglob]
  simp only [Bool.false_eq_true, if_false, Path.isAbsolute_ofString hrelative, hparts]
  rfl

/-- **A relative glob can be read exactly if it can be expanded.** -/
theorem exists_parse_iff {glob : String} (hrelative : Path.isAnyAbsolute glob.toList = false) :
    (∃ g, parse glob = .ok g) ↔ Expandable glob := by
  simp only [Expandable, ← exists_component_iff]
  constructor
  · rintro ⟨g, hg⟩
    obtain ⟨hne, hcomponents⟩ := mapM_component_of_parse hg
    exact ⟨hne, exists_eq_ok_of_mapM hcomponents⟩
  · rintro ⟨hne, hcomponents⟩
    obtain ⟨cs, hcs⟩ := exists_mapM_eq_ok hcomponents
    exact ⟨_, (parse_eq hrelative hne).trans (bind_eq_ok_iff.2 ⟨cs, hcs, rfl⟩)⟩

/-- The names among the components of a glob are among the components of its text. -/
theorem namedBy_of_parse {glob : String} {g : Pattern} (h : parse glob = .ok g)
    (hnames : ∀ part ∈ Path.components glob.toList, N part) : NamedBy g.components N := by
  intro n hn
  obtain ⟨s, hs, hcomponent⟩ := (mem_of_mapM_eq_ok (mapM_component_of_parse h).2).1 hn
  obtain rfl : s = n := by
    unfold component at hcomponent
    dsimp only at hcomponent
    split at hcomponent
    · simp at hcomponent
    · split at hcomponent
      · simp at hcomponent
      · split at hcomponent
        · simp at hcomponent
        · simpa using hcomponent
  exact hnames s hs

end Glob

end ServiceKeys
