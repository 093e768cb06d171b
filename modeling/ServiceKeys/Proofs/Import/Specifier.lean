import ServiceKeys.Proofs.Lookup.Scan
import ServiceKeys.Import.Resolve

/-!
# Two ways to name a module

A module can be named from the file that imports it, by climbing out of the directory of that file and
going down to the module, or from the project, by the components below the project's directory.  The
first way always leads back to the module, whatever the two directories have in common
(`Resolver.bases_fromTo`).  The second is never taken for the first, because a component that is in
absolute form is no run of dots, and the project is asked before the search root; so where the module
is a file, both ways come to that file, from any importer and with any search root.  Main statement:
`Resolver.resolve?_alike`.
-/

namespace ServiceKeys

open ServiceKeys.Path

namespace Path

/-! ## Climbing -/

/-- Each double dot takes back one component. -/
theorem foldl_climb_replicate (n : Nat) (done : List String) :
    (List.replicate n "..").foldl climb done = done.take (done.length - n) := by
  induction n generalizing done with
  | zero => simp
  | succ n ih =>
      have hclimb : climb done ".." = done.dropLast := rfl
      rw [List.replicate_succ, List.foldl_cons, hclimb, ih, List.dropLast_eq_take, List.take_take,
        List.length_take]
      congr 1
      omega

/-- Components that were gone down, as many double dots, and other components. -/
theorem resolveDots_back {front lower rest : List String} (hfront : ".." ∉ front)
    (hlower : ".." ∉ lower) (hrest : ".." ∉ rest) :
    resolveDots ((front ++ lower) ++ (List.replicate lower.length ".." ++ rest)) = front ++ rest := by
  have hdown : ".." ∉ front ++ lower := by simp [hfront, hlower]
  have hback : (front ++ lower).take ((front ++ lower).length - lower.length) = front := by
    rw [List.length_append, Nat.add_sub_cancel, List.take_left]
  rw [resolveDots, List.foldl_append, foldl_climb hdown, List.nil_append, List.foldl_append,
    foldl_climb_replicate, hback, foldl_climb hrest]

/-- A relative path, taken from an absolute directory. -/
theorem normalize_join {dir : Path} (h : dir.isAbsolute = true) (parts : List String) (cwd : Path) :
    (dir.join ⟨.none, parts⟩).normalize cwd =
      { dir with parts := resolveDots (dir.parts ++ parts) } := by
  have hjoin : dir.join ⟨.none, parts⟩ = dir.descend parts := rfl
  have habsolute : (dir.descend parts).isAbsolute = true := h
  rw [hjoin, normalize, join_of_isAbsolute habsolute]
  rfl

/-! ## Reading a specifier -/

/-- The first of the names that are joined with slashes stands before the first slash. -/
theorem takeWhile_intercalate {name : String} (h : '/' ∉ name.toList) (names : List String) :
    ("/".intercalate (name :: names)).toList.takeWhile (· != '/') = name.toList := by
  have hname : ∀ c ∈ name.toList, (c != '/') = true := fun c hc => bne_iff_ne.2 fun heq => h (heq ▸ hc)
  cases names with
  | nil => rw [String.intercalate_singleton, List.takeWhile_eq_self_iff.2 hname]
  | cons next names =>
      rw [String.intercalate_cons_cons, String.toList_append, String.toList_append, List.append_assoc,
        List.takeWhile_append_of_pos hname]
      simp

/-- Names that are joined with slashes are a relative path. -/
theorem ofString_intercalate {names : List String} (h : ∀ name ∈ names, ProperName name) :
    ofString ("/".intercalate names) = ⟨.none, names⟩ := by
  have hhead : ("/".intercalate names).toList.head? ≠ some '/' := by
    cases names with
    | nil => simp
    | cons name names =>
        obtain ⟨hne, -, hslash⟩ := h name List.mem_cons_self
        intro hhead
        obtain ⟨cs, hcs⟩ := List.head?_eq_some_iff.1 hhead
        have hfirst := takeWhile_intercalate hslash names
        rw [hcs] at hfirst
        exact hne (String.toList_eq_nil_iff.1 hfirst.symm)
  rw [ofString_of_head? hhead, components_intercalate h]

/-- The components that two lists have in common at their start. -/
def shared : List String → List String → List String
  | a :: as, b :: bs => if a = b then a :: shared as bs else []
  | _, _ => []

theorem shared_isPrefix (as bs : List String) : shared as bs <+: as ∧ shared as bs <+: bs := by
  induction as generalizing bs with
  | nil => simp [shared]
  | cons a as ih =>
      cases bs with
      | nil => simp [shared]
      | cons b bs =>
          rw [shared]
          split
          · rename_i hab
            subst hab
            simpa [List.cons_prefix_cons] using ih bs
          · simp

end Path

/-- The specifier that leads from a directory to a module, both given by their components: one double
dot for each component of the directory that the module does not share, or a single dot if there is
none, and then the components of the module that the directory does not share. -/
def Specifier.fromTo (dir target : List String) : String :=
  let common := (shared dir target).length
  let climb := dir.length - common
  (if climb = 0 then "./" else String.join (List.replicate climb "../")) ++
    "/".intercalate (target.drop common)

namespace Specifier

/-- The steps up, with what follows them. -/
theorem components_ups (n : Nat) (rest : List Char) :
    components ((String.join (List.replicate n "../")).toList ++ rest) =
      List.replicate n ".." ++ components rest := by
  induction n with
  | zero => rfl
  | succ n ih =>
      have hdots : components ['.', '.'] = [".."] := by decide
      have hup : ∀ more, "../".toList ++ more = ['.', '.'] ++ '/' :: more := fun _ => rfl
      rw [List.replicate_succ, String.join_cons, String.toList_append, List.append_assoc, hup,
        components_append (by decide), ih, hdots, List.singleton_append, List.replicate_succ,
        List.cons_append]

/-- A relative specifier is read as one double dot for each component of the directory behind the
shared ones, and the components of the module behind them. -/
theorem exists_ofString_fromTo (dir : List String) {target : List String}
    (h : ∀ name ∈ target, ProperName name) :
    ∃ front lower rest, dir = front ++ lower ∧ target = front ++ rest ∧
      ofString (fromTo dir target) = ⟨.none, List.replicate lower.length ".." ++ rest⟩ := by
  obtain ⟨⟨lower, hlower⟩, ⟨rest, hrest⟩⟩ := shared_isPrefix dir target
  refine ⟨shared dir target, lower, rest, hlower.symm, hrest.symm, ?_⟩
  have hup : dir.length - (shared dir target).length = lower.length := by
    have hlength := congrArg List.length hlower
    rw [List.length_append] at hlength
    omega
  have hdown : target.drop (shared dir target).length = rest :=
    calc target.drop (shared dir target).length
        = (shared dir target ++ rest).drop (shared dir target).length := by rw [hrest]
      _ = rest := List.drop_left
  have hnames : components ("/".intercalate rest).toList = rest := by
    refine components_intercalate fun name hname => h name ?_
    rw [← hrest]
    exact List.mem_append_right _ hname
  unfold fromTo
  dsimp only
  rw [hup, hdown]
  cases lower with
  | nil =>
      have hdot : components ['.'] = [] := by decide
      have hhere : ∀ more, "./".toList ++ more = ['.'] ++ '/' :: more := fun _ => rfl
      rw [List.length_nil, if_pos rfl, ofString_of_head? (by simp), String.toList_append, hhere,
        components_append (by decide), hdot, hnames]
      rfl
  | cons first lower =>
      rw [List.length_cons, if_neg (Nat.succ_ne_zero _),
        ofString_of_head? (by simp [List.replicate_succ]), String.toList_append, components_ups, hnames]

theorem isRelative_fromTo (dir target : List String) :
    Resolver.isRelative (fromTo dir target).toList = true := by
  unfold fromTo
  dsimp only
  cases dir.length - (shared dir target).length with
  | zero => simp [Resolver.isRelative]
  | succ n => simp [Resolver.isRelative, List.replicate_succ]

/-- Components in absolute form are not taken for steps from the importing file. -/
theorem isRelative_intercalate {name : String} (hproper : ProperName name) (hdots : name ≠ "..")
    (hback : '\\' ∉ name.toList) (names : List String) :
    Resolver.isRelative ("/".intercalate (name :: names)).toList = false := by
  -- what stands before the first slash of a relative specifier is dots, or has a backslash in it
  have hstart : ∀ cs : List Char, Resolver.isRelative cs = true →
      cs.takeWhile (· != '/') = ['.'] ∨ cs.takeWhile (· != '/') = ['.', '.'] ∨
        '\\' ∈ cs.takeWhile (· != '/') := by
    intro cs hcs
    simp only [Resolver.isRelative, Bool.or_eq_true, beq_iff_eq, List.any_cons, List.any_nil,
      List.isPrefixOf_iff_prefix, Bool.false_eq_true, or_false] at hcs
    rcases hcs with (rfl | rfl) | ⟨more, rfl⟩ | ⟨more, rfl⟩ | ⟨more, rfl⟩ | ⟨more, rfl⟩
    all_goals simp
  by_contra hrelative
  rw [Bool.not_eq_false] at hrelative
  have hcases := hstart _ hrelative
  rw [takeWhile_intercalate hproper.2.2] at hcases
  rcases hcases with hdot | hdotdot | hmem
  · exact hproper.2.1 (String.toList_inj.1 hdot)
  · exact hdots (String.toList_inj.1 hdotdot)
  · exact hback hmem

end Specifier

namespace Resolver

variable {dir root target : Path}

theorem normal_child {name : String} (hdir : dir.Normal) (hname : ProperName name)
    (hdots : name ≠ "..") : (dir.child name).Normal :=
  (ProperlyWithin.child ⟨hname, hdots⟩ dir).normal hdir

/-- **Climbing out of a directory and going down again** leads to the module, and to nothing else. -/
theorem bases_fromTo (r : Resolver) (cwd : Path) (hdir : dir.Normal) (htarget : target.Normal)
    (hslashes : dir.root = target.root) {name : String} (hname : ProperName name)
    (hdots : name ≠ "..") (root : Path) :
    r.bases cwd (Specifier.fromTo dir.parts target.parts) (dir.child name) root = [target] := by
  have hkind : r.classify (Specifier.fromTo dir.parts target.parts) = .relative := by
    rw [classify, if_pos (Specifier.isRelative_fromTo _ _)]
  have himporter : ((dir.child name).normalize cwd).parent = dir := by
    have hnormal := normal_child hdir hname hdots
    rw [normalize_eq_self hnormal.absolute hnormal.settled, parent_child]
  obtain ⟨front, lower, rest, hlower, hrest, hread⟩ :=
    Specifier.exists_ofString_fromTo dir.parts htarget.proper
  have hup := hdir.settled
  have hdown := htarget.settled
  rw [hlower, List.mem_append, not_or] at hup
  rw [hrest, List.mem_append, not_or] at hdown
  have hparts : resolveDots (dir.parts ++ (List.replicate lower.length ".." ++ rest)) = target.parts := by
    rw [hlower, hrest, resolveDots_back hup.1 hup.2 hdown.2]
  rw [bases, hkind]
  dsimp only
  rw [himporter, hread, normalize_join hdir.absolute, hparts, hslashes]

/-- A specifier that names a module from the project's directory leads there first, whatever else is
tried behind it. -/
theorem head?_bases_intercalate (r : Resolver) (cwd : Path) (hroot : root.Normal)
    {names : List String} (hne : names ≠ [])
    (hnames : ∀ name ∈ names, ProperName name ∧ name ≠ ".." ∧ '\\' ∉ name.toList) (importer : Path) :
    r.classify ("/".intercalate names) ≠ .relative ∧
      (r.bases cwd ("/".intercalate names) importer root).head? = some (root.descend names) := by
  have hproper : ∀ name ∈ names, ProperName name := fun name hname => (hnames name hname).1
  have hkind : r.classify ("/".intercalate names) ≠ .relative := by
    obtain ⟨name, rest, rfl⟩ := List.exists_cons_of_ne_nil hne
    obtain ⟨hname, hdots, hback⟩ := hnames name List.mem_cons_self
    rw [classify, if_neg (Bool.eq_false_iff.1 (Specifier.isRelative_intercalate hname hdots hback rest))]
    split
    · decide
    · decide
  have hfromRoot : ((root.normalize cwd).join (ofString ("/".intercalate names))).normalize cwd =
      root.descend names := by
    have hsettled : ".." ∉ root.parts ++ names := by
      rw [List.mem_append, not_or]
      exact ⟨hroot.settled, fun hmem => (hnames _ hmem).2.1 rfl⟩
    rw [normalize_eq_self hroot.absolute hroot.settled, ofString_intercalate hproper,
      normalize_join hroot.absolute, resolveDots_eq_self hsettled]
    rfl
  refine ⟨hkind, ?_⟩
  rw [bases, hfromRoot]
  cases hclass : r.classify ("/".intercalate names) with
  | relative => exact absurd hclass hkind
  | rooted => rfl
  | workspace =>
      dsimp only
      split
      · rfl
      · rfl

/-- **A module is found by either name.**  Named from the directory of the importing file, it is the
only base, so what the specifier resolves to is what probing the module finds.  If the module lies
below the project's directory and is a file, then the components below that directory, joined with
slashes, are not taken for a relative specifier and resolve to the same file, whatever file imports it
and whatever the search root is. -/
theorem resolve?_alike (r : Resolver) (w : Workspace) (hdir : dir.Normal) (hroot : root.Normal)
    (htarget : target.Normal) (hslashes : dir.root = target.root) (hslashes' : root.root = target.root)
    (hback : ∀ part ∈ target.parts, '\\' ∉ part.toList) {name : String} (hname : ProperName name)
    (hdots : name ≠ "..") :
    r.bases w.cwd (Specifier.fromTo dir.parts target.parts) (dir.child name) root = [target] ∧
    r.resolve? w (Specifier.fromTo dir.parts target.parts) (dir.child name) root = r.probe w target ∧
    ∀ names, names ≠ [] → target.parts = root.parts ++ names → ∀ file, r.probe w target = some file →
      ∀ importer searchRoot,
        { r with searchRoot }.classify ("/".intercalate names) ≠ .relative ∧
        { r with searchRoot }.resolve? w ("/".intercalate names) importer root = some file := by
  have hbases := bases_fromTo r w.cwd hdir htarget hslashes hname hdots root
  refine ⟨hbases, ?_, ?_⟩
  · rw [resolve?, hbases, List.findSome?_singleton]
  · intro names hne hparts file hfile importer searchRoot
    have hmem : ∀ part ∈ names, part ∈ target.parts := fun part hpart => by
      rw [hparts]
      exact List.mem_append_right _ hpart
    have hnames : ∀ part ∈ names, ProperName part ∧ part ≠ ".." ∧ '\\' ∉ part.toList := by
      intro part hpart
      refine ⟨htarget.proper part (hmem part hpart), ?_, hback part (hmem part hpart)⟩
      rintro rfl
      exact htarget.settled (hmem _ hpart)
    have hdescend : root.descend names = target := by
      rw [descend, ← hparts, hslashes']
    obtain ⟨hkind, hhead⟩ :=
      head?_bases_intercalate { r with searchRoot } w.cwd hroot hne hnames importer
    refine ⟨hkind, ?_⟩
    obtain ⟨others, hothers⟩ := List.head?_eq_some_iff.1 hhead
    -- what is probed depends on the extensions only
    have hprobe : { r with searchRoot }.probe w target = some file := hfile
    rw [resolve?, hothers, hdescend, List.findSome?_cons, hprobe]

/-- A project with a module beside the directory that imports it. -/
def sampleModules : Workspace :=
  { tree :=
      { entries := [(["p"], .directory), (["p", "src"], .directory), (["p", "src", "core"], .directory),
          (["p", "src", "lib"], .directory), (["p", "src", "lib", "money.ts"], .file [])] }
    cwd := ⟨.single, []⟩ }

/-- The directory that imports the module. -/
def sampleImporter : Path := .ofString "/p/src/core"

/-- The module, without its extension. -/
def sampleModule : Path := .ofString "/p/src/lib/money"

theorem resolve?_alike_sample :
    Specifier.fromTo sampleImporter.parts sampleModule.parts = "../lib/money" ∧
    (make [".ts"] "src").resolve? sampleModules "../lib/money" (sampleImporter.child "index.ts")
        (.ofString "/p") = some (.ofString "/p/src/lib/money.ts") ∧
    ∀ importer searchRoot,
      (Resolver.mk [".ts"] searchRoot).resolve? sampleModules "src/lib/money" importer (.ofString "/p") =
        some (.ofString "/p/src/lib/money.ts") := by
  have himporter : sampleImporter.Normal := ⟨by decide, proper_ofString _, by decide⟩
  have hmodule : sampleModule.Normal := ⟨by decide, proper_ofString _, by decide⟩
  have hroot : (ofString "/p").Normal := ⟨by decide, proper_ofString _, by decide⟩
  have hname : ProperName "index.ts" ∧ "index.ts" ≠ ".." := by decide
  have hprobe : (make [".ts"] "src").probe sampleModules sampleModule =
      some (.ofString "/p/src/lib/money.ts") := by decide +kernel
  have hrelative : Specifier.fromTo sampleImporter.parts sampleModule.parts = "../lib/money" := by
    decide +kernel
  obtain ⟨-, hresolve, halike⟩ := resolve?_alike (make [".ts"] "src") sampleModules himporter hroot
    hmodule rfl rfl (by decide) hname.1 hname.2
  rw [hrelative, hprobe] at hresolve
  exact ⟨hrelative, hresolve, fun importer searchRoot =>
    (halike ["src", "lib", "money"] (by simp) rfl _ hprobe importer searchRoot).2⟩

end Resolver

end ServiceKeys
