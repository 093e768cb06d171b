import ServiceKeys.Proofs.Import.Probe
import ServiceKeys.Proofs.Declaration.Locate
import ServiceKeys.Proofs.Lookup.Confinement

/-!
# What the definitions of a key are

A registration file defines a key by the first of its registrations that can be traced: the reference
is a bare identifier, it is imported, and the module that it is imported from is found
(`Project.Defines`).  The definitions of a key are those of its registration files, in their order and
without duplicates, each at a place of the file that it names (`Project.definitions_exact`).

That the file of a definition is one takes more: no extension climbs, or there are no links.  A probe
that goes through a link and then up again comes to a file, but the path that it gives back has the
double dot worked off in its text, and there may be nothing at that path
(`Project.definitions_climbing_extension`).
-/

namespace ServiceKeys

open Lookup Registration

/-- What is left of the results of an optional function has its sources in their order. -/
theorem exists_sources {α β : Type} {f : α → Option β} {xs : List α} {ys : List β}
    (h : ys.Sublist (xs.filterMap f)) :
    ∃ zs : List α, zs.Sublist xs ∧ List.Forall₂ (fun x y => f x = some y) zs ys := by
  induction xs generalizing ys with
  | nil => exact ⟨[], .slnil, List.sublist_nil.1 h ▸ .nil⟩
  | cons x xs ih =>
      rw [List.filterMap_cons] at h
      cases hx : f x with
      | none =>
          obtain ⟨zs, hzs, hall⟩ := ih (by simpa [hx] using h)
          exact ⟨zs, hzs.cons x, hall⟩
      | some y =>
          rw [hx] at h
          cases h with
          | cons _ h =>
              obtain ⟨zs, hzs, hall⟩ := ih h
              exact ⟨zs, hzs.cons x, hall⟩
          | cons_cons _ h =>
              obtain ⟨zs, hzs, hall⟩ := ih h
              exact ⟨x :: zs, hzs.cons_cons x, .cons hx hall⟩

namespace Project

/-! ## Registration files are told apart -/

theorem nodup_addFiles (w : Workspace) {files : List Path} (ps : List Path) (h : files.Nodup) :
    Ensures (addFiles w files ps) List.Nodup := by
  refine ensures_foldlM h fun files hfiles p _ => ?_
  split
  · exact ensures_pure hfiles
  · rename_i hnew
    have hadded : (files ++ [p]).Nodup :=
      hfiles.append (List.nodup_singleton p) (by simpa using hnew)
    refine ensures_after fun isFile => ?_
    split
    · exact ensures_pure hadded
    · exact ensures_pure hfiles

/-- **No registration file is listed twice.** -/
theorem nodup_registryFiles (p : Project) : Ensures p.registryFiles List.Nodup := by
  refine (ensures_foldlM List.nodup_nil fun files hfiles glob _ => ?_).bind fun files hfiles =>
    ensures_after fun _ => ensures_pure hfiles
  refine ensures_after fun found => ?_
  dsimp only
  split
  · exact ensures_after fun _ => nodup_addFiles _ _ hfiles
  · exact nodup_addFiles _ _ hfiles

/-! ## Tracing a registration -/

variable (p : Project)

/-- A registration of a file with the given text can be traced to a target: its reference is a bare
identifier that a binding imports, and the specifier of the binding resolves to the target. -/
structure Traces (file : Path) (content : List Char) (r : Registration) (b : Binding) (target : Path) :
    Prop where
  identifier : Text.isIdentifier r.reference.toList = true
  imported : Import.find? content r.reference = some b
  resolved : p.resolver.resolve? p.workspace b.specifier file p.root = some target

/-- A registration file defines a key: of the registrations of the key in its text, the first one that
can be traced leads to the file of the definition, at the place of the declaration behind its
binding. -/
def Defines (key : String) (file : Path) (d : Definition) : Prop :=
  ∃ content before r after b, p.workspace.source? file = some content ∧
    forward p.settings.templates content key = .ok (before ++ r :: after) ∧
    (∀ r' ∈ before, ∀ b' target, ¬ p.Traces file content r' b' target) ∧
    p.Traces file content r b d.file ∧ d = ⟨key, d.file, placeOf p.workspace b d.file⟩

variable {p} {key : String} {file : Path} {content : List Char} {r : Registration} {d : Definition}

theorem definitionOf?_eq_some_iff :
    p.definitionOf? key file content r = some d ↔
      ∃ b, p.Traces file content r b d.file ∧ d = ⟨key, d.file, placeOf p.workspace b d.file⟩ := by
  simp only [definitionOf?, Option.bind_eq_some_iff, Option.map_eq_some_iff]
  constructor
  · rintro ⟨b, hb, target, htarget, rfl⟩
    exact ⟨b, ⟨(mem_all_of_find? hb).1, hb, htarget⟩, rfl⟩
  · rintro ⟨b, htraces, hd⟩
    exact ⟨b, htraces.imported, d.file, htraces.resolved, hd.symm⟩

theorem definitionOf?_eq_none_iff :
    p.definitionOf? key file content r = none ↔ ∀ b target, ¬ p.Traces file content r b target := by
  rw [Option.eq_none_iff_forall_ne_some]
  constructor
  · intro h b target htraces
    exact h ⟨key, target, placeOf p.workspace b target⟩
      (definitionOf?_eq_some_iff.2 ⟨b, htraces, rfl⟩)
  · intro h d hd
    obtain ⟨b, htraces, -⟩ := definitionOf?_eq_some_iff.1 hd
    exact h b d.file htraces

theorem defines_iff : p.Defines key file d ↔ p.definitionIn? key file = some d := by
  rw [definitionIn?_eq_some_iff]
  constructor
  · rintro ⟨content, before, r, after, b, hsource, hfound, hbefore, htraces⟩
    refine ⟨content, _, hsource, hfound, List.findSome?_eq_some_iff.2 ⟨before, r, after, rfl, ?_, ?_⟩⟩
    · exact definitionOf?_eq_some_iff.2 ⟨b, htraces⟩
    · exact fun r' hr' => definitionOf?_eq_none_iff.2 (hbefore r' hr')
  · rintro ⟨content, found, hsource, hfound, hfirst⟩
    obtain ⟨before, r, after, rfl, hd, hbefore⟩ := List.findSome?_eq_some_iff.1 hfirst
    obtain ⟨b, htraces⟩ := definitionOf?_eq_some_iff.1 hd
    exact ⟨content, before, r, after, b, hsource, hfound,
      fun r' hr' => definitionOf?_eq_none_iff.1 (hbefore r' hr'), htraces⟩

/-- A place in a file that can be read is in its text. -/
theorem inside_placeOf {w : Workspace} {b : Binding} {target : Path} {text : List Char}
    (h : w.source? target = some text) : (placeOf w b target).Inside text := by
  have hdeclared : ∀ position, declared? b text = some position → position.Inside text := by
    intro position hposition
    unfold declared? at hposition
    split at hposition
    · simp at hposition
    · obtain ⟨found, hfound, rfl⟩ := Option.map_eq_some_iff.1 hposition
      exact Declaration.locate?_inside hfound
    · obtain ⟨found, hfound, rfl⟩ := Option.map_eq_some_iff.1 hposition
      exact Declaration.locate?_inside hfound
  rw [placeOf, h, Option.bind_some]
  cases hcase : declared? b text with
  | none => exact Text.Position.inside_start text
  | some position => exact hdeclared position hcase

/-- A definition is at the start of a file that cannot be read, and in the text of one that can. -/
theorem Defines.placed (h : p.Defines key file d) :
    (p.workspace.source? d.file = none → d.position = ⟨0, 0⟩) ∧
      ∀ text, p.workspace.source? d.file = some text → d.position.Inside text := by
  obtain ⟨_, _, _, _, b, -, -, -, -, hd⟩ := h
  have hposition : d.position = placeOf p.workspace b d.file := congrArg Definition.position hd
  rw [hposition]
  refine ⟨fun hnone => ?_, fun text => inside_placeOf⟩
  rw [placeOf, hnone]
  rfl

/-- The file of a definition is one, if no extension climbs or there are no links. -/
theorem Defines.isFile (h : p.Defines key file d) (hw : p.workspace.WellFormed) (hfile : file.Proper)
    (hroot : p.root.Proper)
    (hdots : ∀ e ∈ p.settings.extensions, e.toList.head? = some '.')
    (hsteady : p.resolver.Steady p.workspace) :
    p.workspace.isFile d.file = .ok true := by
  obtain ⟨_, _, _, _, _, -, -, -, htraces, -⟩ := h
  exact Resolver.isFile_of_resolve? hw hfile hroot hdots hsteady htraces.resolved

/-! ## The definitions of a key -/

/-- Each definition has its own registration file, in the order of these. -/
theorem exists_sources_definitionsFrom (p : Project) (key : String) (files : List Path) :
    ∃ sources : List Path, sources.Sublist files ∧
      List.Forall₂ (p.Defines key) sources (p.definitionsFrom key files) := by
  have hkept : (p.definitionsFrom key files).Sublist (files.filterMap (p.definitionIn? key)) :=
    distinctBy_sublist _
  obtain ⟨sources, hsources, hall⟩ := exists_sources hkept
  exact ⟨sources, hsources, hall.imp fun _ _ => defines_iff.2⟩

/-- A blank key has no definitions. -/
theorem gives_definitions_blank (p : Project) (hkey : Text.trim key.toList = []) :
    Gives (p.definitions key) (.ok []) := by
  rw [definitions, hkey]
  exact gives_pure _

/-- **The definitions of a key are exact.**  Let the names of the tree be proper, the settings be built
with the built-in templates, and the registration files be found.  Then the key has its definitions: no
two of them have the same file and position, and they come from some of the registration files in their
order, one from each, and what any of the files defines is among them.  Each is at a place in the text
of its file, or at the start if that cannot be read; and if no extension climbs or there are no links,
its file is one. -/
theorem definitions_exact {w : Workspace} (hw : w.WellFormed) (root : String) {draft : Draft}
    {s : Settings} (hs : Settings.ofDraft draft = .ok s) (htemplates : s.templates = Template.builtin)
    {p : Project} (hp : p = openAt w (.ofString root) s) {files : List Path}
    (hfiles : (p.registryFiles.outcome none).1 = .ok files) (key : String) :
    files.Nodup ∧ ∃ ds, ((p.definitions key).outcome none).1 = .ok ds ∧
      ds.Pairwise (fun d d' => (d.file, d.position) ≠ (d'.file, d'.position)) ∧
      (∃ sources : List Path, sources.Sublist files ∧ List.Forall₂ (p.Defines key) sources ds) ∧
      (Text.trim key.toList ≠ [] → ∀ file ∈ files, ∀ d, p.Defines key file d → d ∈ ds) ∧
      (∀ d ∈ ds, (w.source? d.file = none → d.position = ⟨0, 0⟩) ∧
        ∀ text, w.source? d.file = some text → d.position.Inside text) ∧
      (p.resolver.Steady w → ∀ d ∈ ds, w.isFile d.file = .ok true) := by
  subst hp
  have hwrapped : ∀ t ∈ s.templates, Wrapped t :=
    fun t ht => wrapped_of_mem_builtin (htemplates ▸ ht)
  have hgives := gives_registryFiles hfiles
  have hroot : (w.normalize (.ofString root)).Normal := hw.normal (Path.proper_ofString root)
  have hproper : ∀ file ∈ files, file.Proper := fun file hfile =>
    (((confined_of_ofDraft hw (.ofString root) hs).ensures_registryFiles.outcome hfiles
      file hfile).normal hroot).proper
  have hdots : ∀ e ∈ s.extensions, e.toList.head? = some '.' := fun e he =>
    Settings.head?_of_checkExtension ((Settings.ofDraft_eq_ok_iff.1 hs).extensions.passes e he)
  refine ⟨(nodup_registryFiles _).outcome hfiles, ?_⟩
  by_cases hkey : Text.trim key.toList = []
  · exact ⟨[], (gives_definitions_blank _ hkey).outcome, .nil, ⟨[], List.nil_sublist _, .nil⟩,
      fun hne => absurd hkey hne, by simp, by simp⟩
  · have hdefines : ∀ d ∈ (openAt w (.ofString root) s).definitionsFrom key files,
        ∃ file ∈ files, (openAt w (.ofString root) s).Defines key file d := by
      simpa only [defines_iff] using fun d => (mem_definitionsFrom_iff _).1
    refine ⟨_, (polls_definitions hwrapped hkey hgives).gives.outcome, pairwise_distinctBy _,
      exists_sources_definitionsFrom _ key files, fun _ file hfile d hd => ?_, ?_, ?_⟩
    · exact (mem_definitionsFrom_iff _).2 ⟨file, hfile, defines_iff.1 hd⟩
    · intro d hd
      obtain ⟨file, -, hdefined⟩ := hdefines d hd
      exact hdefined.placed
    · intro hsteady d hd
      obtain ⟨file, hfile, hdefined⟩ := hdefines d hd
      exact hdefined.isFile hw (hproper file hfile) hroot.proper hdots hsteady

/-- The definition that the registration file of the sample gives. -/
def sampleDefinition : Definition := ⟨"mail.v2", sampleFile, ⟨0, 0⟩⟩

theorem sample_defines : sample.Defines "mail.v2" sampleRegistryFile sampleDefinition :=
  ⟨sampleRegistry.toList, [], ⟨"mail.v2", "M", "class"⟩, [], ⟨"./src/mail", .named "Mail", "M"⟩,
    sample_source, sample_forward, by simp,
    { identifier := by decide
      imported := by decide +kernel
      resolved := by decide +kernel }, by decide +kernel⟩

theorem definitions_exact_sample :
    sample.workspace.WellFormed ∧ Settings.ofDraft (sampleDraft "src") = .ok sample.settings ∧
    sample.settings.templates = Template.builtin ∧
    sample = openAt sample.workspace (.ofString "/p") sample.settings ∧
    (sample.registryFiles.outcome none).1 = .ok [sampleRegistryFile] ∧
    Text.trim "mail.v2".toList ≠ [] ∧
    sample.Defines "mail.v2" sampleRegistryFile sampleDefinition ∧
    sample.resolver.Steady sample.workspace ∧
    ((sample.definitions "mail.v2").outcome none).1 = .ok [sampleDefinition] ∧
    sampleDefinition.position.Inside [] ∧ sample.workspace.isFile sampleFile = .ok true := by
  have htrim : Text.trim "mail.v2".toList ≠ [] := by decide
  have hsteady : sample.resolver.Steady sample.workspace := Or.inl (by decide +kernel)
  have hsource : sample.workspace.source? sampleFile = some [] := by decide +kernel
  obtain ⟨-, ds, hds, -, ⟨sources, hsources, hall⟩, hcomplete, hplaced, hfiles⟩ :=
    definitions_exact sample_wellFormed "/p" sample_ofDraft rfl rfl sample_registryFiles "mail.v2"
  have hmem := hcomplete htrim _ (List.mem_singleton_self _) _ sample_defines
  have hsingle : ds.length ≤ 1 := hall.length_eq ▸ hsources.length_le
  obtain rfl : ds = [sampleDefinition] := by
    obtain ⟨d, rfl⟩ := List.length_eq_one_iff.1 (le_antisymm hsingle (List.length_pos_of_mem hmem))
    rw [List.mem_singleton.1 hmem]
  exact ⟨sample_wellFormed, sample_ofDraft, rfl, rfl, sample_registryFiles, htrim, sample_defines,
    hsteady, hds, (hplaced _ hmem).2 [] hsource, hfiles hsteady _ hmem⟩

/-! ## An extension that climbs -/

/-- A registration file that imports from a module with one letter. -/
def climbingRegistry : String :=
  "import \x7b Mail \x7d from './m'\nregister(\x7b mail: asClass(Mail) \x7d)\n"

/-- A project with an extension that goes on from a name to a link and up again, and the link. -/
def climbing : Project :=
  { workspace :=
      { tree :=
          { entries :=
              [(["p"], .directory),
               (["p", "di.ts"], .file (climbingRegistry.toList.map fun c => c.toNat.toUInt8)),
               (["p", "m."], .link "sub/dir"),
               (["p", "sub"], .directory),
               (["p", "sub", "dir"], .directory),
               (["p", "sub", "x.ts"], .file [])] }
        cwd := ⟨.single, []⟩ }
    root := ⟨.single, ["p"]⟩
    settings :=
      { Settings.default with
        registryGlobs := ["di.ts"], includeGlobs := [], extensions := ["./../x.ts"] } }

/-- What the settings of the project are built from. -/
def climbingDraft : Draft :=
  { sampleDraft "src" with extensions := some (.list [.text "./../x.ts"]) }

theorem climbing_ofDraft : Settings.ofDraft climbingDraft = .ok climbing.settings := by
  have hbuilt := Settings.ofDraft_eq_ok_iff.1 sample_ofDraft
  exact Settings.ofDraft_eq_ok_iff.2 { hbuilt with
    extensions := ⟨rfl, List.forall_mem_singleton.2 (eq_ok_of_toOption (by decide))⟩
    extensions_ne := by simp [climbing] }

theorem climbing_wellFormed : climbing.workspace.WellFormed :=
  Workspace.wellFormed_of_names rfl (by decide)

theorem climbing_registryFiles :
    (climbing.registryFiles.outcome none).1 = .ok [⟨.single, ["p", "di.ts"]⟩] :=
  eq_ok_of_toOption (by decide +kernel)

theorem climbing_defines :
    climbing.Defines "mail" ⟨.single, ["p", "di.ts"]⟩ ⟨"mail", ⟨.single, ["p", "x.ts"]⟩, ⟨0, 0⟩⟩ := by
  refine ⟨climbingRegistry.toList, [], ⟨"mail", "Mail", "class"⟩, [], ⟨"./m", .named "Mail", "Mail"⟩,
    by decide +kernel, ?_, by simp,
    { identifier := by decide
      imported := by decide +kernel
      resolved := by decide +kernel }, by decide +kernel⟩
  show forward Template.builtin _ _ = _
  rw [forward_builtin]
  exact congrArg Except.ok (by decide +kernel)

/-- The settings are accepted and the key has a definition, but its file is none: the probe follows the
link to `sub/dir` before it climbs, and the path that it gives back climbs over the link. -/
theorem definitions_climbing_extension :
    climbing.workspace.WellFormed ∧ Settings.ofDraft climbingDraft = .ok climbing.settings ∧
    climbing.settings.templates = Template.builtin ∧
    climbing = openAt climbing.workspace (.ofString "/p") climbing.settings ∧
    (climbing.registryFiles.outcome none).1 = .ok [⟨.single, ["p", "di.ts"]⟩] ∧
    ∃ ds, ((climbing.definitions "mail").outcome none).1 = .ok ds ∧
      ∃ d ∈ ds, climbing.workspace.isFile d.file = .ok false := by
  have hwrapped : ∀ t ∈ climbing.settings.templates, Wrapped t :=
    fun t ht => wrapped_of_mem_builtin ht
  have hmail : Text.trim "mail".toList ≠ [] := by decide
  have hpolls := polls_definitions hwrapped hmail (gives_registryFiles climbing_registryFiles)
  exact ⟨climbing_wellFormed, climbing_ofDraft, rfl, rfl, climbing_registryFiles, _,
    hpolls.gives.outcome, _, (mem_definitionsFrom_iff _).2
      ⟨_, List.mem_singleton_self _, defines_iff.1 climbing_defines⟩,
    eq_ok_of_toOption (by decide +kernel)⟩

end Project

end ServiceKeys
