import ServiceKeys.Proofs.Lookup.Engine
import ServiceKeys.Proofs.Path.Normal

/-!
# From a key to its file and back

The two directions of a lookup, one after the other.  From a key to a definition and back to the keys
of the definition's file nothing is lost, whatever the registration files hold.  From a file to one of
its keys and on to a definition the way back needs more: a registration file may bind a name twice
or register a key twice, and then the first binding or the first registration is taken.  If the
registration file that contributes the key does neither, a definition in the file is found.
-/

namespace ServiceKeys.Project

open Lookup Registration Text

variable {p : Project}

/-- The file of a specifier is in absolute form. -/
theorem exists_normalize_of_resolve? {r : Resolver} {w : Workspace} {specifier : String}
    {importer root target : Path} (h : r.resolve? w specifier importer root = some target) :
    ∃ q, target = w.normalize q := by
  obtain ⟨base, -, hprobe⟩ := List.exists_of_findSome?_eq_some h
  obtain ⟨q, -, rfl⟩ := Option.map_eq_some_iff.1 hprobe
  exact ⟨q, rfl⟩

theorem mem_all_of_find? {content : List Char} {name : String} {b : Binding}
    (h : Import.find? content name = some b) :
    isIdentifier name.toList = true ∧ b ∈ Import.all content ∧ b.localName = name := by
  rw [Import.find?] at h
  split at h
  · rename_i hid
    exact ⟨hid, List.mem_of_find?_eq_some h, by simpa using List.find?_some h⟩
  · simp at h

theorem mem_namesFrom {file target : Path} {content : List Char} {s : String} :
    s ∈ p.namesFrom file content target ↔ ∃ b ∈ Import.all content,
      p.resolver.resolve? p.workspace b.specifier file p.root = some target ∧ b.localName = s := by
  simp only [namesFrom, List.mem_map, List.mem_filter, beq_iff_eq, and_assoc]

/-- Where a registration file leads from a key to a file, it registers the file under the key. -/
theorem registers_of_leads (h : ∀ t ∈ p.settings.templates, Wrapped t) {key : String}
    (hkey : KeyText key.toList) {file target : Path} (hleads : p.Leads key file target) :
    p.Registers file target (some key) := by
  obtain ⟨content, found, hsource, hfound, hfirst⟩ := hleads
  obtain ⟨r, hr, htarget⟩ := List.exists_of_findSome?_eq_some hfirst
  obtain ⟨b, hb, hresolve⟩ := Option.bind_eq_some_iff.1 htarget
  obtain ⟨hid, hmem, hname⟩ := mem_all_of_find? hb
  obtain ⟨keys, hkeys, hfinds⟩ := exists_reverse h content (p.namesFrom file content target)
  have hsymbol : r.reference ∈ p.namesFrom file content target :=
    mem_namesFrom.2 ⟨b, hmem, hresolve, hname⟩
  have hmem := mem_reverse_of_forward h hkey hfound hr hid hsymbol hkeys
  exact ⟨content, hsource, (hfinds _).1 hmem⟩

theorem gives_registryFiles {files : List Path} (h : (p.registryFiles.outcome none).1 = .ok files) :
    Gives p.registryFiles (.ok files) := h ▸ p.silent_registryFiles.gives

/-- **A key is among the keys of every file that it leads to.**  With the built-in templates, and
registration files that can be found, looking a key up succeeds, and so does looking the file of any
definition up: the key is among its keys, whatever text the registration files hold. -/
theorem key_mem_keys_of_mem_definitions (p : Project) (htemplates : p.settings.templates = Template.builtin)
    (hcwd : p.workspace.cwd.isAbsolute = true) {files : List Path}
    (hfiles : (p.registryFiles.outcome none).1 = .ok files) (key : String)
    (hkey : KeyText key.toList) :
    ∃ ds, ((p.definitions key).outcome none).1 = .ok ds ∧
      ∀ d ∈ ds, ∃ ks, ((p.keys d.file).outcome none).1 = .ok ks ∧ some key ∈ ks := by
  have h : ∀ t ∈ p.settings.templates, Wrapped t :=
    fun t ht => wrapped_of_mem_builtin (htemplates ▸ ht)
  have hgives := gives_registryFiles hfiles
  obtain ⟨ds, hds, hfile⟩ := exists_definitions h hkey hgives
  refine ⟨ds, hds.outcome, ?_⟩
  intro d hd
  obtain ⟨file, hmem, hleads⟩ := (hfile d.file).1 ⟨d, hd, rfl⟩
  obtain ⟨ks, hks, -, hregisters⟩ := exists_keys h hgives d.file
  refine ⟨ks, hks.outcome, (hregisters _).2 ⟨file, hmem, ?_⟩⟩
  -- a file that an import leads to is in absolute form
  have hnormal : p.workspace.normalize d.file = d.file := by
    obtain ⟨content, found, -, -, hfirst⟩ := hleads
    obtain ⟨r, -, htarget⟩ := List.exists_of_findSome?_eq_some hfirst
    obtain ⟨b, -, hresolve⟩ := Option.bind_eq_some_iff.1 htarget
    obtain ⟨q, hq⟩ := exists_normalize_of_resolve? hresolve
    rw [hq]
    exact Path.normalize_normalize hcwd q
  rw [hnormal]
  exact registers_of_leads h hkey hleads

/-- A registration file with a quoted key, a composite reference and an import under another name. -/
def sampleRegistry : String :=
  "import \x7b Mail as M \x7d from './src/mail'\n" ++
    "register(\x7b 'mail.v2': asClass( M ), mail: asFunction(make(M)) \x7d)\n"

/-- A source file with a call that is broken over lines. -/
def sampleCaller : String := "const m = container\n  .resolve<Mail>('mail.v2')\n"

/-- A project with one registration file, one file that it registers and one that calls it. -/
def sample : Project :=
  { workspace :=
      { tree :=
          { entries :=
              [(["p"], .directory),
               (["p", "di.ts"], .file (sampleRegistry.toList.map fun c => c.toNat.toUInt8)),
               (["p", "src"], .directory),
               (["p", "src", "app.ts"], .file (sampleCaller.toList.map fun c => c.toNat.toUInt8)),
               (["p", "src", "mail.ts"], .file [])] }
        cwd := ⟨.single, []⟩ }
    root := ⟨.single, ["p"]⟩
    settings := { Settings.default with registryGlobs := ["di.ts"], includeGlobs := [] } }

/-- The registration file of the sample. -/
def sampleRegistryFile : Path := ⟨.single, ["p", "di.ts"]⟩

/-- The file that it registers. -/
def sampleFile : Path := ⟨.single, ["p", "src", "mail.ts"]⟩

theorem sample_registryFiles : (sample.registryFiles.outcome none).1 = .ok [sampleRegistryFile] :=
  eq_ok_of_toOption (by decide +kernel)

theorem key_mem_keys_of_mem_definitions_sample :
    sample.settings.templates = Template.builtin ∧ sample.workspace.cwd.isAbsolute = true ∧
    (sample.registryFiles.outcome none).1 = .ok [sampleRegistryFile] ∧
    KeyText "mail.v2".toList ∧
    ∃ ds, ((sample.definitions "mail.v2").outcome none).1 = .ok ds ∧
      ∀ d ∈ ds, ∃ ks, ((sample.keys d.file).outcome none).1 = .ok ks ∧ some "mail.v2" ∈ ks := by
  have hkey : KeyText "mail.v2".toList :=
    ⟨'m', by decide, Or.inr ⟨"ail.v".toList, '2', by decide, by decide, by decide⟩⟩
  exact ⟨rfl, rfl, sample_registryFiles, hkey,
    key_mem_keys_of_mem_definitions sample rfl rfl sample_registryFiles "mail.v2" hkey⟩

/-! ## Back from a file -/

/-- A registration file with the given text contributes a key of a target: it imports a name from the
target, and looking that name up in it finds the key. -/
def Contributes (p : Project) (file : Path) (content : List Char) (target : Path) (key : String) :
    Prop :=
  ∃ b ∈ Import.all content,
    p.resolver.resolve? p.workspace b.specifier file p.root = some target ∧
    ∃ found, reverse p.settings.templates content [b.localName] = .ok found ∧ some key ∈ found

/-- A text is unambiguous about a key: every name that it imports is a bare identifier and bound once,
and the key has one registration, whose reference is a bare identifier. -/
structure Unambiguous (p : Project) (content : List Char) (key : String) : Prop where
  bare : ∀ b ∈ Import.all content, BareName b.localName.toList
  once : ∀ b ∈ Import.all content,
    (Import.all content).countP (fun c => c.localName == b.localName) = 1
  single : ∃ r, forward p.settings.templates content key = .ok [r] ∧ BareName r.reference.toList

theorem registers_iff_contributes (h : ∀ t ∈ p.settings.templates, Wrapped t) {file target : Path}
    {key : String} :
    p.Registers file target (some key) ↔
      ∃ content, p.workspace.source? file = some content ∧
        p.Contributes file content target key := by
  refine exists_congr fun content => and_congr_right fun _ => ?_
  constructor
  · rintro ⟨t, ht, s, hs, hfinds⟩
    obtain ⟨b, hb, hresolve, rfl⟩ := mem_namesFrom.1 hs
    obtain ⟨found, hfound, hmem⟩ := exists_reverse h content [b.localName]
    refine ⟨b, hb, hresolve, found, hfound, (hmem _).2 ⟨t, ht, b.localName, ?_, hfinds⟩⟩
    exact List.mem_singleton_self _
  · rintro ⟨b, hb, hresolve, found, hfound, hkey⟩
    obtain ⟨found', hfound', hmem⟩ := exists_reverse h content [b.localName]
    obtain rfl : found' = found := Except.ok.inj (hfound'.symm.trans hfound)
    obtain ⟨t, ht, s, hs, hfinds⟩ := (hmem _).1 hkey
    rw [List.mem_singleton] at hs
    subst hs
    exact ⟨t, ht, _, mem_namesFrom.2 ⟨b, hb, hresolve, rfl⟩, hfinds⟩

/-- A name that is bound once is found with its binding. -/
theorem find?_eq_of_once {content : List Char} {b : Binding} (hb : b ∈ Import.all content)
    (hbare : BareName b.localName.toList)
    (honce : (Import.all content).countP (fun c => c.localName == b.localName) = 1) :
    Import.find? content b.localName = some b := by
  have hid : isIdentifier b.localName.toList = true := by
    obtain ⟨c, rest, hcs, hc, hrest⟩ := hbare
    rw [hcs, isIdentifier, hc, Bool.true_and, Bool.or_eq_true]
    exact Or.inl (List.all_eq_true.2 hrest)
  rw [Import.find?, if_pos hid]
  rw [List.countP_eq_length_filter, List.length_eq_one_iff] at honce
  obtain ⟨a, ha⟩ := honce
  -- `a` is the only binding of the name, so the search cannot stop at another one
  have hfilter : ∀ c, c ∈ Import.all content → c.localName = b.localName → c = a := by
    intro c hc hname
    rw [← List.mem_singleton, ← ha, List.mem_filter]
    exact ⟨hc, by simpa using hname⟩
  obtain ⟨c, hc⟩ : ∃ c, (Import.all content).find? (fun c => c.localName == b.localName) = some c := by
    rw [← Option.isSome_iff_exists, List.find?_isSome]
    exact ⟨b, hb, by simp⟩
  have hname : c.localName = b.localName := by simpa using List.find?_some hc
  rw [hc, hfilter c (List.mem_of_find?_eq_some hc) hname, hfilter b hb rfl]

theorem leads_of_contributes (h : ∀ t ∈ p.settings.templates, Wrapped t) {file target : Path}
    {content : List Char} {key : String} (hsource : p.workspace.source? file = some content)
    (hcontributes : p.Contributes file content target key) (hclear : p.Unambiguous content key) :
    p.Leads key file target := by
  obtain ⟨b, hb, hresolve, found, hfound, hkey⟩ := hcontributes
  obtain ⟨r, hr, hreference⟩ := hclear.single
  have hsymbols : ∀ s ∈ [b.localName], BareName s.toList :=
    List.forall_mem_singleton.2 (hclear.bare b hb)
  have hname : r.reference = b.localName :=
    List.mem_singleton.1 (reference_mem_of_reverse h hsymbols hfound hkey hr hreference)
  refine ⟨content, [r], hsource, hr, ?_⟩
  have htarget : p.target? file content r.reference = some target := by
    rw [target?, hname, find?_eq_of_once hb (hclear.bare b hb) (hclear.once b hb)]
    exact hresolve
  rw [List.findSome?_cons, htarget]

theorem keyText_of_registers {file target : Path} {key : String}
    (h : p.Registers file target (some key)) : KeyText key.toList := by
  obtain ⟨content, -, t, -, s, -, wrapper, kind, -, -, m, hm, k, hgroup, hk⟩ := h
  obtain ⟨k', hk', hgroup'⟩ := keyText_of_mem_reverse hm
  obtain rfl : k' = k := Option.some.inj (hgroup'.symm.trans hgroup)
  rw [Option.some.inj hk]
  simpa using hk'

/-- **A file is found from its keys, where the registration file is unambiguous.**  With the built-in
templates and registration files that can be found, looking a file up succeeds; each of its keys is
contributed by a registration file; and if one that contributes it is unambiguous about it, then the
key has a definition in the file. -/
theorem exists_definition_of_mem_keys (p : Project)
    (htemplates : p.settings.templates = Template.builtin) {files : List Path}
    (hfiles : (p.registryFiles.outcome none).1 = .ok files) (file : Path) :
    ∃ ks, ((p.keys file).outcome none).1 = .ok ks ∧ ∀ key, some key ∈ ks →
      (∃ d ∈ files, ∃ content, p.workspace.source? d = some content ∧
        p.Contributes d content (p.workspace.normalize file) key) ∧
      ∀ d ∈ files, ∀ content, p.workspace.source? d = some content →
        p.Contributes d content (p.workspace.normalize file) key → p.Unambiguous content key →
        ∃ ds, ((p.definitions key).outcome none).1 = .ok ds ∧
          ∃ r ∈ ds, r.file = p.workspace.normalize file := by
  have h : ∀ t ∈ p.settings.templates, Wrapped t :=
    fun t ht => wrapped_of_mem_builtin (htemplates ▸ ht)
  have hgives := gives_registryFiles hfiles
  obtain ⟨ks, hks, -, hregisters⟩ := exists_keys h hgives file
  refine ⟨ks, hks.outcome, ?_⟩
  intro key hkey
  obtain ⟨d, hd, hreg⟩ := (hregisters _).1 hkey
  refine ⟨⟨d, hd, (registers_iff_contributes h).1 hreg⟩, ?_⟩
  intro d hd content hsource hcontributes hclear
  obtain ⟨ds, hds, hfile⟩ := exists_definitions h (keyText_of_registers hreg) hgives
  exact ⟨ds, hds.outcome,
    (hfile _).2 ⟨d, hd, leads_of_contributes h hsource hcontributes hclear⟩⟩

theorem sample_imports :
    Import.all sampleRegistry.toList = [⟨"./src/mail", .named "Mail", "M"⟩] := by decide +kernel

theorem sample_contributes :
    sample.Contributes sampleRegistryFile sampleRegistry.toList
      sampleFile "mail.v2" := by
  refine ⟨⟨"./src/mail", .named "Mail", "M"⟩, sample_imports ▸ List.mem_singleton_self _,
    by decide +kernel, ?_⟩
  have hwrapped : ∀ t ∈ sample.settings.templates, Wrapped t := fun t ht => wrapped_of_mem_builtin ht
  obtain ⟨found, hfound, hmem⟩ := exists_reverse hwrapped sampleRegistry.toList ["M"]
  have htemplate : Template.wrapped "asClass" "class" ∈ sample.settings.templates :=
    List.mem_cons_of_mem _ List.mem_cons_self
  refine ⟨found, hfound, (hmem _).2 ⟨_, htemplate, "M", List.mem_singleton_self _, "asClass", "class",
    rfl, by decide, ?_⟩⟩
  have hmatch : ∃ m ∈ Regex.findAll (Template.reverseBody "asClass".toList "M".toList)
      sampleRegistry.toList, m.group? 1 = some "mail.v2".toList := by decide +kernel
  obtain ⟨m, hm, hgroup⟩ := hmatch
  exact ⟨m, hm, _, hgroup, rfl⟩

theorem sample_source :
    sample.workspace.source? sampleRegistryFile = some sampleRegistry.toList := by decide +kernel

theorem sample_keys : ∃ ks, Gives (sample.keys sampleFile) (.ok ks) ∧ some "mail.v2" ∈ ks := by
  have hwrapped : ∀ t ∈ sample.settings.templates, Wrapped t := fun t ht => wrapped_of_mem_builtin ht
  obtain ⟨ks, hks, -, hregisters⟩ := exists_keys hwrapped (gives_registryFiles sample_registryFiles)
    sampleFile
  refine ⟨ks, hks, (hregisters _).2 ⟨_, List.mem_singleton_self _, ?_⟩⟩
  exact (registers_iff_contributes hwrapped).2 ⟨_, sample_source, sample_contributes⟩

theorem sample_forward : forward sample.settings.templates sampleRegistry.toList "mail.v2" =
    .ok [⟨"mail.v2", "M", "class"⟩] := by
  show forward Template.builtin _ _ = _
  rw [forward_builtin]
  exact congrArg Except.ok (by decide +kernel)

theorem sample_unambiguous : sample.Unambiguous sampleRegistry.toList "mail.v2" where
  bare := by
    rw [sample_imports]
    exact List.forall_mem_singleton.2 ⟨'M', [], rfl, by decide, by simp⟩
  once := by
    rw [sample_imports]
    decide
  single := ⟨_, sample_forward, 'M', [], rfl, by decide, by simp⟩

theorem exists_definition_of_mem_keys_sample :
    sample.settings.templates = Template.builtin ∧
    (sample.registryFiles.outcome none).1 = .ok [sampleRegistryFile] ∧
    (∃ ks, ((sample.keys sampleFile).outcome none).1 = .ok ks ∧
      some "mail.v2" ∈ ks) ∧
    sample.workspace.source? sampleRegistryFile = some sampleRegistry.toList ∧
    sample.Contributes sampleRegistryFile sampleRegistry.toList
      sampleFile "mail.v2" ∧
    sample.Unambiguous sampleRegistry.toList "mail.v2" ∧
    ∃ ds, ((sample.definitions "mail.v2").outcome none).1 = .ok ds ∧
      ∃ r ∈ ds, r.file = sampleFile := by
  obtain ⟨ks, hks, hkeys⟩ := exists_definition_of_mem_keys sample rfl sample_registryFiles sampleFile
  obtain ⟨ks', hks', hmem⟩ := sample_keys
  obtain rfl : ks = ks' := Except.ok.inj (hks.symm.trans hks'.outcome)
  exact ⟨rfl, sample_registryFiles, ⟨ks, hks, hmem⟩, sample_source, sample_contributes,
    sample_unambiguous, (hkeys "mail.v2" hmem).2 _ (List.mem_singleton_self _) _ sample_source
      sample_contributes sample_unambiguous⟩

end ServiceKeys.Project
