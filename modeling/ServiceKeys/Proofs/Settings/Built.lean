import ServiceKeys.Proofs.Call.Scan
import ServiceKeys.Proofs.Lookup.Outcome

/-!
# Settings that can be built

What holds of settings because they were built, and what is enough for them to be: `Settings.Built d s`
lists it field by field, and `ofDraft_eq_ok_iff` says that it is all there is.  Four of the fields are
collections of texts that pass a check, and no check changes the text that it is given.
-/

namespace ServiceKeys.Settings

/-! ## The checks -/

theorem refuseIf_eq_ok_iff {condition : Bool} {e : SettingsError} {u : Unit} :
    refuseIf condition e = .ok u ↔ condition = false := by
  cases condition <;> simp [refuseIf]

/-- A check passes texts only, and gives them back. -/
def Restates (check : Value → Building String) : Prop := ∀ v g, check v = .ok g → v = .text g

/-- A glob that is accepted is the text that was given; it is not blank, not absolute and does not
climb. -/
theorem checkRegistryGlob_eq_ok {v : Value} {g : String} (h : checkRegistryGlob v = .ok g) :
    v = .text g ∧ Path.isAnyAbsolute g.toList = false ∧ climbs g.toList = false := by
  unfold checkRegistryGlob at h
  split at h
  · simp at h
  · split at h
    · split at h
      · simp at h
      · split at h
        · simp at h
        · split at h
          · simp at h
          · rename_i habsolute hclimbs
            obtain rfl := Except.ok.inj h
            exact ⟨rfl, by simpa using habsolute, by simpa using hclimbs⟩
    · simp at h

theorem restates_checkRegistryGlob : Restates checkRegistryGlob :=
  fun _ _ h => (checkRegistryGlob_eq_ok h).1

theorem restates_checkIncludeGlob : Restates checkIncludeGlob := by
  intro v g h
  unfold checkIncludeGlob at h
  split at h
  · simp at h
  · split at h
    · rw [Except.ok.inj h]
    · simp at h

theorem restates_checkCallForm : Restates checkCallForm := by
  intro v form h
  cases v with
  | text s =>
      rw [checkCallForm] at h
      split at h
      · rw [Except.ok.inj h]
      · simp at h
  | _ => simp [checkCallForm] at h

theorem restates_checkExtension : Restates checkExtension := by
  intro v e h
  cases v with
  | text s =>
      rw [checkExtension] at h
      split at h
      · simp at h
      · rw [Except.ok.inj h]
  | _ => simp [checkExtension] at h

/-- An extension that is accepted begins with a dot. -/
theorem head?_of_checkExtension {s e : String} (h : checkExtension (.text s) = .ok e) :
    s.toList.head? = some '.' := by
  rw [checkExtension] at h
  split at h
  · simp at h
  · rename_i hpass
    by_contra hne
    exact hpass (by simp [hne])

/-- Values that pass a check are the texts that come out. -/
theorem Restates.mapM_eq_ok_iff {check : Value → Building String} (hcheck : Restates check)
    {values : List Value} {texts : List String} :
    values.mapM check = .ok texts ↔
      values = texts.map .text ∧ ∀ g ∈ texts, check (.text g) = .ok g := by
  rw [ServiceKeys.mapM_eq_ok_iff]
  constructor
  · intro h
    induction h with
    | nil => simp
    | cons hpass _ ih =>
        obtain rfl := hcheck _ _ hpass
        obtain ⟨rfl, hpasses⟩ := ih
        exact ⟨rfl, List.forall_mem_cons.2 ⟨hpass, hpasses⟩⟩
  · rintro ⟨rfl, hpasses⟩
    exact List.forall₂_map_left_iff.2 (List.forall₂_same.2 hpasses)

/-! ## What is built -/

/-- A collection of texts, given or built in, each of which passes a check. -/
structure Collected (given : Option Value) (builtin : List String) (check : Value → Building String)
    (texts : List String) : Prop where
  collected : collection given builtin = .ok (texts.map .text)
  passes : ∀ g ∈ texts, check (.text g) = .ok g

theorem Restates.collected_iff {check : Value → Building String} (hcheck : Restates check)
    {given : Option Value} {builtin texts : List String} :
    Collected given builtin check texts ↔
      ∃ values, collection given builtin = .ok values ∧ values.mapM check = .ok texts := by
  simp only [hcheck.mapM_eq_ok_iff]
  constructor
  · rintro ⟨hcollected, hpasses⟩
    exact ⟨_, hcollected, rfl, hpasses⟩
  · rintro ⟨_, hcollected, rfl, hpasses⟩
    exact ⟨hcollected, hpasses⟩

/-- A directory inside the project, given by a relative path that does not climb; or none. -/
def Inside (root : String) : Prop :=
  root ≠ "" → Path.isAnyAbsolute root.toList = false ∧ climbs root.toList = false

instance (root : String) : Decidable (Inside root) :=
  inferInstanceAs (Decidable (root ≠ "" → _ ∧ _))

/-- What makes settings out of what was given. -/
structure Built (d : Draft) (s : Settings) : Prop where
  registry : Collected d.registryGlobs default.registryGlobs checkRegistryGlob s.registryGlobs
  registry_ne : s.registryGlobs ≠ []
  includes : Collected d.includeGlobs default.includeGlobs checkIncludeGlob s.includeGlobs
  calls : Collected d.callForms default.callForms checkCallForm s.callForms
  calls_ne : s.callForms ≠ []
  extensions : Collected d.extensions default.extensions checkExtension s.extensions
  extensions_ne : s.extensions ≠ []
  excluded : collection d.excludedDirs [] = .ok s.excludedDirs
  templates : (d.templates.map Value.asTemplates).getD (.ok default.templates) = .ok s.templates
  templates_ne : s.templates ≠ []
  templates_pass : ∀ t ∈ s.templates, checkTemplate t = .ok ()
  workers : (d.workers.map Value.asInteger).getD (.ok default.workers) = .ok s.workers
  workers_pos : 1 ≤ s.workers
  debug : (d.debug.map Value.isTruthy).getD default.debug = s.debug
  searchRoot : (d.searchRoot.map Value.asDirectory).getD default.searchRoot = s.searchRoot
  inside : Inside s.searchRoot

theorem inside_iff {root : String} : Inside root ↔
    (root != "" && (Path.isAnyAbsolute root.toList || climbs root.toList)) = false := by
  rw [Bool.and_eq_false_imp, Bool.or_eq_false_iff, bne_iff_ne]
  rfl

theorem exists_mapM_checkTemplate_iff {templates : List Template} :
    (∃ units, templates.mapM checkTemplate = .ok units) ↔
      ∀ t ∈ templates, checkTemplate t = .ok () :=
  exists_mapM_eq_ok_iff.trans (forall₂_congr fun _ _ => ⟨fun ⟨_, h⟩ => h, fun h => ⟨(), h⟩⟩)

/-- **Settings are built from a draft exactly when every field is**, and nothing is left out. -/
theorem ofDraft_eq_ok_iff {d : Draft} {s : Settings} : ofDraft d = .ok s ↔ Built d s := by
  constructor
  · intro h
    simp only [ofDraft, bind_eq_ok_iff, refuseIf_eq_ok_iff] at h
    obtain ⟨registry, hregistry, calls, hcalls, includes, hincludes, extensions, hextensions,
      excluded, hexcluded, templates, htemplates, workers, hworkers, -, hregistry_ne, globs, hglobs,
      wildcards, hwildcards, -, hcalls_ne, forms, hforms, -, htemplates_ne, _, hpass, -, hinside,
      endings, hendings, -, hextensions_ne, -, hpos, h⟩ := h
    obtain rfl := Except.ok.inj h
    obtain ⟨rfl, -⟩ := restates_checkRegistryGlob.mapM_eq_ok_iff.1 hglobs
    obtain ⟨rfl, -⟩ := restates_checkCallForm.mapM_eq_ok_iff.1 hforms
    exact {
      registry := restates_checkRegistryGlob.collected_iff.2 ⟨_, hregistry, hglobs⟩
      registry_ne := by simpa using hregistry_ne
      includes := restates_checkIncludeGlob.collected_iff.2 ⟨_, hincludes, hwildcards⟩
      calls := restates_checkCallForm.collected_iff.2 ⟨_, hcalls, hforms⟩
      calls_ne := by simpa using hcalls_ne
      extensions := restates_checkExtension.collected_iff.2 ⟨_, hextensions, hendings⟩
      extensions_ne := by simpa using hextensions_ne
      excluded := hexcluded
      templates := htemplates
      templates_ne := by simpa using htemplates_ne
      templates_pass := exists_mapM_checkTemplate_iff.1 ⟨_, hpass⟩
      workers := hworkers
      workers_pos := by simpa using hpos
      debug := rfl
      searchRoot := rfl
      inside := inside_iff.2 hinside }
  · intro h
    obtain ⟨_, hpass⟩ := exists_mapM_checkTemplate_iff.2 h.templates_pass
    have hregistry := restates_checkRegistryGlob.mapM_eq_ok_iff.2 ⟨rfl, h.registry.passes⟩
    have hincludes := restates_checkIncludeGlob.mapM_eq_ok_iff.2 ⟨rfl, h.includes.passes⟩
    have hcalls := restates_checkCallForm.mapM_eq_ok_iff.2 ⟨rfl, h.calls.passes⟩
    have hextensions := restates_checkExtension.mapM_eq_ok_iff.2 ⟨rfl, h.extensions.passes⟩
    have hpos : decide (s.workers < 1) = false := by simpa using h.workers_pos
    simp only [ofDraft, bind_eq_ok_iff, refuseIf_eq_ok_iff, h.debug, h.searchRoot]
    exact ⟨_, h.registry.collected, _, h.calls.collected, _, h.includes.collected,
      _, h.extensions.collected, _, h.excluded, _, h.templates, _, h.workers,
      (), by simpa using h.registry_ne, _, hregistry, _, hincludes, (), by simpa using h.calls_ne,
      _, hcalls, (), by simpa using h.templates_ne, _, hpass, (), inside_iff.1 h.inside,
      _, hextensions, (), by simpa using h.extensions_ne, (), hpos, rfl⟩

theorem Built.unique {d : Draft} {s s' : Settings} (h : Built d s) (h' : Built d s') : s = s' :=
  Except.ok.inj ((ofDraft_eq_ok_iff.2 h).symm.trans (ofDraft_eq_ok_iff.2 h'))

/-- **The call forms of built settings are well named.** -/
theorem wellNamed_of_ofDraft {d : Draft} {s : Settings} (h : ofDraft d = .ok s) :
    ∀ form ∈ s.callForms, Call.WellNamed form :=
  fun form hform => Call.wellNamed_of_check ((ofDraft_eq_ok_iff.1 h).calls.passes form hform)

/-! ## Building from few values -/

/-- The built-in templates pass the check. -/
theorem checkTemplate_builtin : ∀ t ∈ Template.builtin, checkTemplate t = .ok () := by
  have hall : ∀ t ∈ Template.builtin, (checkTemplate t).toOption = some () := by decide +kernel
  exact fun t ht => eq_ok_of_toOption (hall t ht)

/-- What is not given is built in, and the built-in texts pass their checks. -/
theorem collected_none {builtin : List String} {check : Value → Building String}
    (h : ∀ g ∈ builtin, (check (.text g)).toOption = some g) : Collected none builtin check builtin :=
  ⟨rfl, fun g hg => eq_ok_of_toOption (h g hg)⟩

/-- The built-in settings can be built from nothing. -/
theorem built_default : Built {} default where
  registry := collected_none (by decide +kernel)
  registry_ne := (by decide : default.registryGlobs ≠ [])
  includes := collected_none (by decide +kernel)
  calls := collected_none (by decide +kernel)
  calls_ne := (by decide : default.callForms ≠ [])
  extensions := collected_none (by decide +kernel)
  extensions_ne := (by decide : default.extensions ≠ [])
  excluded := rfl
  templates := rfl
  templates_ne := (by decide : default.templates ≠ [])
  templates_pass := checkTemplate_builtin
  workers := rfl
  workers_pos := (by decide : 1 ≤ default.workers)
  debug := rfl
  searchRoot := by decide
  inside := by decide

/-- Settings that give one glob, no wildcard and a search directory, and keep all else, can be built
if what they give passes its checks. -/
theorem ofDraft_of_texts {glob root : String} (hglob : checkRegistryGlob (.text glob) = .ok glob)
    (hdirectory : (Value.text root).asDirectory = root)
    (hroot : (Path.isAnyAbsolute root.toList || climbs root.toList) = false) :
    ofDraft { registryGlobs := some (.text glob), includeGlobs := some (.list [])
              searchRoot := some (.text root) } =
      .ok { default with registryGlobs := [glob], includeGlobs := [], searchRoot := root } :=
  ofDraft_eq_ok_iff.2 { built_default with
    registry := ⟨rfl, List.forall_mem_singleton.2 hglob⟩
    registry_ne := by simp
    includes := ⟨rfl, by simp⟩
    searchRoot := hdirectory
    inside := fun _ => Bool.or_eq_false_iff.1 hroot }

/-- Settings that give extensions and keep all else can be built if these pass their check. -/
theorem ofDraft_extensions {given : Value} {extensions : List String} (hne : extensions ≠ [])
    (hgiven : Collected (some given) default.extensions checkExtension extensions) :
    ofDraft { extensions := some given } = .ok { default with extensions } :=
  ofDraft_eq_ok_iff.2 { built_default with extensions := hgiven, extensions_ne := hne }

end ServiceKeys.Settings
