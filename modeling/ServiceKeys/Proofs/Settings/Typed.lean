import ServiceKeys.Proofs.Settings.Reload

/-!
# Values of the wrong kind

A document may hold a value of any kind under any setting.  Most faults of kind are reported as faults of
the document, but not all: a fault is reported for what it is when a value lacks an operation, or when a
number is out of every range.  `Draft.Escapes` lists when that happens: some member of the registration
globs, the call forms or the extensions is no text, the number of workers is infinite, or a template has a
repetition count that is too large.  It is proved for each step of building settings which faults the step
can have, and put together over the whole.  Main statement: `Settings.ofDocument_typed`.
-/

namespace ServiceKeys

/-! ## Which faults a step can have -/

theorem FailsOnly.refuseIf {P : SettingsError → Prop} {condition : Bool} {e : SettingsError} (h : P e) :
    FailsOnly (Settings.refuseIf condition e) P := by
  cases condition
  · exact .ok ()
  · exact .error h

/-- A fault that is reported as one of the document. -/
def SettingsError.Reported (e : SettingsError) : Prop :=
  e.toClass = .configuration ∨ e.toClass = .wrongKind ∨ e.toClass = .wrongValue

/-! ## Converting values -/

namespace Value

theorem failsOnly_asCollection (v : Value) : FailsOnly v.asCollection SettingsError.Reported := by
  cases v with
  | text s => exact .ok _
  | table entries => exact .ok _
  | list items =>
      refine .foldlM fun members v _ => ?_
      unfold addMember
      split
      · exact .error (Or.inr (Or.inl rfl))
      · split
        · exact .ok _
        · exact .ok _
  | _ => exact .error (Or.inr (Or.inl rfl))

theorem failsOnly_asTemplates (v : Value) : FailsOnly v.asTemplates SettingsError.Reported := by
  refine .bind ?_ fun items _ => .bind (.mapM fun item _ => ?_) fun ts _ => .ok _
  · unfold templateItems
    split
    · exact .ok _
    · exact .ok _
    · exact .ok _
    · exact .error (Or.inr (Or.inl rfl))
  · unfold asTemplate
    split
    · split
      · exact .error (Or.inl rfl)
      · exact .ok _
    · exact .ok _
    · exact .ok _
    · exact .error (Or.inl rfl)

/-- A value has no integer for a reason that is reported, or because it is infinite. -/
theorem failsOnly_asInteger (v : Value) : FailsOnly v.asInteger fun e => e.Reported ∨
    e = .integerOfInfinity ∧ ∃ x negative, v = .float x ∧ Decimal.parts x = .infinite negative := by
  cases v with
  | bool b => exact .ok _
  | int i => exact .ok _
  | float x =>
      unfold asInteger
      dsimp only
      split
      · exact .error (Or.inl (Or.inr (Or.inr rfl)))
      · rename_i negative hparts
        exact .error (Or.inr ⟨rfl, x, negative, rfl, hparts⟩)
      · exact .ok _
  | text s =>
      unfold asInteger
      dsimp only
      split
      · exact .error (Or.inl (Or.inr (Or.inr rfl)))
      · split
        · exact .error (Or.inl (Or.inr (Or.inr rfl)))
        · exact .ok _
  | _ => exact .error (Or.inl (Or.inr (Or.inl rfl)))

/-- A value that is no text. -/
def NoText (v : Value) : Prop := ∀ s, v ≠ .text s

end Value

/-! ## Checking the meaning -/

namespace Settings

open Value (NoText)

theorem failsOnly_checkRegistryGlob (v : Value) : FailsOnly (checkRegistryGlob v) fun e =>
    e.Reported ∨ e = .lacks v.kindName "strip" ∧ v.NoText ∧ v.isTruthy = true := by
  unfold checkRegistryGlob
  split
  · exact .error (Or.inl (Or.inl rfl))
  · rename_i htruthy
    split
    · split
      · exact .error (Or.inl (Or.inl rfl))
      · split
        · exact .error (Or.inl (Or.inl rfl))
        · split
          · exact .error (Or.inl (Or.inl rfl))
          · exact .ok _
    · rename_i hnoText
      exact .error (Or.inr ⟨rfl, hnoText, by simpa using htruthy⟩)

theorem failsOnly_checkIncludeGlob (v : Value) :
    FailsOnly (checkIncludeGlob v) SettingsError.Reported := by
  unfold checkIncludeGlob
  split
  · exact .error (Or.inl rfl)
  · split
    · exact .ok _
    · exact .error (Or.inr (Or.inl rfl))

theorem failsOnly_checkCallForm (v : Value) : FailsOnly (checkCallForm v) fun e =>
    e.Reported ∨ e = .lacks v.kindName "split" ∧ v.NoText := by
  unfold checkCallForm
  split
  · split
    · exact .ok _
    · exact .error (Or.inl (Or.inl rfl))
  · rename_i hnoText
    exact .error (Or.inr ⟨rfl, hnoText⟩)

theorem failsOnly_checkExtension (v : Value) : FailsOnly (checkExtension v) fun e =>
    e.Reported ∨ e = .lacks v.kindName "startswith" ∧ v.NoText := by
  unfold checkExtension
  split
  · split
    · exact .error (Or.inl (Or.inl rfl))
    · exact .ok _
  · rename_i hnoText
    exact .error (Or.inr ⟨rfl, hnoText⟩)

/-- A template has a fault that is reported, or a repetition count that is too large. -/
theorem failsOnly_checkTemplate (t : Template) : FailsOnly (checkTemplate t) fun e =>
    e.Reported ∨ ∃ written offset, e = .badTemplate t (.unreadable written ⟨.hugeRepeat, offset⟩) ∧
      t.check = .error (.unreadable written ⟨.hugeRepeat, offset⟩) := by
  rw [checkTemplate]
  cases hcheck : t.check with
  | ok u => exact .ok _
  | error fault =>
      refine .error ?_
      have hclass : (SettingsError.badTemplate t fault).toClass = fault.toClass := rfl
      rw [SettingsError.Reported, hclass]
      unfold Template.Fault.toClass
      split
      · exact Or.inl (Or.inr (Or.inr rfl))
      · exact Or.inr ⟨_, _, rfl, rfl⟩
      · exact Or.inl (Or.inl rfl)

theorem failsOnly_collection (given : Option Value) (builtin : List String) :
    FailsOnly (collection given builtin) SettingsError.Reported := by
  cases given with
  | none => exact .ok _
  | some v => exact v.failsOnly_asCollection

end Settings

/-- When a fault of given settings is reported for what it is, and not as one of the document. -/
inductive Draft.Escapes (d : Draft) : SettingsError → Prop
  | registryGlob {members : List Value} {v : Value}
      (given : Settings.collection d.registryGlobs Settings.default.registryGlobs = .ok members)
      (member : v ∈ members) (noText : v.NoText) (truthy : v.isTruthy = true) :
      d.Escapes (.lacks v.kindName "strip")
  | callForm {members : List Value} {v : Value}
      (given : Settings.collection d.callForms Settings.default.callForms = .ok members)
      (member : v ∈ members) (noText : v.NoText) : d.Escapes (.lacks v.kindName "split")
  | extension {members : List Value} {v : Value}
      (given : Settings.collection d.extensions Settings.default.extensions = .ok members)
      (member : v ∈ members) (noText : v.NoText) : d.Escapes (.lacks v.kindName "startswith")
  | workers {x : Float} {negative : Bool} (given : d.workers = some (.float x))
      (infinite : Decimal.parts x = .infinite negative) : d.Escapes .integerOfInfinity
  | template {ts : List Template} {t : Template} {written : List Char} {offset : Option Nat}
      (given : (d.templates.map Value.asTemplates).getD (.ok Settings.default.templates) = .ok ts)
      (member : t ∈ ts) (huge : t.check = .error (.unreadable written ⟨.hugeRepeat, offset⟩)) :
      d.Escapes (.badTemplate t (.unreadable written ⟨.hugeRepeat, offset⟩))

namespace Settings

variable {d : Draft}

/-- **Building settings fails for a reason that is reported, or for one that escapes.** -/
theorem failsOnly_ofDraft (d : Draft) : FailsOnly (ofDraft d) fun e => e.Reported ∨ d.Escapes e := by
  have hreported : ∀ {α : Type} {r : Building α}, FailsOnly r SettingsError.Reported →
      FailsOnly r fun e => e.Reported ∨ d.Escapes e := fun h => h.mono fun _ => Or.inl
  unfold ofDraft
  refine (hreported (failsOnly_collection _ _)).bind fun registry hregistry => ?_
  refine (hreported (failsOnly_collection _ _)).bind fun calls hcalls => ?_
  refine (hreported (failsOnly_collection _ _)).bind fun includes _ => ?_
  refine (hreported (failsOnly_collection _ _)).bind fun extensions hextensions => ?_
  refine (hreported (failsOnly_collection _ _)).bind fun excluded _ => ?_
  refine FailsOnly.bind (hreported ?_) fun templates htemplates => ?_
  · cases d.templates with
    | none => exact .ok _
    | some v => exact v.failsOnly_asTemplates
  refine FailsOnly.bind ?_ fun workers _ => ?_
  · cases hworkers : d.workers with
    | none => exact .ok _
    | some v =>
        refine v.failsOnly_asInteger.mono fun e he => he.imp_right ?_
        rintro ⟨rfl, x, negative, rfl, hparts⟩
        exact .workers hworkers hparts
  dsimp only
  refine (FailsOnly.refuseIf (Or.inl (Or.inl rfl))).bind fun _ _ => ?_
  refine (FailsOnly.mapM fun v hv => ?_).bind fun globs _ => ?_
  · refine (failsOnly_checkRegistryGlob v).mono fun e he => he.imp_right ?_
    rintro ⟨rfl, hnoText, htruthy⟩
    exact .registryGlob hregistry hv hnoText htruthy
  refine (FailsOnly.mapM fun v _ => hreported (failsOnly_checkIncludeGlob v)).bind fun wildcards _ => ?_
  refine (FailsOnly.refuseIf (Or.inl (Or.inl rfl))).bind fun _ _ => ?_
  refine (FailsOnly.mapM fun v hv => ?_).bind fun forms _ => ?_
  · refine (failsOnly_checkCallForm v).mono fun e he => he.imp_right ?_
    rintro ⟨rfl, hnoText⟩
    exact .callForm hcalls hv hnoText
  refine (FailsOnly.refuseIf (Or.inl (Or.inl rfl))).bind fun _ _ => ?_
  refine (FailsOnly.mapM fun t ht => ?_).bind fun _ _ => ?_
  · refine (failsOnly_checkTemplate t).mono fun e he => he.imp_right ?_
    rintro ⟨written, offset, rfl, hcheck⟩
    exact .template htemplates ht hcheck
  refine (FailsOnly.refuseIf (Or.inl (Or.inl rfl))).bind fun _ _ => ?_
  refine (FailsOnly.mapM fun v hv => ?_).bind fun endings _ => ?_
  · refine (failsOnly_checkExtension v).mono fun e he => he.imp_right ?_
    rintro ⟨rfl, hnoText⟩
    exact .extension hextensions hv hnoText
  refine (FailsOnly.refuseIf (Or.inl (Or.inl rfl))).bind fun _ _ => ?_
  refine (FailsOnly.refuseIf (Or.inl (Or.inl rfl))).bind fun _ _ => ?_
  exact .ok _

/-- The members of a collection that passes its checks are texts. -/
theorem Collected.not_noText {given : Option Value} {builtin texts : List String}
    {check : Value → Building String} (h : Collected given builtin check texts) {members : List Value}
    (hmembers : collection given builtin = .ok members) {v : Value} (hv : v ∈ members) : ¬ v.NoText := by
  obtain rfl := Except.ok.inj (hmembers.symm.trans h.collected)
  obtain ⟨s, -, rfl⟩ := List.mem_map.1 hv
  exact fun hnoText => hnoText s rfl

/-- **Nothing is built from values of which a fault could escape.** -/
theorem not_escapes_of_ofDraft {s : Settings} (h : ofDraft d = .ok s) (e : SettingsError) :
    ¬ d.Escapes e := by
  have hbuilt := ofDraft_eq_ok_iff.1 h
  rintro (⟨hgiven, hv, hnoText, -⟩ | ⟨hgiven, hv, hnoText⟩ | ⟨hgiven, hv, hnoText⟩ |
    ⟨hgiven, hinfinite⟩ | ⟨hgiven, ht, hhuge⟩)
  · exact hbuilt.registry.not_noText hgiven hv hnoText
  · exact hbuilt.calls.not_noText hgiven hv hnoText
  · exact hbuilt.extensions.not_noText hgiven hv hnoText
  · have hworkers := hbuilt.workers
    simp [hgiven, Value.asInteger, hinfinite] at hworkers
  · obtain rfl := Except.ok.inj (hgiven.symm.trans hbuilt.templates)
    have hpass := hbuilt.templates_pass _ ht
    simp [checkTemplate, hhuge] at hpass

theorem toClass_of_escapes {e : SettingsError} (h : d.Escapes e) :
    e.toClass = .lacksOperation ∨ e.toClass = .outOfRange := by
  cases h with
  | workers => exact Or.inr rfl
  | template => exact Or.inr rfl
  | _ => exact Or.inl rfl

/-! ## Documents -/

/-- What the table of patterns of a document gives. -/
def given (document entries : List (String × Value)) : Draft where
  registryGlobs := Value.find? entries "di_file_globs"
  callForms := Value.find? entries "call_syntaxes"
  templates := Value.find? entries "registration"
  includeGlobs := Value.find? entries "file_include_globs"
  searchRoot := Value.find? entries "search_root"
  extensions := Value.find? entries "source_extensions"
  excludedDirs := Value.find? entries "exclude_dirs"
  debug := (debugEntry document).head?.map Prod.snd
  workers := Value.find? entries "max_workers"

/-- One entry after the other: what is picked under a name is assigned to its field, if it is there. -/
theorem foldlM_pick (key : String) (keys : List String) (entries more : List (String × Value))
    (set : Option Value → Draft) (hset : ∀ v, (set none).assign key v = .ok (set (some v))) :
    (pick (key :: keys) entries ++ more).foldlM (fun d (name, v) => Draft.assign d name v) (set none) =
      (pick keys entries ++ more).foldlM (fun d (name, v) => Draft.assign d name v)
        (set (Value.find? entries key)) := by
  rw [pick, List.filterMap_cons]
  cases Value.find? entries key with
  | none => rfl
  | some v =>
      rw [Option.map_some, List.cons_append, List.foldlM_cons]
      show ((set none).assign key v >>= _) = _
      rw [hset]
      rfl

theorem ofEntries_pick (document entries : List (String × Value)) :
    Draft.ofEntries (pick documentKeys entries ++ (match Value.find? entries "registration" with
      | some v => [("registration_templates", v)]
      | none => []) ++ debugEntry document) = .ok (given document entries) := by
  have hdebug : debugEntry document = [] ∨ ∃ v, debugEntry document = [("debug", v)] := by
    unfold debugEntry
    split
    · split
      · exact Or.inr ⟨_, rfl⟩
      · exact Or.inl rfl
    · exact Or.inl rfl
  rw [Draft.ofEntries, documentKeys, List.append_assoc]
  rw [foldlM_pick "di_file_globs" _ _ _ (fun o => { registryGlobs := o }) fun _ => rfl,
    foldlM_pick "call_syntaxes" _ _ _ (fun o => { registryGlobs := _, callForms := o }) fun _ => rfl,
    foldlM_pick "file_include_globs" _ _ _
      (fun o => { registryGlobs := _, callForms := _, includeGlobs := o }) fun _ => rfl,
    foldlM_pick "search_root" _ _ _ (fun o =>
      { registryGlobs := _, callForms := _, includeGlobs := _, searchRoot := o }) fun _ => rfl,
    foldlM_pick "source_extensions" _ _ _ (fun o =>
      { registryGlobs := _, callForms := _, includeGlobs := _, searchRoot := _, extensions := o })
      fun _ => rfl,
    foldlM_pick "exclude_dirs" _ _ _ (fun o =>
      { registryGlobs := _, callForms := _, includeGlobs := _, searchRoot := _, extensions := _,
        excludedDirs := o }) fun _ => rfl,
    foldlM_pick "max_workers" _ _ _ (fun o =>
      { registryGlobs := _, callForms := _, includeGlobs := _, searchRoot := _, extensions := _,
        excludedDirs := _, workers := o }) fun _ => rfl]
  rw [given]
  cases Value.find? entries "registration" with
  | none =>
      rcases hdebug with hdebug | ⟨v, hdebug⟩
      · rw [hdebug]
        rfl
      · rw [hdebug]
        rfl
  | some templates =>
      rcases hdebug with hdebug | ⟨v, hdebug⟩
      · rw [hdebug]
        rfl
      · rw [hdebug]
        rfl

/-- Faults of values become faults of the document; those that escape stay what they are. -/
theorem failsOnly_inDocument {r : Building Settings} {P : SettingsError → Prop}
    (h : FailsOnly r fun e => e.Reported ∨ P e) :
    FailsOnly (inDocument r) fun e => e.toClass = .configuration ∨ P e := by
  cases r with
  | ok s => exact .ok s
  | error e =>
      unfold inDocument
      dsimp only
      split
      · exact .error (Or.inl rfl)
      · exact .error (Or.inl rfl)
      · rename_i hkind hvalue
        rcases h e rfl with (hclass | hclass | hclass) | hP
        · exact .error (Or.inl hclass)
        · exact absurd hclass hkind
        · exact absurd hclass hvalue
        · exact .error (Or.inr hP)

/-- What a document gives is built if it has a table of patterns and no other settings in it. -/
theorem ofDocument_cases (document : List (String × Value)) :
    (∃ e, ofDocument document = .error e ∧ e.toClass = .configuration) ∨
    ∃ entries, (Value.find? document "patterns").getD (.table []) = .table entries ∧
      ofDocument document = inDocument (ofDraft (given document entries)) := by
  rw [ofDocument]
  split
  · rename_i entries hentries
    dsimp only
    split
    · exact Or.inl ⟨_, rfl, rfl⟩
    · refine Or.inr ⟨entries, hentries, ?_⟩
      exact congrArg inDocument (congrArg (· >>= ofDraft) (ofEntries_pick document entries))
  · exact Or.inl ⟨_, rfl, rfl⟩

/-- A fault of a document escapes: it is one of what the table of patterns gives. -/
def Escapes (document : List (String × Value)) (e : SettingsError) : Prop :=
  ∃ entries, (Value.find? document "patterns").getD (.table []) = .table entries ∧
    (given document entries).Escapes e

/-- **A document is read or has a fault of its own, unless a fault escapes.**  Whatever kinds of values
it holds, to any depth: a fault that is not one of the document is one of those that escape.  Such a
fault always has a class of its own, and a document of which one could escape is never read. -/
theorem ofDocument_typed (document : List (String × Value)) :
    (∀ e, ofDocument document = .error e → e.toClass = .configuration ∨ Escapes document e) ∧
    ∀ e, Escapes document e →
      (e.toClass = .lacksOperation ∨ e.toClass = .outOfRange) ∧ ∀ s, ofDocument document ≠ .ok s := by
  constructor
  · intro e he
    rcases ofDocument_cases document with ⟨e', he', hclass⟩ | ⟨entries, hentries, hread⟩
    · obtain rfl := Except.error.inj (he'.symm.trans he)
      exact Or.inl hclass
    · rw [hread] at he
      exact (failsOnly_inDocument (failsOnly_ofDraft _) e he).imp_right fun h => ⟨entries, hentries, h⟩
  · rintro e ⟨entries, hentries, hescapes⟩
    refine ⟨toClass_of_escapes hescapes, fun s hs => ?_⟩
    rcases ofDocument_cases document with ⟨e', he', -⟩ | ⟨entries', hentries', hread⟩
    · simp [he'] at hs
    · obtain rfl := Value.table.inj (hentries.symm.trans hentries')
      rw [hread, inDocument_eq_ok_iff] at hs
      exact not_escapes_of_ofDraft hs e hescapes

/-- A number among the registration globs or the call forms is no fault of the document, but one of its
own; among the wildcards of target files it is one. -/
theorem ofDocument_number :
    ofDocument [("patterns", .table [("di_file_globs", .list [.int 1])])] = .error (.lacks "int" "strip") ∧
    SettingsError.toClass (.lacks "int" "strip") = .lacksOperation ∧
    ofDocument [("patterns", .table [("call_syntaxes", .list [.int 1])])] = .error (.lacks "int" "split") ∧
    ofDocument [("patterns", .table [("file_include_globs", .list [.int 1])])] =
      .error (.invalidValue (.noLength "int")) :=
  ⟨rfl, rfl, rfl, rfl⟩

end Settings

end ServiceKeys
