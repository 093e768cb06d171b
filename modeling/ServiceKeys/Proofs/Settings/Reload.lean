import ServiceKeys.Settings.Document
import ServiceKeys.Proofs.Settings.Built

/-!
# Settings in a document and back

Settings are written into a document with everything in them, and a document is read by building
settings once more.  So what is read back is what was written if building changes nothing the second
time: collections have lost their duplicates already, templates are tables of two texts, numbers and
switches are what they are.  The one exception is the search directory.  Its blanks are dropped before
its separators, so that blanks in front of the separators are left at its end, and are dropped the
next time.  Main statement: `ofDocument_toDocument`.
-/

namespace ServiceKeys

/-! ## Collections -/

namespace Value

/-- Values that may be members, none of them the same as one before it. -/
structure Apart (members : List Value) : Prop where
  isMember : ∀ v ∈ members, v.isMember = true
  differ : members.Pairwise fun a b => a.sameMember b = false

theorem apart_append_singleton {members : List Value} {v : Value} :
    Apart (members ++ [v]) ↔
      Apart members ∧ v.isMember = true ∧ members.any (·.sameMember v) = false := by
  constructor
  · rintro ⟨hmember, hdiffer⟩
    rw [List.forall_mem_append, List.forall_mem_singleton] at hmember
    rw [List.pairwise_append] at hdiffer
    refine ⟨⟨hmember.1, hdiffer.1⟩, hmember.2, List.any_eq_false.2 fun a ha => ?_⟩
    simpa using hdiffer.2.2 a ha v (List.mem_singleton_self v)
  · rintro ⟨⟨hmember, hdiffer⟩, hv, hnew⟩
    refine ⟨List.forall_mem_append.2 ⟨hmember, List.forall_mem_singleton.2 hv⟩,
      List.pairwise_append.2 ⟨hdiffer, List.pairwise_singleton _ v, ?_⟩⟩
    rintro a ha _ hb
    rw [List.mem_singleton.1 hb]
    simpa using List.any_eq_false.1 hnew a ha

/-- Adding a member keeps members apart. -/
theorem Apart.addMember {members members' : List Value} {v : Value} (h : Apart members)
    (hadd : addMember members v = .ok members') : Apart members' := by
  unfold Value.addMember at hadd
  split at hadd
  · simp at hadd
  · rename_i hmember
    split at hadd
    · exact Except.ok.inj hadd ▸ h
    · rename_i hnew
      obtain rfl := Except.ok.inj hadd
      exact apart_append_singleton.2 ⟨h, by simpa using hmember, by simpa using hnew⟩

theorem addMember_of_apart {members : List Value} {v : Value} (h : Apart (members ++ [v])) :
    Value.addMember members v = .ok (members ++ [v]) := by
  obtain ⟨-, hmember, hnew⟩ := apart_append_singleton.1 h
  simp [Value.addMember, hmember, hnew]

/-- What is left of a collection is apart. -/
theorem apart_of_distinct {items members : List Value} (h : distinct items = .ok members) :
    Apart members := by
  suffices hfold : ∀ (items done : List Value), Apart done →
      items.foldlM Value.addMember done = .ok members → Apart members from
    hfold items [] ⟨by simp, .nil⟩ h
  intro items
  induction items with
  | nil =>
      intro done hdone h
      exact Except.ok.inj h ▸ hdone
  | cons v items ih =>
      intro done hdone h
      rw [List.foldlM_cons, bind_eq_ok_iff] at h
      obtain ⟨done', hadd, h⟩ := h
      exact ih done' (hdone.addMember hadd) h

/-- A collection that is apart is left alone. -/
theorem distinct_of_apart {members : List Value} (h : Apart members) :
    distinct members = .ok members := by
  suffices hfold : ∀ rest done : List Value, Apart (done ++ rest) →
      rest.foldlM Value.addMember done = .ok (done ++ rest) from hfold members [] h
  intro rest
  induction rest with
  | nil =>
      intro done _
      rw [List.append_nil]
      rfl
  | cons v rest ih =>
      intro done hall
      rw [List.append_cons] at hall ⊢
      have hfront : Apart (done ++ [v]) :=
        ⟨(List.forall_mem_append.1 hall.isMember).1, (List.pairwise_append.1 hall.differ).1⟩
      rw [List.foldlM_cons, addMember_of_apart hfront]
      exact ih _ hall

theorem apart_texts {texts : List String} (h : texts.Nodup) : Apart (texts.map .text) := by
  refine ⟨by simp [isMember], List.pairwise_map.2 (h.imp ?_)⟩
  intro a b hne
  simpa [sameMember] using hne

/-- No key of a table is there twice.  Other values have no keys. -/
def SingleKeyed : Value → Prop
  | .table entries => (entries.map Prod.fst).Nodup
  | _ => True

theorem apart_of_asCollection {v : Value} (hv : v.SingleKeyed) {members : List Value}
    (h : v.asCollection = .ok members) : Apart members := by
  cases v with
  | text s =>
      obtain rfl := Except.ok.inj h
      exact apart_texts (List.nodup_singleton s)
  | list items => exact apart_of_distinct h
  | table entries =>
      obtain rfl := Except.ok.inj h
      have htexts := apart_texts hv
      rw [List.map_map] at htexts
      exact htexts
  | _ => simp [asCollection] at h

end Value

namespace Draft

/-- No table that is given for a collection has a key twice. -/
def SingleKeyed (d : Draft) : Prop :=
  ∀ v, some v ∈ [d.registryGlobs, d.callForms, d.includeGlobs, d.extensions, d.excludedDirs] →
    v.SingleKeyed

end Draft

namespace Settings

/-- **A collection comes to the same a second time.** -/
theorem collection_again {given : Option Value} (hgiven : ∀ v, some v = given → v.SingleKeyed)
    {builtin : List String} (hbuiltin : builtin.Nodup) {members : List Value}
    (h : collection given builtin = .ok members) (other : List String) :
    collection (some (.list members)) other = .ok members := by
  apply Value.distinct_of_apart
  cases given with
  | none =>
      obtain rfl := Except.ok.inj h
      exact Value.apart_texts hbuiltin
  | some v => exact Value.apart_of_asCollection (hgiven v rfl) h

/-! ## Templates -/

theorem asTemplates_entries {ts : List Template} (h : ts.Nodup) :
    (Value.list (ts.map templateEntry)).asTemplates = .ok ts := by
  have hentries : (ts.map templateEntry).mapM Value.asTemplate = .ok ts :=
    mapM_eq_ok_iff.2 (List.forall₂_map_left_iff.2 (List.forall₂_same.2 fun _ _ => rfl))
  have hdistinct : distinct ts = ts := distinctBy_eq_self h
  show ((ts.map templateEntry).mapM Value.asTemplate >>= fun ts => .ok (distinct ts)) = .ok ts
  rw [hentries]
  exact congrArg Except.ok hdistinct

theorem nodup_templates {given : Option Value} {ts : List Template}
    (h : (given.map Value.asTemplates).getD (.ok default.templates) = .ok ts) : ts.Nodup := by
  cases given with
  | none =>
      obtain rfl := Except.ok.inj h
      decide
  | some v =>
      obtain ⟨items, -, h⟩ := bind_eq_ok_iff.1 h
      obtain ⟨all, -, h⟩ := bind_eq_ok_iff.1 h
      obtain rfl := Except.ok.inj h
      exact nodup_distinct all

/-! ## The search directory -/

open Text

/-- A separator at the end of a search directory. -/
def isSeparator (c : Char) : Bool := c == '/' || c == '\\'

/-- A text that does not begin in a blank and does not end in a separator. -/
structure IsRootText (cs : List Char) : Prop where
  first : ∀ c ∈ cs.head?, isBlank c = false
  last : ∀ c ∈ cs.getLast?, isSeparator c = false

theorem isRootText_asDirectory (v : Value) : IsRootText v.asDirectory.toList := by
  rw [Value.asDirectory, String.toList_ofList]
  refine ⟨fun c hc => ?_, fun c hc => not_of_mem_getLast?_dropEndWhile hc⟩
  exact not_blank_of_mem_head?_trim (mem_head?_of_mem_head?_dropEndWhile hc)

/-- **A search directory is read back as it is exactly when it does not end in a blank.** -/
theorem asDirectory_eq_self_iff {root : String} (h : IsRootText root.toList) :
    (Value.text root).asDirectory = root ↔ ∀ c ∈ root.toList.getLast?, isBlank c = false := by
  rw [← String.toList_inj, Value.asDirectory, String.toList_ofList]
  show dropEndWhile isSeparator (trim root.toList) = root.toList ↔ _
  constructor
  · intro heq c hc
    -- nothing can have been dropped, so the text was trimmed
    have hprefix : dropEndWhile isSeparator (trim root.toList) <+: trim root.toList :=
      ⟨_, dropEndWhile_append _ _⟩
    rw [heq] at hprefix
    have hle : (trim root.toList).length ≤ root.toList.length := by
      obtain ⟨a, b, -, -, hcut⟩ := trim_append root.toList
      have hlen := congrArg List.length hcut
      simp only [List.length_append] at hlen
      omega
    have htrim : root.toList = trim root.toList := hprefix.eq_of_length_le hle
    exact not_blank_of_mem_getLast?_trim (htrim ▸ hc)
  · intro hlast
    have htrim : trim root.toList = root.toList := by
      have := trim_eq (a := []) (b := []) (by simp [Blanks]) (by simp [Blanks]) h.first hlast
      simpa using this
    rw [htrim]
    exact dropEndWhile_eq_self h.last

theorem isRootText_of_built {d : Draft} {s : Settings} (h : Built d s) :
    IsRootText s.searchRoot.toList := by
  rw [← h.searchRoot]
  cases d.searchRoot with
  | none =>
      have hroot : IsRootText ['s', 'r', 'c'] := by
        constructor
        · rintro c ⟨⟩
          decide
        · rintro c ⟨⟩
          decide
      exact hroot
  | some v => exact isRootText_asDirectory v

/-! ## Reading back -/

/-- What is given when settings are read back from their document. -/
def reread (s : Settings) : Draft where
  registryGlobs := some (.list (s.registryGlobs.map .text))
  callForms := some (.list (s.callForms.map .text))
  templates := some (.list (s.templates.map templateEntry))
  includeGlobs := some (.list (s.includeGlobs.map .text))
  searchRoot := some (.text s.searchRoot)
  extensions := some (.list (s.extensions.map .text))
  excludedDirs := some (.list s.excludedDirs)
  debug := some (.bool s.debug)
  workers := some (.int s.workers)

theorem inDocument_eq_ok_iff {r : Building Settings} {s : Settings} :
    inDocument r = .ok s ↔ r = .ok s := by
  cases r with
  | ok t => rfl
  | error e =>
      unfold inDocument
      dsimp only
      split <;> simp

theorem ofDocument_toDocument_eq (s : Settings) :
    ofDocument s.toDocument = inDocument (ofDraft s.reread) := rfl

theorem collected_reread {given : Option Value} {builtin texts : List String}
    {check : Value → Building String} (hgiven : ∀ v, some v = given → v.SingleKeyed)
    (hbuiltin : builtin.Nodup) (h : Collected given builtin check texts) :
    Collected (some (.list (texts.map .text))) builtin check texts :=
  ⟨collection_again hgiven hbuiltin h.collected _, h.passes⟩

/-- **Everything but the search directory is read back as it was written.** -/
theorem built_reread_iff {d : Draft} (hd : d.SingleKeyed) {s : Settings} (h : Built d s)
    {s' : Settings} : Built s.reread s' ↔
      s' = { s with searchRoot := (Value.text s.searchRoot).asDirectory } ∧ Inside s'.searchRoot := by
  have hbuilt : Inside (Value.text s.searchRoot).asDirectory →
      Built s.reread { s with searchRoot := (Value.text s.searchRoot).asDirectory } := by
    intro hinside
    exact {
      registry := collected_reread (fun v hv => hd v (by simp [hv])) (by decide) h.registry
      registry_ne := h.registry_ne
      includes := collected_reread (fun v hv => hd v (by simp [hv])) (by decide) h.includes
      calls := collected_reread (fun v hv => hd v (by simp [hv])) (by decide) h.calls
      calls_ne := h.calls_ne
      extensions := collected_reread (fun v hv => hd v (by simp [hv])) (by decide) h.extensions
      extensions_ne := h.extensions_ne
      excluded := collection_again (fun v hv => hd v (by simp [hv])) .nil h.excluded []
      templates := asTemplates_entries (nodup_templates h.templates)
      templates_ne := h.templates_ne
      templates_pass := h.templates_pass
      workers := rfl
      workers_pos := h.workers_pos
      debug := rfl
      searchRoot := rfl
      inside := hinside }
  constructor
  · intro h'
    have hroot : (Value.text s.searchRoot).asDirectory = s'.searchRoot := h'.searchRoot
    exact ⟨h'.unique (hbuilt (hroot ▸ h'.inside)), h'.inside⟩
  · rintro ⟨rfl, hinside⟩
    exact hbuilt hinside

theorem ofDocument_toDocument_eq_ok_iff {d : Draft} (hd : d.SingleKeyed) {s : Settings}
    (h : ofDraft d = .ok s) {s' : Settings} : ofDocument s.toDocument = .ok s' ↔
      s' = { s with searchRoot := (Value.text s.searchRoot).asDirectory } ∧ Inside s'.searchRoot := by
  rw [ofDocument_toDocument_eq, inDocument_eq_ok_iff, ofDraft_eq_ok_iff,
    built_reread_iff hd (ofDraft_eq_ok_iff.1 h)]

/-- **Settings are read back from their document as they are, unless their search directory ends in a
blank.**  Let settings be built from values of any kind, tables without duplicate keys.  What their
document is read as, if it is accepted at all, has every field as it was but for the search directory,
which loses the blanks at its end and the separators in front of them; and it is accepted if that
directory is still inside the project.  So nothing changes exactly when there is no blank at the end
of the search directory. -/
theorem ofDocument_toDocument {d : Draft} (hd : d.SingleKeyed) {s : Settings}
    (h : ofDraft d = .ok s) :
    (ofDocument s.toDocument = .ok s ↔ ∀ c ∈ s.searchRoot.toList.getLast?, isBlank c = false) ∧
    ∀ s', ofDocument s.toDocument = .ok s' ↔
      s' = { s with searchRoot := (Value.text s.searchRoot).asDirectory } ∧ Inside s'.searchRoot := by
  have hbuilt := ofDraft_eq_ok_iff.1 h
  refine ⟨?_, fun s' => ofDocument_toDocument_eq_ok_iff hd h⟩
  rw [ofDocument_toDocument_eq_ok_iff hd h, ← asDirectory_eq_self_iff (isRootText_of_built hbuilt)]
  constructor
  · rintro ⟨heq, -⟩
    exact (congrArg Settings.searchRoot heq).symm
  · intro heq
    exact ⟨by rw [heq], hbuilt.inside⟩

/-! ## Settings that are read back, and some that are not -/

/-- Values for every setting: duplicates, a text for a collection, templates as a pair and a table. -/
def sampleGiven : Draft where
  registryGlobs := some (.list [.text "di.ts", .text "di/*.ts", .text "di.ts"])
  includeGlobs := some (.list [])
  callForms := some (.text "container . resolve")
  templates := some (.list [.list [.text (Template.wrapped "asClass" "class").source, .text "class"],
    templateEntry (Template.wrapped "asValue" "value")])
  searchRoot := some (.text " src/app/ ")
  excludedDirs := some (.text "generated")
  debug := some (.bool true)
  workers := some (.int 2)

/-- The settings that are built from them. -/
def sampleBuilt : Settings where
  registryGlobs := ["di.ts", "di/*.ts"]
  includeGlobs := []
  callForms := ["container . resolve"]
  templates := [Template.wrapped "asClass" "class", Template.wrapped "asValue" "value"]
  searchRoot := "src/app"
  extensions := default.extensions
  excludedDirs := [.text "generated"]
  debug := true
  workers := 2

theorem ofDraft_sampleGiven : ofDraft sampleGiven = .ok sampleBuilt :=
  ofDraft_eq_ok_iff.2 {
    registry := ⟨rfl, fun g hg => eq_ok_of_toOption (by revert g; decide)⟩
    registry_ne := by decide
    includes := ⟨rfl, by simp [sampleBuilt]⟩
    calls := ⟨rfl, fun g hg => eq_ok_of_toOption (by revert g; decide)⟩
    calls_ne := by decide
    extensions := collected_none (by decide)
    extensions_ne := by decide
    excluded := rfl
    templates := rfl
    templates_ne := by decide
    templates_pass := fun t ht => checkTemplate_builtin t (by revert t; decide)
    workers := rfl
    workers_pos := by decide
    debug := rfl
    searchRoot := by decide
    inside := by decide }

theorem singleKeyed_sampleGiven : sampleGiven.SingleKeyed := by
  simp [Draft.SingleKeyed, sampleGiven, Value.SingleKeyed]

theorem ofDocument_toDocument_sample :
    sampleGiven.SingleKeyed ∧ ofDraft sampleGiven = .ok sampleBuilt ∧
    ofDocument sampleBuilt.toDocument = .ok sampleBuilt := by
  have hlast : ∀ c ∈ sampleBuilt.searchRoot.toList.getLast?, isBlank c = false := by
    rintro c ⟨⟩
    decide
  exact ⟨singleKeyed_sampleGiven, ofDraft_sampleGiven,
    (ofDocument_toDocument singleKeyed_sampleGiven ofDraft_sampleGiven).1.2 hlast⟩

/-- Settings that give a search directory inside the project and keep all else can be built. -/
theorem ofDraft_searchRoot (given root : String) (hroot : (Value.text given).asDirectory = root)
    (hinside : Inside root) :
    ofDraft { searchRoot := some (.text given) } = .ok { default with searchRoot := root } :=
  ofDraft_eq_ok_iff.2 { built_default with searchRoot := hroot, inside := hinside }

/-- With a blank in front of the separator at its end, one search directory is read back as another
one, and a second one is not accepted any more. -/
theorem ofDocument_toDocument_blank :
    ofDraft { searchRoot := some (.text "src /") } = .ok { default with searchRoot := "src " } ∧
    ofDocument (toDocument { default with searchRoot := "src " }) =
      .ok { default with searchRoot := "src" } ∧
    ofDraft { searchRoot := some (.text ".. /") } = .ok { default with searchRoot := ".. " } ∧
    ∀ s, ofDocument (toDocument { default with searchRoot := ".. " }) ≠ .ok s := by
  have hsingle : ∀ v, Draft.SingleKeyed { searchRoot := some v } := by simp [Draft.SingleKeyed]
  have hsrc := ofDraft_searchRoot "src /" "src " (by decide) (by decide)
  have hdots := ofDraft_searchRoot ".. /" ".. " (by decide) (by decide)
  refine ⟨hsrc, ?_, hdots, ?_⟩
  · have hagain : "src" = (Value.text "src ").asDirectory := by decide
    exact (ofDocument_toDocument_eq_ok_iff (hsingle _) hsrc).2
      ⟨congrArg (fun root => { default with searchRoot := root }) hagain, by decide⟩
  · intro s hs
    obtain ⟨rfl, hinside⟩ := (ofDocument_toDocument_eq_ok_iff (hsingle _) hdots).1 hs
    exact absurd hinside (by decide)

end Settings

end ServiceKeys
