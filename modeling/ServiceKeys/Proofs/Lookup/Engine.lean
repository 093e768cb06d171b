import ServiceKeys.Proofs.Lookup.Polls
import ServiceKeys.Proofs.Registration.Directions
import ServiceKeys.Lookup.Engine

/-!
# What the two directions come to

The outcome of every step of a lookup through registration files.  Only two things can go wrong: the
registration files cannot be found, or a template cannot be read.  A file that cannot be read is
passed over, and so is a specifier without a file; with wrapped templates a lookup therefore comes to
a result whenever the registration files do (`exists_definitions`, `exists_keys`), and that result is
read off the registrations and the imports of those files.
-/

namespace ServiceKeys

open Lookup Registration

/-! ## Files and specifiers -/

/-- The text of a source file, if it can be read. -/
def Workspace.source? (w : Workspace) (p : Path) : Option (List Char) :=
  (w.asking FileTree.readSource p).toOption

theorem polls_readSource (w : Workspace) (file : Path.Given) :
    Polls (w.readSource file) (.ok (w.source? file.path)) 0 := by
  rw [Workspace.readSource, Workspace.source?]
  cases w.asking FileTree.readSource file.path with
  | ok text => exact polls_pure _
  | error e => exact (polls_debug _).bind_ok (polls_pure _)

theorem polls_resolve (r : Resolver) (w : Workspace) (specifier : String) (importer : Path.Given)
    (root : Path) :
    Polls (r.resolve w specifier importer root)
      (.ok (r.resolve? w specifier importer.path root)) 0 := by
  rw [Resolver.resolve]
  cases r.resolve? w specifier importer.path root with
  | some p => exact polls_pure _
  | none => exact (polls_debug _).bind_ok (polls_pure _)

namespace Project

variable (p : Project)

theorem silent_globMatches (w : Workspace) (root : Path) (glob : String) :
    Silent (globMatches w root glob) := by
  rw [globMatches]
  cases Glob.parse glob with
  | error fault => exact ⟨_, polls_throw _⟩
  | ok g => exact silent_bind ⟨_, polls_accessed _⟩ fun ps => ⟨_, polls_pure _⟩

theorem silent_addFiles (w : Workspace) (files ps : List Path) : Silent (addFiles w files ps) := by
  refine silent_foldlM ?_ _ _
  intro files q
  split
  · exact ⟨_, polls_pure _⟩
  · apply silent_bind ⟨_, polls_accessed _⟩
    intro found
    split
    · exact ⟨_, polls_pure _⟩
    · exact ⟨_, polls_pure _⟩

/-- The registration files are found or not, however the search starts. -/
theorem silent_registryFiles : Silent p.registryFiles := by
  refine silent_bind (silent_foldlM ?_ _ _) fun files =>
    silent_bind ⟨_, polls_debug _⟩ fun _ => ⟨_, polls_pure _⟩
  intro files glob
  apply silent_bind (silent_globMatches _ _ _)
  intro found
  split
  · exact silent_bind ⟨_, polls_debug _⟩ fun _ => silent_addFiles _ _ _
  · exact silent_addFiles _ _ _

/-! ## Forward -/

/-- The file that a name of a registration file is imported from. -/
def target? (file : Path) (content : List Char) (name : String) : Option Path :=
  (Import.find? content name).bind fun b =>
    p.resolver.resolve? p.workspace b.specifier file p.root

theorem polls_locateSymbol (w : Workspace) (file : Path.Given) (symbol : String)
    (defaultExport : Bool) :
    Polls (locateSymbol w file symbol defaultExport)
      (.ok ((w.source? file.path).bind fun content =>
        (Declaration.locate? content symbol.toList defaultExport).map Declaration.Found.position)) 0 := by
  refine (polls_readSource w file).bind_ok ?_
  cases w.source? file.path with
  | none => exact polls_pure _
  | some content =>
      dsimp only [Option.bind_some]
      cases Declaration.locate? content symbol.toList defaultExport with
      | none => exact polls_pure _
      | some found =>
          dsimp only [Option.map_some]
          cases found.shape with
          | none => exact polls_pure _
          | some shape => exact (polls_debug _).bind_ok (polls_pure _)

/-- Where the declaration behind a binding stands in the text of its file.  A module as a whole has no
declaration. -/
def declared? (b : Binding) (content : List Char) : Option Text.Position :=
  match b.exported with
  | .all => none
  | .default => (Declaration.locate? content b.localName.toList true).map Declaration.Found.position
  | .named name => (Declaration.locate? content name.toList false).map Declaration.Found.position

theorem polls_bindingPosition (w : Workspace) (b : Binding) (target : Path) :
    Polls (bindingPosition w b target) (.ok ((w.source? target).bind (declared? b))) 0 := by
  rcases b with ⟨specifier, exported, localName⟩
  cases exported with
  | default => exact polls_locateSymbol w target localName true
  | all =>
      have hnone : (w.source? target).bind (declared? ⟨specifier, .all, localName⟩) = none := by
        cases w.source? target <;> rfl
      rw [hnone]
      exact polls_pure _
  | named name => exact polls_locateSymbol w target name false

/-- The place of the declaration behind a binding, or the start of its file. -/
def placeOf (w : Workspace) (b : Binding) (target : Path) : Text.Position :=
  ((w.source? target).bind (declared? b)).getD ⟨0, 0⟩

/-- The definition behind one registration of a file with the given text. -/
def definitionOf? (key : String) (file : Path) (content : List Char) (r : Registration) :
    Option Definition :=
  (Import.find? content r.reference).bind fun b =>
    (p.resolver.resolve? p.workspace b.specifier file p.root).map fun target =>
      ⟨key, target, placeOf p.workspace b target⟩

/-- The definition behind a registration is in the file that its reference is imported from. -/
theorem map_file_definitionOf? (key : String) (file : Path) (content : List Char) (r : Registration) :
    (p.definitionOf? key file content r).map Definition.file =
      p.target? file content r.reference := by
  rw [definitionOf?, target?, Option.map_bind]
  congr 1
  funext b
  rw [Function.comp_apply, Option.map_map]
  exact Option.map_id_apply

theorem polls_definitionOf (key : String) (file : Path) (content : List Char) (r : Registration) :
    Polls (p.definitionOf key file content r) (.ok (p.definitionOf? key file content r)) 0 := by
  rw [definitionOf, definitionOf?]
  cases hid : Text.isIdentifier r.reference.toList with
  | false =>
      -- what is no identifier is not imported either
      have hfind : Import.find? content r.reference = none := by
        rw [Import.find?, hid]
        rfl
      rw [hfind]
      exact (polls_debug _).bind_ok (polls_pure _)
  | true =>
      cases Import.find? content r.reference with
      | none => exact (polls_debug _).bind_ok (polls_pure _)
      | some b =>
          have hresolve : Polls (p.resolver.resolve p.workspace b.specifier file p.root)
              (.ok (p.resolver.resolve? p.workspace b.specifier file p.root)) 0 := polls_resolve ..
          refine hresolve.bind_ok ?_
          rw [Option.bind_some]
          cases p.resolver.resolve? p.workspace b.specifier file p.root with
          | none => exact polls_pure _
          | some target =>
              refine (polls_bindingPosition p.workspace b target).bind_ok ?_
              rw [Option.map_some, placeOf]
              cases (p.workspace.source? target).bind (declared? b) with
              | some position => exact polls_pure _
              | none => exact (polls_debug _).bind_ok (polls_pure _)

/-- The first registration that leads to a definition decides. -/
theorem polls_firstDefinition (key : String) (file : Path) (content : List Char)
    (found : List Registration) :
    Polls (p.firstDefinition key file content found)
      (.ok (found.findSome? (p.definitionOf? key file content))) 0 := by
  induction found with
  | nil => exact polls_pure _
  | cons r rest ih =>
      rw [firstDefinition, List.findSome?_cons]
      refine (p.polls_definitionOf key file content r).bind_ok ?_
      cases p.definitionOf? key file content r with
      | some d => exact polls_pure _
      | none => exact ih

/-- The definition of a key by a registration file, if it can be read. -/
def definitionIn? (key : String) (file : Path) : Option Definition :=
  (p.workspace.source? file).bind fun content =>
    (forward p.settings.templates content key).toOption.bind
      (List.findSome? (p.definitionOf? key file content))

theorem definitionIn?_eq_some_iff {key : String} {file : Path} {d : Definition} :
    p.definitionIn? key file = some d ↔
      ∃ content found, p.workspace.source? file = some content ∧
        forward p.settings.templates content key = .ok found ∧
        found.findSome? (p.definitionOf? key file content) = some d := by
  simp only [definitionIn?, Option.bind_eq_some_iff]
  constructor
  · rintro ⟨content, hsource, found, hfound, hfirst⟩
    exact ⟨content, found, hsource, eq_ok_of_toOption hfound, hfirst⟩
  · rintro ⟨content, found, hsource, hfound, hfirst⟩
    exact ⟨content, hsource, found, by rw [hfound]; rfl, hfirst⟩

theorem key_of_definitionIn? {key : String} {file : Path} {d : Definition}
    (h : p.definitionIn? key file = some d) : d.key = key := by
  obtain ⟨content, found, -, -, hfirst⟩ := p.definitionIn?_eq_some_iff.1 h
  obtain ⟨r, -, hr⟩ := List.exists_of_findSome?_eq_some hfirst
  obtain ⟨b, -, hr⟩ := Option.bind_eq_some_iff.1 hr
  obtain ⟨target, -, rfl⟩ := Option.map_eq_some_iff.1 hr
  rfl

/-- The definitions of a key by registration files, in their order and without duplicates. -/
def definitionsFrom (key : String) (files : List Path) : List Definition :=
  distinctBy (fun d => (d.file, d.position)) (files.filterMap (p.definitionIn? key))

/-- What is dropped is there already: definitions of one key are told apart by their places. -/
theorem mem_definitionsFrom_iff {key : String} {files : List Path} {d : Definition} :
    d ∈ p.definitionsFrom key files ↔ ∃ file ∈ files, p.definitionIn? key file = some d := by
  have hsource : ∀ {d}, d ∈ p.definitionsFrom key files →
      ∃ file ∈ files, p.definitionIn? key file = some d :=
    fun hd => List.mem_filterMap.1 ((distinctBy_sublist _).mem hd)
  refine ⟨hsource, fun ⟨file, hfile, hd⟩ => ?_⟩
  obtain ⟨⟨key', target, position⟩, hd', hplace⟩ : ∃ d' ∈ p.definitionsFrom key files,
      (d'.file, d'.position) = (d.file, d.position) :=
    exists_mem_distinctBy (List.mem_filterMap.2 ⟨file, hfile, hd⟩)
  obtain ⟨rfl, rfl⟩ := Prod.mk.inj hplace
  obtain ⟨file', -, hd''⟩ := hsource hd'
  obtain rfl : key' = d.key := (p.key_of_definitionIn? hd'').trans (p.key_of_definitionIn? hd).symm
  exact hd'

variable {p}

theorem polls_definitionIn (h : ∀ t ∈ p.settings.templates, Wrapped t) (key : String)
    (file : Path) : Polls (p.definitionIn key file) (.ok (p.definitionIn? key file)) 1 := by
  have hread : Polls (p.workspace.readSource file) (.ok (p.workspace.source? file)) 0 :=
    polls_readSource ..
  refine Polls.after_poll (hread.bind_ok ?_)
  rw [definitionIn?]
  cases p.workspace.source? file with
  | none => exact polls_pure _
  | some content =>
      obtain ⟨found, hfound, -⟩ := exists_forward h content key
      have hregistrations : Polls (p.registrations key file content) (.ok found) 0 := by
        rw [registrations, hfound]
        cases found with
        | nil => exact polls_pure _
        | cons r rest => exact (polls_debug _).bind_ok (polls_pure _)
      rw [Option.bind_some, hfound]
      exact hregistrations.bind_ok (p.polls_firstDefinition key file content found)

/-- **The definitions of a key** are those of its registration files, in their order and without
duplicates; finding them takes one poll for each registration file. -/
theorem polls_definitions (h : ∀ t ∈ p.settings.templates, Wrapped t) {key : String}
    (hkey : Text.trim key.toList ≠ []) {files : List Path}
    (hfiles : Gives p.registryFiles (.ok files)) :
    Polls (p.definitions key) (.ok (p.definitionsFrom key files)) files.length := by
  have hall : Polls (files.mapM (p.definitionIn key)) (.ok (files.map (p.definitionIn? key)))
      (files.length * 1) :=
    polls_mapM_const (List.forall₂_map_right_iff.2
      (List.forall₂_same.2 fun file _ => polls_definitionIn h key file))
  have hblank : (Text.trim key.toList).isEmpty = false := List.isEmpty_eq_false_iff.2 hkey
  rw [definitions, hblank, ← Nat.mul_one files.length]
  refine (p.silent_registryFiles.polls hfiles).bind_ok (hall.bind_silent ?_)
  rw [List.filterMap_map, Function.id_comp]
  dsimp only
  split
  · exact (polls_info _).bind_ok (polls_pure _)
  · exact polls_pure _

/-- A registration file leads from a key to a file: of the registrations of the key, the first one
whose reference is imported from a file is imported from this one. -/
def Leads (p : Project) (key : String) (file target : Path) : Prop :=
  ∃ content found, p.workspace.source? file = some content ∧
    forward p.settings.templates content key = .ok found ∧
    (found.findSome? fun r => p.target? file content r.reference) = some target

theorem leads_iff {key : String} {file target : Path} :
    p.Leads key file target ↔ ∃ d, p.definitionIn? key file = some d ∧ d.file = target := by
  have hfirst : ∀ (content : List Char) (found : List Registration),
      (found.findSome? fun r => p.target? file content r.reference) =
        (found.findSome? (p.definitionOf? key file content)).map Definition.file := by
    intro content found
    rw [List.map_findSome?]
    congr 1
    funext r
    exact (p.map_file_definitionOf? key file content r).symm
  simp only [Leads, hfirst, Option.map_eq_some_iff, p.definitionIn?_eq_some_iff]
  constructor
  · rintro ⟨content, found, hsource, hfound, d, hd, rfl⟩
    exact ⟨d, ⟨content, found, hsource, hfound, hd⟩, rfl⟩
  · rintro ⟨d, ⟨content, found, hsource, hfound, hd⟩, rfl⟩
    exact ⟨content, found, hsource, hfound, d, hd, rfl⟩

/-- **The definitions of a key** lie in the files that the registration files lead to, and finding
them takes one poll for each registration file. -/
theorem exists_polls_definitions (h : ∀ t ∈ p.settings.templates, Wrapped t) {key : String}
    (hkey : Text.trim key.toList ≠ []) {files : List Path}
    (hfiles : Gives p.registryFiles (.ok files)) :
    ∃ ds, Polls (p.definitions key) (.ok ds) files.length ∧
      ∀ target, (∃ d ∈ ds, d.file = target) ↔ ∃ file ∈ files, p.Leads key file target := by
  refine ⟨_, polls_definitions h hkey hfiles, fun target => ?_⟩
  simp only [leads_iff, mem_definitionsFrom_iff]
  constructor
  · rintro ⟨d, ⟨file, hfile, hd⟩, rfl⟩
    exact ⟨file, hfile, d, hd, rfl⟩
  · rintro ⟨file, hfile, d, hd, rfl⟩
    exact ⟨d, ⟨file, hfile, hd⟩, rfl⟩

theorem exists_definitions (h : ∀ t ∈ p.settings.templates, Wrapped t) {key : String}
    (hkey : KeyText key.toList) {files : List Path} (hfiles : Gives p.registryFiles (.ok files)) :
    ∃ ds, Gives (p.definitions key) (.ok ds) ∧
      ∀ target, (∃ d ∈ ds, d.file = target) ↔ ∃ file ∈ files, p.Leads key file target := by
  obtain ⟨ds, hds, hfile⟩ := exists_polls_definitions h hkey.trim_ne_nil hfiles
  exact ⟨ds, hds.gives, hfile⟩

/-! ## Reverse -/

section Specifiers

variable {file : Path}

/-- What is known about specifiers is what resolving them comes to. -/
def Faithful (p : Project) (file : Path) (known : List (String × Option Path)) : Prop :=
  ∀ s o, known.lookup s = some o → o = p.resolver.resolve? p.workspace s file p.root

/-- Looking a specifier up keeps what is known and adds the specifier. -/
theorem exists_resolveOnce {known : List (String × Option Path)} (hknown : p.Faithful file known)
    (s : String) :
    ∃ known', Polls (p.resolveOnce file known s) (.ok known') 0 ∧ p.Faithful file known' ∧
      (known'.lookup s).isSome ∧ ∀ x, (known.lookup x).isSome → (known'.lookup x).isSome := by
  rw [resolveOnce]
  cases hs : (known.lookup s).isSome with
  | true => exact ⟨known, polls_pure _, hknown, hs, fun _ => id⟩
  | false =>
      -- the new pair stands behind the known ones and hides none of them
      have hself : ∀ target : Option Path, List.lookup s [(s, target)] = some target := by
        intro target
        rw [List.lookup_cons, beq_self_eq_true]
      refine ⟨known ++ [(s, p.resolver.resolve? p.workspace s file p.root)],
        (polls_resolve _ _ _ _ _).bind_ok (polls_pure _), ?_, ?_, ?_⟩
      · intro x o hx
        rw [List.lookup_append, Option.or_eq_some_iff] at hx
        rcases hx with hx | ⟨-, hx⟩
        · exact hknown x o hx
        · by_cases hxs : x = s
          · subst hxs
            exact (Option.some.inj ((hself _).symm.trans hx)).symm
          · simp [List.lookup_cons, beq_eq_false_iff_ne.2 hxs] at hx
      · rw [List.lookup_append, hself, Option.isSome_or]
        simp
      · intro x hx
        rw [List.lookup_append, Option.isSome_or, hx, Bool.true_or]

/-- After all specifiers are looked up, every one of them is known for what it comes to. -/
theorem exists_resolveAll (bs : List Binding) {known : List (String × Option Path)}
    (hknown : p.Faithful file known) :
    ∃ known', Polls (bs.foldlM (fun known b => p.resolveOnce file known b.specifier) known)
        (.ok known') 0 ∧ p.Faithful file known' ∧
      (∀ x, (known.lookup x).isSome → (known'.lookup x).isSome) ∧
      ∀ b ∈ bs, (known'.lookup b.specifier).isSome := by
  induction bs generalizing known with
  | nil => exact ⟨known, polls_pure _, hknown, fun _ => id, by simp⟩
  | cons b bs ih =>
      obtain ⟨known₁, hpolls₁, hknown₁, hb, hkept₁⟩ := exists_resolveOnce hknown b.specifier
      obtain ⟨known₂, hpolls₂, hknown₂, hkept₂, hbs⟩ := ih hknown₁
      rw [List.foldlM_cons]
      refine ⟨known₂, hpolls₁.bind_ok hpolls₂, hknown₂, fun x hx => hkept₂ x (hkept₁ x hx), ?_⟩
      exact List.forall_mem_cons.2 ⟨hkept₂ _ hb, hbs⟩

end Specifiers

/-- The names that a registration file imports from a target. -/
def namesFrom (p : Project) (file : Path) (content : List Char) (target : Path) : List String :=
  ((Import.all content).filter fun b =>
    p.resolver.resolve? p.workspace b.specifier file p.root == some target).map Binding.localName

theorem polls_importedNames (file : Path) (content : List Char) (target : Path) :
    Polls (p.importedNames file content target) (.ok (p.namesFrom file content target)) 0 := by
  have hempty : p.Faithful file [] := fun s o h => by simp at h
  obtain ⟨known, hpolls, hknown, -, hall⟩ := exists_resolveAll (Import.all content) hempty
  have hnames : ((Import.all content).filter fun b =>
      known.lookup b.specifier == some (some target)).map Binding.localName =
      p.namesFrom file content target := by
    refine congrArg (List.map Binding.localName) (List.filter_congr ?_)
    intro b hb
    obtain ⟨o, ho⟩ := Option.isSome_iff_exists.1 (hall b hb)
    rw [ho, hknown _ _ ho]
    rfl
  rw [← hnames]
  exact hpolls.bind_ok (polls_pure _)

/-- A registration file registers a target under a key: a template finds the key for a name that the
file imports from the target. -/
def Registers (p : Project) (file target : Path) (o : Option String) : Prop :=
  ∃ content, p.workspace.source? file = some content ∧
    ∃ t ∈ p.settings.templates, ∃ s ∈ p.namesFrom file content target, FindsKey t content s o

theorem exists_keysIn (h : ∀ t ∈ p.settings.templates, Wrapped t) (target file : Path) :
    ∃ ks, Polls (p.keysIn target file) (.ok ks) 1 ∧ ∀ o, o ∈ ks ↔ p.Registers file target o := by
  have hread := polls_readSource p.workspace file
  cases hsource : p.workspace.source? file with
  | none =>
      have hread' : Polls (p.workspace.readSource file) (.ok none) 0 := hsource ▸ hread
      refine ⟨[], Polls.after_poll (hread'.bind_ok (polls_pure _)), ?_⟩
      intro o
      simp [Registers, hsource]
  | some content =>
      have hread' : Polls (p.workspace.readSource file) (.ok (some content)) 0 := hsource ▸ hread
      obtain ⟨ks, hks, hmem⟩ := exists_reverse h content (p.namesFrom file content target)
      have hregisters : ∀ o, p.Registers file target o ↔ ∃ t ∈ p.settings.templates,
          ∃ s ∈ p.namesFrom file content target, FindsKey t content s o := by
        simp [Registers, hsource]
      have hnames := p.polls_importedNames file content target
      cases hempty : (p.namesFrom file content target).isEmpty with
      | true =>
          -- without names the templates are not asked, and they would find nothing
          refine ⟨[], Polls.after_poll (hread'.bind_ok (hnames.bind_ok ?_)), ?_⟩
          · rw [hempty]
            exact polls_pure _
          · intro o
            rw [hregisters, List.isEmpty_iff.1 hempty]
            simp
      | false =>
          refine ⟨ks, Polls.after_poll (hread'.bind_ok (hnames.bind_ok ?_)), ?_⟩
          · rw [hempty, hks]
            exact polls_pure _
          · intro o
            rw [hregisters, hmem]

/-- **The keys of a file** are those under which the registration files register it, each once, and
finding them takes one poll for each registration file. -/
theorem exists_polls_keys (h : ∀ t ∈ p.settings.templates, Wrapped t) {files : List Path}
    (hfiles : Gives p.registryFiles (.ok files)) (file : Path) :
    ∃ ks, Polls (p.keys file) (.ok ks) files.length ∧ ks.Nodup ∧
      ∀ o, o ∈ ks ↔ ∃ d ∈ files, p.Registers d (p.workspace.normalize file) o := by
  choose ks hks hmem using exists_keysIn h (p.workspace.normalize file)
  have hall : Polls (files.mapM (p.keysIn (p.workspace.normalize file))) (.ok (files.map ks))
      (files.length * 1) :=
    polls_mapM_const (List.forall₂_map_right_iff.2 (List.forall₂_same.2 fun d _ => hks d))
  refine ⟨distinct (files.map ks).flatten, ?_, nodup_distinct _, ?_⟩
  · rw [keys, ← Nat.mul_one files.length]
    exact (p.silent_registryFiles.polls hfiles).bind_ok (hall.bind_silent (polls_pure _))
  · intro o
    rw [mem_distinct, List.mem_flatten]
    simp only [List.mem_map, exists_exists_and_eq_and, hmem]

theorem exists_keys (h : ∀ t ∈ p.settings.templates, Wrapped t) {files : List Path}
    (hfiles : Gives p.registryFiles (.ok files)) (file : Path) :
    ∃ ks, Gives (p.keys file) (.ok ks) ∧ ks.Nodup ∧
      ∀ o, o ∈ ks ↔ ∃ d ∈ files, p.Registers d (p.workspace.normalize file) o := by
  obtain ⟨ks, hks, hspec⟩ := exists_polls_keys h hfiles file
  exact ⟨ks, hks.gives, hspec⟩

end Project

end ServiceKeys
