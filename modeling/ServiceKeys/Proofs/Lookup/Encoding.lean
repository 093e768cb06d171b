import ServiceKeys.Lookup.Engine
import ServiceKeys.Proofs.Text.Utf8

/-!
# Lookups do not depend on encodings

A lookup sees the bytes of a file as the text that they hold, and nothing else of them.  So a workspace in
which every file is written in one uniform encoding (`Workspace.uniform`) looks like the original to every
lookup: with the same result, the same log and as many polls.  Listings carry entries with their bytes, but
only names and kinds of entries are looked at.  Two workspaces whose files hold the same texts become one
when they are made uniform, hence lookups in them are the same.  Main statement:
`Project.encoding_insensitive`.
-/

namespace ServiceKeys

open Text

/-! ## Trees in a uniform encoding -/

/-- An entry with its text in the uniform encoding. -/
def Entry.uniform : Entry → Entry
  | .file bytes => .file (Text.uniform bytes)
  | e => e

namespace FileTree

/-- A tree with all its files in the uniform encoding. -/
def uniform (t : FileTree) : FileTree := { t with entries := t.entries.map fun (q, e) => (q, e.uniform) }

/-- What was reached, in the uniform encoding. -/
def Reached.uniform (r : Reached) : Reached := { r with entry := r.entry.uniform }

theorem lookup_uniform (entries : List (List String × Entry)) (place : List String) :
    (entries.map fun (q, e) => (q, e.uniform)).lookup place = (entries.lookup place).map Entry.uniform := by
  induction entries with
  | nil => rfl
  | cons x entries ih =>
      rw [List.map_cons, List.lookup_cons, List.lookup_cons]
      split
      · rfl
      · exact ih

theorem entryAt?_uniform (t : FileTree) (place : List String) :
    t.uniform.entryAt? place = (t.entryAt? place).map Entry.uniform := by
  rw [entryAt?, entryAt?, uniform, lookup_uniform]
  split
  · rfl
  · rfl

theorem reachWith_uniform (t : FileTree) {follow follow' : List String → List String → Except AccessCause Reached}
    (hfollow : ∀ place parts, follow' place parts = (follow place parts).map Reached.uniform)
    (place parts : List String) :
    t.uniform.reachWith follow' place parts = (t.reachWith follow place parts).map Reached.uniform := by
  induction parts generalizing place with
  | nil => rfl
  | cons part rest ih =>
      simp only [reachWith, ih, entryAt?_uniform]
      split
      · rfl
      split
      · rfl
      split
      · rfl
      cases t.entryAt? (place ++ [part]) with
      | none => rfl
      | some e =>
          cases e with
          | file bytes =>
              simp only [Option.map_some, Entry.uniform]
              split <;> rfl
          | directory => rfl
          | link target => exact hfollow _ _

/-- **What a path leads to is the same place**, whatever the encodings. -/
theorem reachFrom_uniform (t : FileTree) (n : Nat) (place parts : List String) :
    t.uniform.reachFrom n place parts = (t.reachFrom n place parts).map Reached.uniform := by
  induction n generalizing place parts with
  | zero =>
      rw [reachFrom, reachFrom]
      refine t.reachWith_uniform ?_ place parts
      exact fun _ _ => rfl
  | succ n ih =>
      rw [reachFrom, reachFrom]
      exact t.reachWith_uniform ih place parts

theorem reach_uniform (t : FileTree) (p : Path) : t.uniform.reach p = (t.reach p).map Reached.uniform := by
  rw [reach, reach, reachFrom_uniform]
  cases t.reachFrom linkLimit [] p.parts <;> rfl

/-- A question that does not look at bytes has the same answer. -/
theorem asks_uniform (t : FileTree) {sort : Entry → Bool} (hsort : ∀ e, sort e.uniform = sort e) (p : Path) :
    t.uniform.asks sort p = t.asks sort p := by
  rw [asks, asks, reach_uniform]
  cases t.reach p with
  | error e => rfl
  | ok r => exact congrArg Except.ok (hsort r.entry)

theorem isFileEntry_uniform (e : Entry) : isFileEntry e.uniform = isFileEntry e := by cases e <;> rfl

theorem isDirectoryEntry_uniform (e : Entry) : isDirectoryEntry e.uniform = isDirectoryEntry e := by
  cases e <;> rfl

theorem isFile_uniform (t : FileTree) : t.uniform.isFile = t.isFile :=
  funext (t.asks_uniform isFileEntry_uniform)

theorem isDirectory_uniform (t : FileTree) : t.uniform.isDirectory = t.isDirectory :=
  funext (t.asks_uniform isDirectoryEntry_uniform)

theorem exists?_uniform (t : FileTree) : t.uniform.exists? = t.exists? :=
  funext (t.asks_uniform fun _ => rfl)

/-- **The text of a file is the same.** -/
theorem readSource_uniform (t : FileTree) : t.uniform.readSource = t.readSource := by
  funext p
  have hopen : t.uniform.open? p = (t.open? p).map Text.uniform := by
    rw [open?, open?, reach_uniform]
    cases t.reach p with
    | error e => rfl
    | ok r => rcases r with ⟨place, e⟩; cases e <;> rfl
  rw [readSource, readSource, hopen]
  cases t.open? p with
  | error e => rfl
  | ok bytes =>
      show (if _ then _ else Except.ok (sourceText (Text.uniform bytes))) = _
      rw [sourceText_uniform]
      rfl

/-- The names in a directory with their entries in the uniform encoding. -/
def uniformNames (names : List (String × Entry)) : List (String × Entry) :=
  names.map fun (name, e) => (name, e.uniform)

theorem children_uniform (t : FileTree) (place : List String) :
    t.uniform.children place = uniformNames (t.children place) := by
  rw [children, children, uniform, uniformNames, List.filterMap_map, List.map_filterMap]
  refine List.filterMap_congr fun x _ => ?_
  simp only [Function.comp_apply]
  split
  · rw [Option.map_map]
    rfl
  · rfl

theorem list_uniform (t : FileTree) (p : Path) : t.uniform.list p = (t.list p).map uniformNames := by
  rw [list, list, reach_uniform]
  show (if t.unlistable p.parts then _ else _) = _
  cases t.unlistable p.parts with
  | true => rfl
  | false =>
      cases t.reach p with
      | error e => rfl
      | ok r =>
          rcases r with ⟨place, e⟩
          cases e with
          | directory => exact congrArg Except.ok (t.children_uniform place)
          | file bytes => rfl
          | link target => rfl

theorem length_entries_uniform (t : FileTree) : t.uniform.entries.length = t.entries.length :=
  List.length_map _

end FileTree

/-! ## Globs -/

namespace Glob

theorem listed_uniform (t : FileTree) (p : Path) :
    listed t.uniform p = (listed t p).map FileTree.uniformNames := by
  rw [listed, listed, FileTree.list_uniform]
  cases t.list p with
  | error e =>
      show (if refused e then _ else _) = Except.map _ (if refused e then _ else _)
      split <;> rfl
  | ok names => rfl

/-- The directories among names are the same. -/
theorem filterMap_uniformNames (p : Path) (names : List (String × Entry)) :
    (FileTree.uniformNames names).filterMap
        (fun (name, e) => if e == .directory then some (p.child name) else none) =
      names.filterMap fun (name, e) => if e == .directory then some (p.child name) else none := by
  rw [FileTree.uniformNames, List.filterMap_map]
  refine List.filterMap_congr fun x _ => ?_
  rcases x with ⟨name, e⟩
  cases e <;> rfl

theorem directories_uniform (t : FileTree) (depth : Nat) (p : Path) :
    directories t.uniform depth p = directories t depth p := by
  induction depth generalizing p with
  | zero => rfl
  | succ depth ih =>
      rw [directories, directories, listed_uniform, funext ih]
      cases listed t p with
      | error e => rfl
      | ok names =>
          show (do
            let subs := (FileTree.uniformNames names).filterMap _
            return p :: (← subs.mapM (directories t depth)).flatten) = _
          rw [filterMap_uniformNames]
          rfl

theorem mayFollow_uniform (t : FileTree) (needsDirectory : Bool) (p : Path) :
    mayFollow t.uniform needsDirectory p = mayFollow t needsDirectory p := by
  rw [mayFollow, mayFollow, FileTree.isDirectory_uniform, FileTree.exists?_uniform]

theorem select_uniform (t : FileTree) (directoriesOnly : Bool) (cs : List Component) (p : Path) :
    select t.uniform directoriesOnly cs p = select t directoriesOnly cs p := by
  induction cs generalizing p with
  | nil => rfl
  | cons c rest ih =>
      cases c with
      | name n => simp only [select, mayFollow_uniform, ih]
      | wild ps =>
          -- of the entries that are listed, a wildcard takes the names only
          simp only [select, listed_uniform, FileTree.isDirectory_uniform, ih]
          cases listed t p with
          | error e => rfl
          | ok names =>
              show ((FileTree.uniformNames names).mapM _ >>= fun found => pure found.flatten :
                Except AccessError (List Path)) = _
              rw [FileTree.uniformNames, List.mapM_map]
              rfl
      | anyDepth =>
          simp only [select, FileTree.length_entries_uniform, directories_uniform, funext ih]

/-- **A glob matches the same paths.** -/
theorem expand_uniform (t : FileTree) (dir : Path) (g : Pattern) : expand t.uniform dir g = expand t dir g := by
  rw [expand, expand, FileTree.isDirectory_uniform, select_uniform]

end Glob

/-! ## Workspaces in a uniform encoding -/

namespace Workspace

/-- A workspace with all its files in the uniform encoding. -/
def uniform (w : Workspace) : Workspace := { w with tree := w.tree.uniform }

theorem normalize_uniform (w : Workspace) : w.uniform.normalize = w.normalize := rfl

theorem isFile_uniform (w : Workspace) : w.uniform.isFile = w.isFile := by
  funext p
  exact congrArg (Except.mapError _) (congrFun w.tree.isFile_uniform _)

theorem isDirectory_uniform (w : Workspace) : w.uniform.isDirectory = w.isDirectory := by
  funext p
  exact congrArg (Except.mapError _) (congrFun w.tree.isDirectory_uniform _)

theorem reach_uniform (w : Workspace) (p : Path) :
    w.uniform.reach p = (w.reach p).map FileTree.Reached.uniform := by
  show Except.mapError _ (w.tree.uniform.reach (w.cwd.join p)) = _
  rw [FileTree.reach_uniform, reach, asking]
  cases w.tree.reach (w.cwd.join p) <;> rfl

theorem list_uniform (w : Workspace) (p : Path) : w.uniform.list p = (w.list p).map FileTree.uniformNames := by
  show Except.mapError _ (w.tree.uniform.list (w.cwd.join p)) = _
  rw [FileTree.list_uniform, list, asking]
  cases w.tree.list (w.cwd.join p) <;> rfl

/-- **Reading a source file is the same.** -/
theorem readSource_uniform (w : Workspace) : w.uniform.readSource = w.readSource := by
  funext file
  rw [readSource, readSource, asking, asking, uniform, FileTree.readSource_uniform]

end Workspace

/-! ## Scans -/

namespace Scan

theorem inOrder_uniformNames (names : List (String × Entry)) :
    inOrder (FileTree.uniformNames names) = FileTree.uniformNames (inOrder names) := by
  rw [inOrder, inOrder, FileTree.uniformNames, FileTree.uniformNames]
  refine (List.map_mergeSort ?_).symm
  exact fun _ _ _ _ => rfl

theorem ofEntry_uniform (s : Scan) (w : Workspace) (descend : Path → Lookup (List Path)) (p : Path) (e : Entry) :
    s.ofEntry w.uniform descend p e.uniform = s.ofEntry w descend p e := by
  cases e with
  | file bytes => rfl
  | directory => rfl
  | link target =>
      simp only [ofEntry, Entry.uniform, Workspace.reach_uniform]
      cases w.reach p with
      | error e => rfl
      | ok r =>
          show (return if FileTree.isFileEntry r.entry.uniform then _ else _) = _
          rw [FileTree.isFileEntry_uniform]

theorem walk_uniform (s : Scan) (w : Workspace) (depth : Nat) (dir : Path) :
    s.walk w.uniform depth dir = s.walk w depth dir := by
  induction depth generalizing dir with
  | zero => rfl
  | succ depth ih =>
      rw [walk, walk, Workspace.list_uniform, funext ih]
      cases w.list dir with
      | error e => rfl
      | ok names =>
          refine congrArg (Lookup.poll >>= ·) (funext fun _ => ?_)
          show (do
            let found ← (inOrder (FileTree.uniformNames names)).mapM fun (name, e) =>
              s.ofEntry w.uniform (walk s w depth) (dir.child name) e
            return found.flatten) = _
          rw [inOrder_uniformNames, FileTree.uniformNames, List.mapM_map]
          simp only [Function.comp_def, ofEntry_uniform]

/-- **A scan takes the same files.** -/
theorem files_uniform (s : Scan) (w : Workspace) (dir : Path) : s.files w.uniform dir = s.files w dir := by
  rw [files, files, Workspace.isDirectory_uniform, walk_uniform]
  simp only [Workspace.uniform, FileTree.length_entries_uniform]

end Scan

namespace CallSite

theorem inFile_uniform (w : Workspace) (forms : List String) (key : String) :
    inFile w.uniform forms key = inFile w forms key := by
  funext file
  rw [inFile, inFile, Workspace.readSource_uniform]

theorem below_uniform (w : Workspace) (settings : Settings) (dir : Path) :
    below w.uniform settings dir = below w settings dir := by
  funext key
  cases key with
  | none => rfl
  | some key =>
      simp only [below, Scan.files_uniform, Workspace.normalize_uniform, inFile_uniform]

end CallSite

/-! ## Projects -/

theorem Resolver.resolve_uniform (r : Resolver) (w : Workspace) : r.resolve w.uniform = r.resolve w := by
  have hprobe : r.probe w.uniform = r.probe w := by
    funext base
    rw [probe, probe, Workspace.isFile_uniform, Workspace.normalize_uniform]
  funext specifier importer root
  rw [resolve, resolve, resolve?, resolve?, hprobe]
  rfl

namespace Project

/-- A project with all its files in the uniform encoding. -/
def uniform (p : Project) : Project := { p with workspace := p.workspace.uniform }

theorem readSource_uniform (p : Project) : p.uniform.workspace.readSource = p.workspace.readSource :=
  p.workspace.readSource_uniform

/-- The registration files are the same. -/
theorem registryFiles_uniform (p : Project) : p.uniform.registryFiles = p.registryFiles := by
  have hglob : globMatches p.workspace.uniform = globMatches p.workspace := by
    funext root glob
    simp only [globMatches, Workspace.uniform, Glob.expand_uniform]
  have hadd : addFiles p.workspace.uniform = addFiles p.workspace := by
    funext files ps
    simp only [addFiles, Workspace.normalize_uniform, Workspace.isFile_uniform]
  show locate p.workspace.uniform p.root p.settings.registryGlobs = _
  simp only [locate, Workspace.normalize_uniform, hglob, hadd]
  rfl

theorem locateSymbol_uniform (w : Workspace) : locateSymbol w.uniform = locateSymbol w := by
  funext file symbol defaultExport
  simp only [locateSymbol, Workspace.readSource_uniform]

theorem definitionOf_uniform (p : Project) : p.uniform.definitionOf = p.definitionOf := by
  have hposition : bindingPosition p.workspace.uniform = bindingPosition p.workspace := by
    funext b target
    simp only [bindingPosition, locateSymbol_uniform]
  funext key file content r
  simp only [definitionOf, uniform, resolver, Resolver.resolve_uniform, hposition]

theorem firstDefinition_uniform (p : Project) (key : String) (file : Path) (content : List Char)
    (rs : List Registration) :
    p.uniform.firstDefinition key file content rs = p.firstDefinition key file content rs := by
  induction rs with
  | nil => rfl
  | cons r rs ih => simp only [firstDefinition, definitionOf_uniform, ih]

theorem definitionIn_uniform (p : Project) (key : String) : p.uniform.definitionIn key = p.definitionIn key := by
  funext file
  simp only [definitionIn, readSource_uniform, firstDefinition_uniform]
  rfl

/-- **The definitions of a key are the same**, with their lines and columns. -/
theorem definitions_uniform (p : Project) : p.uniform.definitions = p.definitions := by
  funext key
  simp only [definitions, registryFiles_uniform, definitionIn_uniform]

theorem definitionsUnder_uniform (p : Project) : p.uniform.definitionsUnder = p.definitionsUnder := by
  funext file line column
  simp only [definitionsUnder, readSource_uniform, definitionsAt, definitions_uniform]
  rfl

theorem keys_uniform (p : Project) : p.uniform.keys = p.keys := by
  have hresolve : p.uniform.resolveOnce = p.resolveOnce := by
    funext file known specifier
    simp only [resolveOnce, uniform, resolver, Resolver.resolve_uniform]
  have hin : p.uniform.keysIn = p.keysIn := by
    funext target file
    simp only [keysIn, readSource_uniform, importedNames, hresolve]
    rfl
  funext file
  simp only [keys, registryFiles_uniform, hin]
  rfl

/-- **The references of a file are the same**, with their lines and columns. -/
theorem references_uniform (p : Project) : p.uniform.references = p.references := by
  funext file
  simp only [references, keys_uniform]
  simp only [uniform, CallSite.below_uniform]
  rfl

end Project

/-! ## Files that hold the same texts -/

/-- Two entries that are the same, or two files whose bytes hold one text. -/
inductive Entry.SameText : Entry → Entry → Prop
  | same (e : Entry) : SameText e e
  | file {cs : List Char} {bs bs' : List UInt8} (h : Encodes cs bs) (h' : Encodes cs bs') :
      SameText (.file bs) (.file bs')

theorem Entry.SameText.uniform_eq {e e' : Entry} (h : e.SameText e') : e.uniform = e'.uniform := by
  cases h with
  | same => rfl
  | file h h' =>
      rw [Entry.uniform, Entry.uniform, Text.uniform, Text.uniform, sourceText_of_encodes h,
        sourceText_of_encodes h']

/-- Two trees with the same places and the same faults, whose files hold the same texts. -/
structure FileTree.SameTexts (t t' : FileTree) : Prop where
  entries : List.Forall₂ (fun x x' => x.1 = x'.1 ∧ x.2.SameText x'.2) t.entries t'.entries
  unlistable : t.unlistable = t'.unlistable
  unreadable : t.unreadable = t'.unreadable

/-- Trees whose files hold the same texts become the same in the uniform encoding. -/
theorem FileTree.SameTexts.uniform_eq {t t' : FileTree} (h : t.SameTexts t') : t.uniform = t'.uniform := by
  have hpairs : List.Forall₂ (· = ·) t.uniform.entries t'.uniform.entries := by
    refine List.forall₂_map_left_iff.2 (List.forall₂_map_right_iff.2 ?_)
    exact h.entries.imp fun _ _ hx => Prod.ext hx.1 hx.2.uniform_eq
  have hentries : t.uniform.entries = t'.uniform.entries := by rwa [List.forall₂_eq_eq_eq] at hpairs
  rw [FileTree.mk.injEq]
  exact ⟨hentries, h.unlistable, h.unreadable⟩

/-- Two projects that differ in the encodings of their files only. -/
structure Project.SameTexts (p p' : Project) : Prop where
  tree : p.workspace.tree.SameTexts p'.workspace.tree
  cwd : p.workspace.cwd = p'.workspace.cwd
  root : p.root = p'.root
  settings : p.settings = p'.settings

theorem Project.SameTexts.uniform_eq {p p' : Project} (h : p.SameTexts p') : p.uniform = p'.uniform := by
  rw [Project.uniform, Project.uniform, Workspace.uniform, Workspace.uniform, h.tree.uniform_eq, h.cwd, h.root,
    h.settings]

/-- A path leads to a file that holds some bytes and can be read. -/
def Workspace.Holds (w : Workspace) (p : Path) (bs : List UInt8) : Prop :=
  w.tree.unreadable (w.cwd.join p).parts = false ∧ ∃ place, w.reach p = .ok ⟨place, .file bs⟩

/-- A file whose bytes hold a text is read as that text, and nothing is put into the log. -/
theorem Workspace.readSource_of_encodes {w : Workspace} {file : Path.Given} {cs : List Char} {bs : List UInt8}
    (h : Encodes cs bs) (hfile : w.Holds file.path bs) : w.readSource file = pure (some cs) := by
  obtain ⟨hopen, place, hplace⟩ := hfile
  have hreach : w.tree.reach (w.cwd.join file.path) = .ok ⟨place, .file bs⟩ := by
    rw [reach, asking] at hplace
    cases hresult : w.tree.reach (w.cwd.join file.path) with
    | ok r =>
        rw [hresult] at hplace
        exact hplace
    | error e => simp [hresult, Except.mapError] at hplace
  have hsource : w.asking FileTree.readSource file.path = .ok cs := by
    rw [asking, FileTree.readSource, hopen, FileTree.open?, hreach, ← sourceText_of_encodes h]
    rfl
  rw [readSource, hsource]

namespace Project

/-- **Reading is insensitive to encodings.**  Bytes that hold a text are read as that text, however they hold
it; and projects whose files hold the same texts are the same to every lookup, with all lines and columns
that it reports, with its log and its polls. -/
theorem encoding_insensitive :
    (∀ cs bs, Encodes cs bs → ∀ (w : Workspace) (file : Path.Given), w.Holds file.path bs →
      w.readSource file = pure (some cs)) ∧
    ∀ p p' : Project, p.SameTexts p' →
      p.registryFiles = p'.registryFiles ∧ p.definitions = p'.definitions ∧
      p.definitionsUnder = p'.definitionsUnder ∧ p.keys = p'.keys ∧ p.references = p'.references ∧
      CallSite.below p.workspace p.settings = CallSite.below p'.workspace p'.settings := by
  refine ⟨fun cs bs h w file => Workspace.readSource_of_encodes h, fun p p' h => ?_⟩
  have huniform := h.uniform_eq
  have hworkspace : p.workspace.uniform = p'.workspace.uniform := congrArg workspace huniform
  refine ⟨?_, ?_, ?_, ?_, ?_, ?_⟩
  · rw [← registryFiles_uniform, huniform, registryFiles_uniform]
  · rw [← definitions_uniform, huniform, definitions_uniform]
  · rw [← definitionsUnder_uniform, huniform, definitionsUnder_uniform]
  · rw [← keys_uniform, huniform, keys_uniform]
  · rw [← references_uniform, huniform, references_uniform]
  · funext dir
    rw [← CallSite.below_uniform, hworkspace, CallSite.below_uniform, h.settings]

/-- A project with one file. -/
def oneFile (bs : List UInt8) : Project where
  workspace := { tree := { entries := [(["a.ts"], .file bs)] }, cwd := ⟨.single, []⟩ }
  root := ⟨.single, []⟩
  settings := .default

/-- A text of two lines with a mark, a stray byte behind the mark and one inside of the line end. -/
def noisyLines : List UInt8 := byteOrderMark ++ [0xC0, 0x61, 0x0D, 0xFF, 0x0A, 0xC3, 0xA9]

theorem encodes_noisyLines : Encodes ['a', '\n', 'é'] noisyLines where
  unified := by decide
  unmarked := by decide
  written := ⟨.crlf, _, .stray (.inl rfl) (.char (.char (.stray (.inr (.inr (by decide))) (.char (.char .nil))))),
    .inr rfl⟩

theorem encodes_plainLines : Encodes ['a', '\n', 'é'] [0x61, 0x0A, 0xC3, 0xA9] where
  unified := by decide
  unmarked := by decide
  written := ⟨.lf, _, .char (.char (.char .nil)), .inl rfl⟩

theorem encoding_insensitive_lines :
    (oneFile noisyLines).workspace.readSource (⟨.single, ["a.ts"]⟩ : Path) = pure (some ['a', '\n', 'é']) ∧
      (oneFile noisyLines).references = (oneFile [0x61, 0x0A, 0xC3, 0xA9]).references := by
  have hholds : (oneFile noisyLines).workspace.Holds ⟨.single, ["a.ts"]⟩ noisyLines :=
    ⟨rfl, ["a.ts"], by decide +kernel⟩
  have hsame : (oneFile noisyLines).SameTexts (oneFile [0x61, 0x0A, 0xC3, 0xA9]) :=
    ⟨⟨.cons ⟨rfl, .file encodes_noisyLines encodes_plainLines⟩ .nil, rfl, rfl⟩, rfl, rfl, rfl⟩
  obtain ⟨hread, hlookups⟩ := encoding_insensitive
  exact ⟨hread _ _ encodes_noisyLines _ _ hholds, (hlookups _ _ hsame).2.2.2.2.1⟩

end Project

end ServiceKeys
