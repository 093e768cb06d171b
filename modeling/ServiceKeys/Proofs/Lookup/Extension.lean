import ServiceKeys.Proofs.Import.Probe
import ServiceKeys.Proofs.Settings.Built

/-!
# Extensions of the scan and of the resolver

The resolver appends an extension of the settings to a path as it stands.  The scan takes the extension
of a file name from its last dot on, and looks for that among the extensions of the settings, letter
case disregarded.  So the two agree on an extension whose only dot is the first one, and on any other
one exactly if what stands from its last dot on is an extension as well.  Main statement:
`Scan.accepts_extension_exact`.
-/

namespace ServiceKeys

open Text

namespace Path

/-- An extension from its last dot on. -/
def lastPart (extension : List Char) : List Char :=
  '.' :: (extension.reverse.takeWhile (· != '.')).reverse

/-- The characters behind the last separator of a text. -/
theorem reverse_takeWhile_append {sep : Char} {front tail : List Char} (h : sep ∉ tail) :
    ((front ++ sep :: tail).reverse.takeWhile (· != sep)).reverse = tail := by
  have htail : ∀ c ∈ tail.reverse, (c != sep) = true := by
    intro c hc
    exact bne_iff_ne.2 fun heq => h (heq ▸ List.mem_reverse.1 hc)
  rw [List.reverse_append, List.reverse_cons, List.append_assoc, List.singleton_append,
    List.takeWhile_append_of_pos htail, List.takeWhile_cons_of_neg (by simp), List.append_nil,
    List.reverse_reverse]

/-- A text without separators is all that stands behind the last one. -/
theorem reverse_takeWhile_of_notMem {sep : Char} {cs : List Char} (h : sep ∉ cs) :
    (cs.reverse.takeWhile (· != sep)).reverse = cs := by
  have hall : ∀ c ∈ cs.reverse, (c != sep) = true := by
    intro c hc
    exact bne_iff_ne.2 fun heq => h (heq ▸ List.mem_reverse.1 hc)
  rw [List.takeWhile_eq_self_iff.2 hall, List.reverse_reverse]

/-- **The extension of a file name begins at its last dot**, if something other than dots stands before
that one. -/
theorem extension_eq {front tail : List Char} (hslash : '/' ∉ front ++ '.' :: tail)
    (hdot : '.' ∉ tail) (hfront : ∃ c ∈ front, c ≠ '.') :
    extension (front ++ '.' :: tail) = '.' :: tail := by
  have hlength : (front ++ '.' :: tail).length - tail.length - 1 = front.length := by
    rw [List.length_append, List.length_cons]
    omega
  have hany : front.any (· != '.') = true := by
    obtain ⟨c, hc, hne⟩ := hfront
    exact List.any_eq_true.2 ⟨c, hc, bne_iff_ne.2 hne⟩
  simp only [extension, reverse_takeWhile_of_notMem hslash, reverse_takeWhile_append hdot, hlength,
    List.take_left, hany]
  simp

/-- A text that has a dot is cut at the last one. -/
theorem exists_lastPart {cs : List Char} (h : '.' ∈ cs) :
    ∃ front tail, '.' ∉ tail ∧ cs = front ++ '.' :: tail ∧ lastPart cs = '.' :: tail := by
  obtain ⟨tail, front, hcut, htail⟩ := List.eq_append_cons_of_mem (List.mem_reverse.2 h)
  rw [← List.mem_reverse] at htail
  have hcs : cs = front.reverse ++ '.' :: tail.reverse := by
    rw [← List.reverse_reverse cs, hcut]
    simp
  refine ⟨front.reverse, tail.reverse, htail, hcs, ?_⟩
  rw [lastPart, hcs, reverse_takeWhile_append htail]

theorem lastPart_eq_self {cs : List Char} (hhead : cs.head? = some '.') (hdot : '.' ∉ cs.tail) :
    lastPart cs = cs := by
  obtain ⟨tail, rfl⟩ := List.head?_eq_some_iff.1 hhead
  have hcut : (([] ++ '.' :: tail).reverse.takeWhile (· != '.')).reverse = tail :=
    reverse_takeWhile_append hdot
  exact congrArg ('.' :: ·) hcut

/-- A name with an extension behind it has the extension's last part for its own, if something other
than dots stands in the name. -/
theorem extension_append {stem extension : List Char} (hstem : '/' ∉ stem)
    (hname : ∃ c ∈ stem, c ≠ '.') (hdot : '.' ∈ extension) (hslash : '/' ∉ extension) :
    Path.extension (stem ++ extension) = lastPart extension := by
  obtain ⟨front, tail, htail, hcut, hlast⟩ := exists_lastPart hdot
  obtain ⟨c, hc, hne⟩ := hname
  have hwhole : stem ++ extension = (stem ++ front) ++ '.' :: tail := by
    rw [hcut, List.append_assoc]
  have hclean : '/' ∉ (stem ++ front) ++ '.' :: tail := by
    rw [← hwhole, List.mem_append, not_or]
    exact ⟨hstem, hslash⟩
  rw [hlast, hwhole, extension_eq hclean htail ⟨c, List.mem_append_left _ hc, hne⟩]

end Path

/-- Settings ask for an extension, letter case disregarded. -/
def Settings.Wants (s : Settings) (extension : List Char) : Prop :=
  ∃ e ∈ s.extensions, lower e = lower (String.ofList extension)

namespace Scan

open ServiceKeys.Path

variable {s : Settings}

theorem accepts_iff {name : String} :
    (ofSettings s).accepts name = true ↔ s.Wants (Path.extension name.toList) := by
  rw [accepts, List.contains_iff_mem, List.mem_map]
  rfl

theorem accepts_append_iff {stem e : String} (hdot : e.toList.head? = some '.')
    (hslash : '/' ∉ e.toList) (hstem : '/' ∉ stem.toList) (hname : ∃ c ∈ stem.toList, c ≠ '.') :
    (ofSettings s).accepts (stem ++ e) = true ↔ s.Wants (lastPart e.toList) := by
  rw [accepts_iff, String.toList_append,
    extension_append hstem hname (List.mem_of_head? hdot) hslash]

/-! ## Files that a probe finds -/

/-- A file stands in a directory that a scan walks, whatever its name is. -/
def Stands (s : Scan) (w : Workspace) (root file : Path) : Prop :=
  ∃ dir names name entry, s.Walks w root dir ∧ w.list dir = .ok names ∧ (name, entry) ∈ names ∧
    w.HoldsFile (dir.child name) entry ∧ file = dir.child name

/-- The last name of a path that is made absolute, if it does not climb. -/
theorem getLast?_normalize_child {name : String} (h : name ≠ "..") (dir cwd : Path) :
    ((dir.child name).normalize cwd).parts.getLast? = some name := by
  have hchild : dir.child name = dir.descend [name] := rfl
  rw [hchild, normalize_descend (by simpa using Ne.symm h)]
  exact List.getLast?_concat

/-- The names of a path that has one. -/
theorem exists_front {base : Path} (hbase : base.Normal) (hname : base.name ≠ "") :
    ∃ front, base.parts = front ++ [base.name] ∧ (∀ name ∈ front, ProperName name) ∧
      ProperName base.name := by
  have hne : base.parts ≠ [] := by
    intro hnil
    exact hname (by rw [Path.name, hnil]; rfl)
  have hparts : base.parts = base.parts.dropLast ++ [base.name] := by
    rw [Path.name, List.getLast?_eq_some_getLast hne, Option.getD_some, List.dropLast_append_getLast]
  have hproper := hbase.proper
  rw [Proper, hparts, List.forall_mem_append, List.forall_mem_singleton] at hproper
  exact ⟨_, hparts, hproper⟩

/-- A name with an extension behind it is a proper name. -/
theorem properName_append {name e : String} (hproper : ProperName name)
    (hdot : e.toList.head? = some '.') (hslash : '/' ∉ e.toList) : ProperName (name ++ e) := by
  obtain ⟨cs, hcs⟩ := List.head?_eq_some_iff.1 hdot
  obtain ⟨c, rest, hrest⟩ := List.exists_cons_of_ne_nil fun h => hproper.1 (String.toList_inj.1 h)
  refine ⟨fun h => ?_, fun h => ?_, ?_⟩
  · have hlist := congrArg String.toList h
    simp [hcs] at hlist
  · have hlist := congrArg (List.length ∘ String.toList) h
    simp [hcs, hrest] at hlist
  · rw [String.toList_append, List.mem_append, not_or]
    exact ⟨hproper.2.2, hslash⟩

/-- The last name of a base with an extension behind it. -/
theorem getLast?_normalize_extension {base : Path} (cwd : Path) (hbase : base.Normal) {e : String}
    (hdot : e.toList.head? = some '.') (hslash : '/' ∉ e.toList)
    (hname : ∃ c ∈ base.name.toList, c ≠ '.') :
    ((Path.ofString (base.toString ++ e)).normalize cwd).parts.getLast? = some (base.name ++ e) := by
  obtain ⟨c, hc, hne⟩ := hname
  obtain ⟨front, hparts, hfront, hlast⟩ := exists_front hbase fun h => by simp [h] at hc
  have hpath : (Path.ofString (base.toString ++ e)).parts = front ++ [base.name ++ e] := by
    show components (base.toString ++ e).toList = _
    rw [Resolver.toList_extension hbase, components_written, hparts,
      components_intercalate_append hfront, ← String.toList_append,
      components_name (properName_append hlast hdot hslash)]
  have hdots : ".." ∉ (Path.ofString (base.toString ++ e)).parts := by
    have hsettled := hbase.settled
    rw [hparts, List.mem_append, not_or] at hsettled
    rw [hpath, List.mem_append, List.mem_singleton, not_or]
    refine ⟨hsettled.1, fun h => hne ?_⟩
    have hmem : c ∈ (base.name ++ e).toList := by simp [hc]
    rw [← h] at hmem
    simpa using hmem
  rw [normalize_eq_self (Resolver.isAbsolute_extension hbase e) hdots, hpath]
  exact List.getLast?_concat

/-! ## Agreement -/

/-- **The scan and the resolver agree on an extension exactly if its last part is one.**  An extension
whose only dot is the first is its own last part.  The scan takes the files with an extension exactly
if the last part of it is asked for, whatever stands before it.  And of the candidates of a base, which
are absolute, one with such an extension that stands in a directory of the scan is visited exactly
then. -/
theorem accepts_extension_exact {d : Draft} (h : Settings.ofDraft d = .ok s) :
    (∀ e ∈ s.extensions, '.' ∉ e.toList.tail → s.Wants (lastPart e.toList)) ∧
    (∀ e ∈ s.extensions, '/' ∉ e.toList → ∀ stem : String, '/' ∉ stem.toList →
      (∃ c ∈ stem.toList, c ≠ '.') →
        ((ofSettings s).accepts (stem ++ e) = true ↔ s.Wants (lastPart e.toList))) ∧
    ∀ (w : Workspace) (root : Path), w.Sound → w.isDirectory root = .ok true →
      ∃ found, (((ofSettings s).files w root).outcome none).1 = .ok found ∧
        ∀ e ∈ s.extensions, '/' ∉ e.toList → ∀ base : Path, base.Normal →
          (∃ c ∈ base.name.toList, c ≠ '.') → ∀ file, (ofSettings s).Stands w root file →
            w.normalize file = w.normalize (.ofString (base.toString ++ e)) →
              (w.normalize file ∈ found.map w.normalize ↔ s.Wants (lastPart e.toList)) := by
  have hdots : ∀ e ∈ s.extensions, e.toList.head? = some '.' := fun e he =>
    Settings.head?_of_checkExtension ((Settings.ofDraft_eq_ok_iff.1 h).extensions.passes e he)
  refine ⟨?_, ?_, ?_⟩
  · intro e he hdot
    rw [lastPart_eq_self (hdots e he) hdot]
    exact ⟨e, he, by rw [String.ofList_toList]⟩
  · intro e he hslash stem hstem hname
    exact accepts_append_iff (hdots e he) hslash hstem hname
  · intro w root hw hroot
    obtain ⟨found, n, hpolls, -, hmem⟩ := exists_ascending_files hw (ofSettings s) hroot
    refine ⟨found, hpolls.gives.outcome, ?_⟩
    rintro e he hslash base hbase hname _ ⟨dir, names, name, entry, hwalks, hlist, hentry, hfile, rfl⟩
      hsame
    have hlast : (w.normalize (dir.child name)).parts.getLast? = some (base.name ++ e) := by
      rw [hsame]
      exact getLast?_normalize_extension w.cwd hbase (hdots e he) hslash hname
    -- the name of the file is that of the base with the extension behind it
    have hnamed : ∀ {sub names other entry}, w.list sub = .ok names → (other, entry) ∈ names →
        w.normalize (sub.child other) = w.normalize (dir.child name) → other = base.name ++ e := by
      intro sub names other entry hlist hentry heq
      have hproper := hw.names other (hasName_of_list hlist _ hentry)
      have hchild : (w.normalize (sub.child other)).parts.getLast? = some other :=
        getLast?_normalize_child hproper.2 sub w.cwd
      rw [heq, hlast] at hchild
      exact (Option.some.inj hchild).symm
    obtain ⟨-, -, -, hproper⟩ := exists_front hbase fun h => by simp [h] at hname
    rw [← accepts_append_iff (hdots e he) hslash hproper.2.2 hname]
    constructor
    · intro hfound
      obtain ⟨q, hq, heq⟩ := List.mem_map.1 hfound
      obtain ⟨-, sub, -, names', other, entry', hlist', hentry', haccepts, -, rfl⟩ := (hmem q).1 hq
      exact hnamed hlist' hentry' heq ▸ haccepts
    · intro haccepts
      rw [← hnamed hlist hentry rfl] at haccepts
      exact List.mem_map_of_mem
        ((hmem _).2 ⟨hroot, dir, hwalks, names, name, entry, hlist, hentry, haccepts, hfile, rfl⟩)

/-- Settings with one extension that has two dots, and one that has its last part in capitals. -/
def declarations : Settings := { Settings.default with extensions := [".TS", ".d.ts"] }

theorem ofDraft_declarations :
    Settings.ofDraft { extensions := some (.list [.text ".TS", .text ".d.ts"]) } = .ok declarations :=
  Settings.ofDraft_extensions (by simp)
    ⟨rfl, List.forall_mem_cons.2 ⟨rfl, List.forall_mem_singleton.2 rfl⟩⟩

/-- An extension with two dots is taken if its last part is an extension too, in whatever case, and then
whatever the name in front of it is. -/
theorem accepts_extension_last :
    Settings.ofDraft { extensions := some (.list [.text ".TS", .text ".d.ts"]) } = .ok declarations ∧
      (ofSettings declarations).accepts ("..mail" ++ ".d.ts") = true := by
  obtain ⟨-, hexact, -⟩ := accepts_extension_exact ofDraft_declarations
  refine ⟨ofDraft_declarations, (hexact ".d.ts" ?_ ?_ "..mail" ?_ ⟨'m', ?_, ?_⟩).2 ⟨".TS", ?_, ?_⟩⟩ <;>
    decide

/-- **The extension `.d.ts` by itself is accepted, and no file with it.** -/
theorem accepts_no_declarations :
    Settings.ofDraft { extensions := some (.text ".d.ts") } =
        .ok { Settings.default with extensions := [".d.ts"] } ∧
      (ofSettings { Settings.default with extensions := [".d.ts"] }).accepts ("a" ++ ".d.ts") = false :=
  ⟨Settings.ofDraft_extensions (by simp) ⟨rfl, List.forall_mem_singleton.2 rfl⟩, by decide⟩

end Scan

end ServiceKeys
