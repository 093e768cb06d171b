import ServiceKeys.Proofs.Lookup.Scan
import ServiceKeys.Proofs.Lookup.RoundTrip
import ServiceKeys.Proofs.Settings.Built

/-!
# The references of a file

The whole reverse direction: the keys of a file, and for each of them the calls in the files below the
search directory.  Calls are looked for only in files that contain the key, and what is found is made
free of duplicates three times: in a text, over the files, and over the keys.  None of this loses a
call or reports one twice: a call contains its key, it has its own start, and a start belongs to one
key only.  Main statement: `references_exact`.
-/

namespace ServiceKeys

open Lookup Text

/-! ## Duplicates between blocks -/

section Distinct

variable {α β γ : Type}

theorem distinctBy_append [BEq γ] {key : β → γ} (xs ys : List β) :
    distinctBy key (xs ++ ys) =
      distinctBy key xs ++ (distinctBy key ys).filter fun y => xs.all fun x => key y != key x := by
  induction xs with
  | nil => simp [distinctBy]
  | cons x xs ih =>
      rw [List.cons_append, distinctBy, ih, distinctBy, List.filter_append, List.filter_filter,
        List.cons_append]
      simp only [List.all_cons]

variable [BEq α] [LawfulBEq α] [BEq γ] [LawfulBEq γ] {key : β → γ} {block : α → List β}

/-- Taking the elements of one block out of blocks takes out the blocks that are equal to it. -/
theorem filter_flatMap_block {x : α} {ys : List α}
    (hkey : ∀ y ∈ ys, ∀ b ∈ block y, ∀ a ∈ block x, key b = key a → y = x) :
    ((ys.flatMap block).filter fun b => (block x).all fun a => key b != key a) =
      (ys.filter (· != x)).flatMap block := by
  induction ys with
  | nil => rfl
  | cons y ys ih =>
      rw [List.flatMap_cons, List.filter_append, ih fun z hz => hkey z (List.mem_cons_of_mem _ hz)]
      by_cases hyx : y = x
      · subst hyx
        have hnone : ((block y).filter fun b => (block y).all fun a => key b != key a) = [] := by
          rw [List.filter_eq_nil_iff]
          intro b hb hall
          simpa using List.all_eq_true.1 hall b hb
        rw [hnone, List.filter_cons_of_neg (by simp), List.nil_append]
      · have hall : ((block y).filter fun b => (block x).all fun a => key b != key a) = block y := by
          rw [List.filter_eq_self]
          intro b hb
          refine List.all_eq_true.2 fun a ha => bne_iff_ne.2 fun heq => hyx ?_
          exact hkey y List.mem_cons_self b hb a ha heq
        rw [hall, List.filter_cons_of_pos (by simpa using hyx), List.flatMap_cons]

/-- **Blocks of elements with keys of their own** stay whole, and equal blocks become one. -/
theorem distinctBy_flatMap {xs : List α}
    (hblock : ∀ x ∈ xs, (block x).Pairwise fun a b => key a ≠ key b)
    (hkey : ∀ x ∈ xs, ∀ y ∈ xs, ∀ a ∈ block x, ∀ b ∈ block y, key a = key b → x = y) :
    distinctBy key (xs.flatMap block) = (distinct xs).flatMap block := by
  induction xs with
  | nil => rfl
  | cons x xs ih =>
      have hrest := ih (fun y hy => hblock y (List.mem_cons_of_mem _ hy)) fun y hy z hz =>
        hkey y (List.mem_cons_of_mem _ hy) z (List.mem_cons_of_mem _ hz)
      have hfilter : ((distinct xs).flatMap block).filter _ = _ :=
        filter_flatMap_block fun y hy b hb a ha =>
          hkey y (List.mem_cons_of_mem _ (mem_distinct.1 hy)) x List.mem_cons_self b hb a ha
      rw [List.flatMap_cons, distinctBy_append, distinctBy_eq_self (hblock x List.mem_cons_self),
        hrest, hfilter]
      rfl

end Distinct

/-! ## The calls in a file -/

section Files

open Call

variable {w : Workspace} {forms : List String} {key : String}

/-- The calls of a key in a file; there are none in a file that cannot be read. -/
def callsIn (w : Workspace) (forms : List String) (key : String) (file : Path) : List CallSite :=
  (sites ((w.source? file).getD []) (forms.map fun form => pattern form.toList key.toList)).map
    (CallSite.mk file)

/-- There are no calls in a file that cannot be read. -/
theorem callAt_getD_iff {key : List Char} {file : Path} {p : Nat} {xs : List Char} :
    CallAt forms key ((w.source? file).getD []) p xs ↔
      ∃ content, w.source? file = some content ∧ CallAt forms key content p xs := by
  cases w.source? file with
  | some content => simp
  | none =>
      simp only [Option.getD_none, reduceCtorEq, false_and, exists_false, iff_false]
      rintro ⟨-, hstarts, form, -, hcall⟩
      rw [List.drop_nil, List.prefix_nil] at hstarts
      exact callText_ne_nil hcall hstarts

theorem mem_callsIn_iff (hforms : ∀ form ∈ forms, WellNamed form)
    (hkey : ∀ c ∈ key.toList, isKeyChar c = true) {file : Path} {c : CallSite} :
    c ∈ callsIn w forms key file ↔ ∃ content, w.source? file = some content ∧
      ∃ p xs, CallAt forms key.toList content p xs ∧ c = ⟨file, siteAt content p xs⟩ := by
  rw [callsIn, List.mem_map]
  simp only [mem_sites_iff hforms hkey]
  constructor
  · rintro ⟨s, ⟨p, xs, hcall, rfl⟩, rfl⟩
    obtain ⟨content, hcontent, hcall⟩ := callAt_getD_iff.1 hcall
    exact ⟨content, hcontent, p, xs, hcall, by rw [hcontent]; rfl⟩
  · rintro ⟨content, hcontent, p, xs, hcall, rfl⟩
    rw [hcontent]
    exact ⟨_, ⟨p, xs, hcall, rfl⟩, rfl⟩

theorem pairwise_callsIn (w : Workspace) (forms : List String) (key : String) (file : Path) :
    (callsIn w forms key file).Pairwise fun a b => a.site.start.Before b.site.start :=
  List.pairwise_map.2 (pairwise_sites _ _)

/-- A call contains its key. -/
theorem contains_of_callAt {content xs : List Char} {p : Nat}
    (h : CallAt forms key.toList content p xs) : Text.contains key.toList content = true := by
  obtain ⟨-, ⟨rest, hrest⟩, form, -, head, _, -, ⟨a, q, b, -, -, -, rfl⟩, rfl⟩ := h
  refine contains_iff.2 ⟨content.take p ++ (head ++ '(' :: (a ++ [q])), q :: (b ++ [')']) ++ rest, ?_⟩
  conv_lhs => rw [← List.take_append_drop p content, ← hrest]
  simp

/-- **Passing over files without the key loses nothing.** -/
theorem sitesIn_eq_callsIn (hforms : ∀ form ∈ forms, WellNamed form)
    (hkey : ∀ c ∈ key.toList, isKeyChar c = true) (file : Path) :
    CallSite.sitesIn w forms key file = callsIn w forms key file := by
  have hempty : (∀ c, c ∉ callsIn w forms key file) → callsIn w forms key file = [] :=
    List.eq_nil_iff_forall_not_mem.2
  rw [CallSite.sitesIn]
  cases hsource : w.source? file with
  | none =>
      rw [hempty fun c hc => by simp [mem_callsIn_iff hforms hkey, hsource] at hc]
      rfl
  | some content =>
      rw [Option.elim_some]
      split
      · -- a call has characters and contains its key, so a file that is passed over has none
        rename_i hskip
        refine (hempty fun c hc => ?_).symm
        obtain ⟨content', hcontent, p, xs, hcall, -⟩ := (mem_callsIn_iff hforms hkey).1 hc
        obtain rfl := Option.some.inj (hcontent.symm.trans hsource)
        have hlen := hcall.stop_le
        have hpos := List.length_pos_iff.2 (callText_ne_nil hcall.2.2.choose_spec.2)
        rw [contains_of_callAt hcall, Bool.not_true, Bool.or_false, List.isEmpty_iff] at hskip
        rw [hskip, List.length_nil] at hlen
        omega
      · rw [callsIn, hsource]
        rfl

theorem gives_inFile (hforms : ∀ form ∈ forms, WellNamed form)
    (hkey : ∀ c ∈ key.toList, isKeyChar c = true) (file : Path) :
    Gives (CallSite.inFile w forms key file) (.ok (callsIn w forms key file)) :=
  sitesIn_eq_callsIn hforms hkey file ▸ (CallSite.polls_inFile w forms key file).gives

/-- Calls at the same place of the same file are the same, and so are their keys. -/
theorem callsIn_separate (hforms : ∀ form ∈ forms, WellNamed form) {key' : String}
    (hkey : ∀ c ∈ key.toList, isKeyChar c = true) (hkey' : ∀ c ∈ key'.toList, isKeyChar c = true)
    {file : Path} {a b : CallSite} (ha : a ∈ callsIn w forms key file)
    (hb : b ∈ callsIn w forms key' file) (h : a.site.start = b.site.start) : key = key' := by
  obtain ⟨content, hcontent, p, xs, hcall, rfl⟩ := (mem_callsIn_iff hforms hkey).1 ha
  obtain ⟨content', hcontent', p', xs', hcall', rfl⟩ := (mem_callsIn_iff hforms hkey').1 hb
  obtain rfl := Option.some.inj (hcontent.symm.trans hcontent')
  exact String.toList_inj.1 (callAt_unique hforms hkey hkey' hcall hcall' h).2.2

end Files

/-! ## The calls below a directory -/

section Below

open Call

variable {w : Workspace} {dir : Path} {found : List Path}

theorem file_of_mem_callsIn {forms : List String} {key : String} {file : Path} {c : CallSite}
    (h : c ∈ callsIn w forms key file) : c.file = file := by
  obtain ⟨s, -, rfl⟩ := List.mem_map.1 h
  rfl

/-- The files of a scan in order, each once. -/
def orderedFiles (found : List Path) : List Path := distinct (Path.sort found)

theorem mem_orderedFiles {q : Path} : q ∈ orderedFiles found ↔ q ∈ found := by
  rw [orderedFiles, mem_distinct, Path.sort, List.mem_mergeSort]

theorem pairwise_orderedFiles (hbelow : ∀ q ∈ found, w.Below dir q) :
    (orderedFiles found).Pairwise fun p q => p.parts < q.parts := by
  have hsub : List.Sublist (orderedFiles found) (Path.sort found) := distinctBy_sublist _
  apply (((Path.pairwise_sort found).sublist hsub).and (nodup_distinct (Path.sort found))).imp_of_mem
  intro p q hp hq hpq
  have hroot : p.root = q.root :=
    (hbelow p (mem_orderedFiles.1 hp)).1.trans (hbelow q (mem_orderedFiles.1 hq)).1.symm
  exact (hpq.1 hroot).resolve_right hpq.2

/-- The files of a scan are told apart by how they are written. -/
theorem file_eq_of_toString (hw : w.WellFormed) (hdir : dir.Normal)
    (hbelow : ∀ q ∈ found, w.Below dir q) {p q : Path} (hp : p ∈ found) (hq : q ∈ found)
    (h : p.toString = q.toString) : p = q :=
  Path.toString_inj ((hbelow p hp).normal hw hdir).proper ((hbelow q hq).normal hw hdir).proper
    ((hbelow p hp).normal hw hdir).absolute ((hbelow p hp).1.trans (hbelow q hq).1.symm) h

/-- The calls of a key in files: file by file in order, each file's calls in order. -/
def callsBelow (w : Workspace) (forms : List String) (found : List Path) (key : String) :
    List CallSite :=
  (orderedFiles found).flatMap (callsIn w forms key)

theorem mem_callsBelow {forms : List String} {key : String} {c : CallSite} :
    c ∈ callsBelow w forms found key ↔ c.file ∈ found ∧ c ∈ callsIn w forms key c.file := by
  rw [callsBelow, List.mem_flatMap]
  constructor
  · rintro ⟨file, hfile, hc⟩
    rw [file_of_mem_callsIn hc]
    exact ⟨mem_orderedFiles.1 hfile, hc⟩
  · rintro ⟨hfile, hc⟩
    exact ⟨c.file, mem_orderedFiles.2 hfile, hc⟩

/-- No call is taken for a duplicate of another one. -/
theorem distinctBy_callsIn (hw : w.WellFormed) (hdir : dir.Normal)
    (hbelow : ∀ q ∈ found, w.Below dir q) (forms : List String) (key : String) :
    distinctBy CallSite.key ((Path.sort found).flatMap (callsIn w forms key)) =
      callsBelow w forms found key := by
  refine distinctBy_flatMap ?_ ?_
  · intro file _
    apply (pairwise_callsIn w forms key file).imp
    intro a b hbefore heq
    have hstart : a.site.start = b.site.start := congrArg Prod.snd heq
    exact Position.Before.irrefl _ (hstart ▸ hbefore)
  · intro p hp q hq a ha b hb hab
    have hfile : a.file.toString = b.file.toString := congrArg Prod.fst hab
    rw [file_of_mem_callsIn ha, file_of_mem_callsIn hb] at hfile
    exact file_eq_of_toString hw hdir hbelow (List.mem_mergeSort.1 hp) (List.mem_mergeSort.1 hq) hfile

variable {settings : Settings} {key : String}

/-- **The calls of a key below a directory** are those in the files of the scan. -/
theorem gives_below (hw : w.WellFormed) (hdir : dir.Normal)
    (hforms : ∀ form ∈ settings.callForms, WellNamed form)
    (hkey : ∀ c ∈ key.toList, isKeyChar c = true)
    (hfound : Gives ((Scan.ofSettings settings).files w dir) (.ok found))
    (hbelow : ∀ q ∈ found, w.Below dir q) :
    Gives (CallSite.below w settings dir (some key))
      (.ok (callsBelow w settings.callForms found key)) := by
  have hnormal : found.map w.normalize = found := by
    conv_rhs => rw [← List.map_id found]
    exact List.map_congr_left fun q hq => ((hbelow q hq).normal hw hdir).normalize w
  have hall : Gives ((Path.sort found).mapM (CallSite.inFile w settings.callForms key))
      (.ok ((Path.sort found).map (callsIn w settings.callForms key))) :=
    gives_mapM_ok (List.forall₂_map_right_iff.2 (List.forall₂_same.2 fun file _ =>
      gives_inFile hforms hkey file))
  rw [← distinctBy_callsIn hw hdir hbelow, List.flatMap_def]
  refine hfound.bind_ok ?_
  dsimp only
  rw [hnormal]
  exact (gives_debug _).bind_ok (hall.bind_ok (gives_pure _))

/-- Where the directory cannot be asked about, the first of the keys fails, and with it all of them. -/
theorem gives_mapM_below_error (settings : Settings) {e : AccessError}
    (he : w.isDirectory dir = .error e) {keys : List String} (hne : keys.map some ≠ []) :
    Gives ((keys.map some).mapM (CallSite.below w settings dir)) (.error (.access e)) := by
  obtain ⟨k, ks, rfl⟩ := List.exists_cons_of_ne_nil (List.map_eq_nil_iff.not.1 hne)
  have hbelow : Gives (CallSite.below w settings dir (some k)) (.error (.access e)) :=
    ((Scan.ofSettings settings).gives_files_error w he).bind_error
  rw [List.map_cons, List.mapM_cons]
  exact hbelow.bind_error

/-- No two calls of keys have the same file and start, also if the keys differ. -/
theorem pairwise_callsBelow (hw : w.WellFormed) (hdir : dir.Normal) {forms : List String}
    (hforms : ∀ form ∈ forms, WellNamed form) (hbelow : ∀ q ∈ found, w.Below dir q)
    {keys : List String} (hkeys : ∀ k ∈ keys, ∀ c ∈ k.toList, isKeyChar c = true)
    (hnodup : keys.Nodup) :
    (keys.flatMap (callsBelow w forms found)).Pairwise fun a b => a.key ≠ b.key := by
  refine List.pairwise_flatMap.2 ⟨?_, hnodup.imp_of_mem ?_⟩
  · intro k _
    rw [← distinctBy_callsIn hw hdir hbelow]
    exact pairwise_distinctBy _
  · intro k k' hk hk' hne a ha b hb heq
    obtain ⟨hfile, ha⟩ := mem_callsBelow.1 ha
    obtain ⟨hfile', hb⟩ := mem_callsBelow.1 hb
    have hsame := file_eq_of_toString hw hdir hbelow hfile hfile' (congrArg Prod.fst heq)
    rw [← hsame] at hb
    exact hne (callsIn_separate hforms (hkeys k hk) (hkeys k' hk') ha hb (congrArg Prod.snd heq))

end Below

/-! ## Listings -/

/-- The calls of a key in files, and their sites. -/
structure Listing (w : Workspace) (forms : List String) (key : String) (found : List Path)
    (calls : List (Path × Nat × List Char)) (sites : List CallSite) : Prop where
  /-- There is a call for every offset of a file at which one stands, and there is no other. -/
  calls_iff : ∀ file p xs, (file, p, xs) ∈ calls ↔ file ∈ found ∧
    ∃ content, w.source? file = some content ∧ Call.CallAt forms key.toList content p xs
  /-- Calls come file by file, in the order of the files' components, and then by their offsets; so
  none comes twice. -/
  calls_sorted : calls.Pairwise fun a b => a.1.parts < b.1.parts ∨ a.1 = b.1 ∧ a.2.1 < b.2.1
  /-- Every call has its site. -/
  sites_of_calls : List.Forall₂ (fun call c => c.file = call.1 ∧
    ∃ content, w.source? call.1 = some content ∧ c.site = Call.siteAt content call.2.1 call.2.2)
    calls sites
  /-- Sites come file by file, and then by line and column. -/
  sites_sorted : sites.Pairwise fun a b =>
    a.file.parts < b.file.parts ∨ a.file = b.file ∧ a.site.start.Before b.site.start

section Listing

open Call

variable {w : Workspace} {dir : Path} {found : List Path} {forms : List String} {key : String}

/-- The calls of a key below a directory make a listing. -/
theorem exists_listing (hforms : ∀ form ∈ forms, WellNamed form)
    (hkey : ∀ c ∈ key.toList, isKeyChar c = true) (hbelow : ∀ q ∈ found, w.Below dir q) :
    ∃ calls, Listing w forms key found calls (callsBelow w forms found key) := by
  choose calls hsorted hmem hsites using
    fun file => exists_calls ((w.source? file).getD []) hforms hkey
  have hfiles := pairwise_orderedFiles hbelow
  have hiff : ∀ file p xs, (file, p, xs) ∈ (orderedFiles found).flatMap
      (fun file => (calls file).map (file, ·)) ↔ file ∈ found ∧
        ∃ content, w.source? file = some content ∧ CallAt forms key.toList content p xs := by
    intro file p xs
    rw [← callAt_getD_iff, ← hmem file p xs, ← mem_orderedFiles, List.mem_flatMap]
    constructor
    · rintro ⟨file', hfile', hcall⟩
      obtain ⟨call, hcall, heq⟩ := List.mem_map.1 hcall
      obtain ⟨rfl, rfl⟩ := Prod.mk.inj heq
      exact ⟨hfile', hcall⟩
    · rintro ⟨hfile, hcall⟩
      exact ⟨file, hfile, List.mem_map_of_mem hcall⟩
  -- the sites are those of the calls, file by file
  have hsites' : callsBelow w forms found key =
      ((orderedFiles found).flatMap fun file => (calls file).map (file, ·)).map fun call =>
        ⟨call.1, siteAt ((w.source? call.1).getD []) call.2.1 call.2.2⟩ := by
    rw [callsBelow, List.map_flatMap]
    refine congrArg (List.flatMap · (orderedFiles found)) (funext ?_)
    intro file
    rw [callsIn, hsites, List.map_map, List.map_map]
    rfl
  refine ⟨(orderedFiles found).flatMap fun file => (calls file).map (file, ·), hiff, ?_, ?_, ?_⟩
  · refine List.pairwise_flatMap.2 ⟨?_, hfiles.imp ?_⟩
    · intro file _
      exact List.pairwise_map.2 ((hsorted file).imp fun hlt => Or.inr ⟨rfl, hlt⟩)
    · intro p q hpq a ha b hb
      obtain ⟨-, -, rfl⟩ := List.mem_map.1 ha
      obtain ⟨-, -, rfl⟩ := List.mem_map.1 hb
      exact Or.inl hpq
  · rw [hsites', List.forall₂_map_right_iff, List.forall₂_same]
    rintro ⟨file, p, xs⟩ hcall
    obtain ⟨-, content, hcontent, -⟩ := (hiff file p xs).1 hcall
    exact ⟨rfl, content, hcontent, by rw [hcontent]; rfl⟩
  · refine List.pairwise_flatMap.2 ⟨?_, hfiles.imp ?_⟩
    · intro file _
      refine (pairwise_callsIn w forms key file).imp_of_mem fun {a b} ha hb hbefore => Or.inr ⟨?_, hbefore⟩
      rw [file_of_mem_callsIn ha, file_of_mem_callsIn hb]
    · intro p q hpq a ha b hb
      rw [file_of_mem_callsIn ha, file_of_mem_callsIn hb]
      exact Or.inl hpq

end Listing

/-! ## References -/

namespace Project

open Registration

variable {p : Project}

theorem keys_normalize (hcwd : p.workspace.cwd.isAbsolute = true) (file : Path) :
    p.keys (p.workspace.normalize file) = p.keys file := by
  have hnormal : p.workspace.normalize (p.workspace.normalize file) = p.workspace.normalize file :=
    Path.normalize_normalize hcwd file
  rw [keys, keys, hnormal]

theorem displayed_normalize {w : Workspace} (hcwd : w.cwd.isAbsolute = true) (dir file : Path) :
    w.displayed dir (w.normalize file) = w.displayed dir file := by
  have hnormal : (w.normalize file).normalize w.cwd = file.normalize w.cwd :=
    Path.normalize_normalize hcwd file
  rw [Workspace.displayed, Workspace.displayed, Path.displayed, Path.displayed, hnormal]

/-- A file that may not be registered or is not has no references. -/
theorem gives_references_nil (hcwd : p.workspace.cwd.isAbsolute = true) {file : Path}
    {ks : List (Option String)} (hks : Gives (p.keys file) (.ok ks))
    (h : p.settings.includes (p.workspace.displayed p.root file) = false ∨ ks = []) :
    Gives (p.references file) (.ok ([], [])) := by
  rw [references, displayed_normalize hcwd, keys_normalize hcwd]
  cases hincludes : p.settings.includes (p.workspace.displayed p.root file) with
  | false => exact (gives_info _).bind_ok (gives_pure _)
  | true =>
      obtain rfl := h.resolve_left (by simp [hincludes])
      exact hks.bind_ok ((gives_info _).bind_ok (gives_pure _))

/-- The references of a file that is registered: what the calls of its keys come to. -/
theorem gives_references (hcwd : p.workspace.cwd.isAbsolute = true) {file : Path}
    {ks : List (Option String)} (hks : Gives (p.keys file) (.ok ks)) (hne : ks ≠ [])
    (hincludes : p.settings.includes (p.workspace.displayed p.root file) = true)
    {r : Except Failure (List (List CallSite))}
    (hr : Gives (ks.mapM (CallSite.below p.workspace p.settings p.searchDirectory)) r) :
    Gives (p.references file) (r.map fun sites => (ks, distinctBy CallSite.key sites.flatten)) := by
  have hempty : ks.isEmpty = false := List.isEmpty_eq_false_iff.2 hne
  rw [references, displayed_normalize hcwd, keys_normalize hcwd, hincludes]
  refine hks.bind_ok ?_
  rw [hempty]
  have hbind := hr.bind (f := fun sites => pure (ks, distinctBy CallSite.key sites.flatten))
    (g := fun sites => .ok (ks, distinctBy CallSite.key sites.flatten)) fun sites _ => gives_pure _
  cases r with
  | error e => exact hbind
  | ok sites => exact hbind

theorem exists_keyTexts {files : List Path} {target : Path} {ks : List (Option String)}
    (h : ∀ o, o ∈ ks ↔ ∃ d ∈ files, p.Registers d target o) :
    ∃ keys : List String, (∀ k ∈ keys, KeyText k.toList) ∧ keys.map some = ks := by
  apply Call.exists_map_eq
  intro o ho
  obtain ⟨d, -, hreg⟩ := (h o).1 ho
  have hreg' := hreg
  obtain ⟨-, -, -, -, -, -, -, -, -, -, -, -, k, -, rfl⟩ := hreg'
  exact ⟨_, keyText_of_registers hreg, rfl⟩

/-- **The references of a file are exact.**  Let the names of the tree be proper, the settings be
built with the built-in templates, and the registration files be found.  A file that may not be
registered or is not has no keys and no calls.  Otherwise its keys come with a listing for each of
them, over the files that the scan of the search directory yields, and no two of the calls start at
the same place.  There is one exception: if a name on the way to the search directory is too long,
asking for that directory fails, and with it the lookup. -/
theorem references_exact {w : Workspace} (hw : w.WellFormed) (root : String) {d : Draft}
    {s : Settings} (hs : Settings.ofDraft d = .ok s) (htemplates : s.templates = Template.builtin)
    {p : Project} (hp : p = openAt w (.ofString root) s) {files : List Path}
    (hfiles : (p.registryFiles.outcome none).1 = .ok files) (file : Path) :
    ∃ ks, ((p.keys file).outcome none).1 = .ok ks ∧
      (s.includes (w.displayed p.root file) = false ∨ ks = [] →
        ((p.references file).outcome none).1 = .ok ([], [])) ∧
      (s.includes (w.displayed p.root file) = true → ks ≠ [] →
        (∀ e, w.isDirectory p.searchDirectory = .error e →
          e.cause = .nameTooLong ∧ ((p.references file).outcome none).1 = .error (.access e)) ∧
        ∀ b, w.isDirectory p.searchDirectory = .ok b →
          ∃ found blocks,
            (((Scan.ofSettings s).files w p.searchDirectory).outcome none).1 = .ok found ∧
            ((p.references file).outcome none).1 = .ok (ks, blocks.flatten) ∧
            List.Forall₂ (fun o block => ∃ key calls, o = some key ∧
              Listing w s.callForms key found calls block) ks blocks ∧
            blocks.flatten.Pairwise fun a b =>
              (a.file, a.site.start) ≠ (b.file, b.site.start)) := by
  subst hp
  have hwrapped : ∀ t ∈ s.templates, Wrapped t :=
    fun t ht => wrapped_of_mem_builtin (htemplates ▸ ht)
  have hforms := Settings.wellNamed_of_ofDraft hs
  have hdir := normal_searchDirectory hw root s
  obtain ⟨ks, hks, hnodup, hregisters⟩ := exists_keys hwrapped (gives_registryFiles hfiles) file
  obtain ⟨keys, hkeys, rfl⟩ := exists_keyTexts hregisters
  have hchars : ∀ k ∈ keys, ∀ c ∈ k.toList, isKeyChar c = true := fun k hk => (hkeys k hk).isKeyChar
  refine ⟨keys.map some, hks.outcome,
    fun h => (gives_references_nil hw.absolute hks h).outcome, fun hincludes hne => ⟨?_, ?_⟩⟩
  · intro e he
    refine ⟨cause_of_isDirectory he, ?_⟩
    exact (gives_references hw.absolute hks hne hincludes (gives_mapM_below_error s he hne)).outcome
  · intro b hb
    obtain ⟨found, hfound, hbelow⟩ := (Scan.ofSettings s).exists_files w hb
    have hall : Gives ((keys.map some).mapM (CallSite.below w s (openAt w (.ofString root) s).searchDirectory))
        (.ok (keys.map (callsBelow w s.callForms found))) := by
      refine gives_mapM_ok (List.forall₂_map_left_iff.2 (List.forall₂_map_right_iff.2 ?_))
      exact List.forall₂_same.2 fun k hk => gives_below hw hdir hforms (hchars k hk) hfound hbelow
    have hpairwise := pairwise_callsBelow hw hdir hforms hbelow hchars (hnodup.of_map _)
    rw [List.flatMap_def] at hpairwise
    refine ⟨found, keys.map (callsBelow w s.callForms found), hfound.outcome, ?_, ?_, ?_⟩
    · rw [(gives_references hw.absolute hks hne hincludes hall).outcome]
      show Except.ok (_, distinctBy _ _) = _
      rw [distinctBy_eq_self hpairwise]
    · refine List.forall₂_map_left_iff.2 (List.forall₂_map_right_iff.2 (List.forall₂_same.2 ?_))
      intro k hk
      obtain ⟨calls, hcalls⟩ := exists_listing hforms (hchars k hk) hbelow
      exact ⟨k, calls, rfl, hcalls⟩
    · refine hpairwise.imp fun {a b} hkey heq => hkey ?_
      obtain ⟨hfile, hstart⟩ := Prod.mk.inj heq
      rw [CallSite.key, CallSite.key, hfile, hstart]

/-! ## A project with references -/

/-- What the settings of the sample are built from, with a search directory. -/
def sampleDraft (searchRoot : String) : Draft :=
  { registryGlobs := some (.text "di.ts"), includeGlobs := some (.list [])
    searchRoot := some (.text searchRoot) }

theorem sample_ofDraft : Settings.ofDraft (sampleDraft "src") = .ok sample.settings :=
  Settings.ofDraft_of_texts rfl (by decide) (by decide)

theorem sample_wellFormed : sample.workspace.WellFormed :=
  Workspace.wellFormed_of_names rfl (by decide)

theorem references_exact_sample :
    sample.workspace.WellFormed ∧ Settings.ofDraft (sampleDraft "src") = .ok sample.settings ∧
    sample.settings.templates = Template.builtin ∧
    sample = openAt sample.workspace (.ofString "/p") sample.settings ∧
    (sample.registryFiles.outcome none).1 = .ok [sampleRegistryFile] ∧
    sample.settings.includes (sample.workspace.displayed sample.root sampleFile) = true ∧
    sample.workspace.isDirectory sample.searchDirectory = .ok true ∧
    ∃ ks found blocks, some "mail.v2" ∈ ks ∧
      (((Scan.ofSettings sample.settings).files sample.workspace
        sample.searchDirectory).outcome none).1 = .ok found ∧
      ((sample.references sampleFile).outcome none).1 = .ok (ks, blocks.flatten) ∧
      List.Forall₂ (fun o block => ∃ key calls, o = some key ∧
        Listing sample.workspace sample.settings.callForms key found calls block) ks blocks := by
  obtain ⟨ks, hks, -, hlisted⟩ := references_exact sample_wellFormed "/p" sample_ofDraft rfl rfl
    sample_registryFiles sampleFile
  obtain ⟨ks', hks', hkey⟩ := sample_keys
  obtain rfl : ks = ks' := Except.ok.inj (hks.symm.trans hks'.outcome)
  obtain ⟨found, blocks, hfound, hreferences, hblocks, -⟩ :=
    (hlisted rfl (List.ne_nil_of_mem hkey)).2 true rfl
  exact ⟨sample_wellFormed, sample_ofDraft, rfl, rfl, sample_registryFiles, rfl, rfl, ks, found,
    blocks, hkey, hfound, hreferences, hblocks⟩

/-! ## An overlong search directory -/

/-- **A search directory with an overlong name fails the lookup** of every file that has a key. -/
theorem gives_references_overlong (hcwd : p.workspace.cwd.isAbsolute = true) (hroot : p.root.Normal)
    (hdir : p.workspace.isDirectory p.root = .ok true)
    (hname : Path.ProperName p.settings.searchRoot) (hclimbs : p.settings.searchRoot ≠ "..")
    (hlong : FileTree.nameLimit < p.settings.searchRoot.utf8ByteSize) {file : Path}
    {keys : List String} (hks : Gives (p.keys file) (.ok (keys.map some)))
    (hne : keys.map some ≠ [])
    (hincludes : p.settings.includes (p.workspace.displayed p.root file) = true) :
    Gives (p.references file) (.error (.access ⟨.nameTooLong, p.searchDirectory⟩)) := by
  have herror := isDirectory_child_overlong hroot.absolute hdir hlong
  rw [← searchDirectory_of_name hroot hname hclimbs] at herror
  exact gives_references hcwd hks hne hincludes (gives_mapM_below_error p.settings herror hne)

/-- A project with another search directory. -/
def searching (p : Project) (searchRoot : String) : Project :=
  { p with settings := { p.settings with searchRoot } }

theorem registryFiles_searching (searchRoot : String) :
    (p.searching searchRoot).registryFiles = p.registryFiles := rfl

/-- The search directory plays no role for imports from the importing file. -/
theorem resolve?_searching {searchRoot specifier : String}
    (hrelative : Resolver.isRelative specifier.toList = true) (file : Path) :
    (p.searching searchRoot).resolver.resolve? p.workspace specifier file p.root =
      p.resolver.resolve? p.workspace specifier file p.root := by
  have hclassify : ∀ r : Resolver, r.classify specifier = .relative := by
    intro r
    rw [Resolver.classify, if_pos hrelative]
  rw [Resolver.resolve?, Resolver.resolve?, Resolver.bases, Resolver.bases, hclassify, hclassify]
  rfl

theorem registers_searching {searchRoot : String} {file target : Path} {content : List Char}
    {o : Option String} (hsource : p.workspace.source? file = some content)
    (hrelative : ∀ b ∈ Import.all content, Resolver.isRelative b.specifier.toList = true)
    (h : p.Registers file target o) : (p.searching searchRoot).Registers file target o := by
  obtain ⟨content', hsource', t, ht, s, hs, hfinds⟩ := h
  obtain rfl := Option.some.inj (hsource.symm.trans hsource')
  obtain ⟨b, hb, hresolve, rfl⟩ := mem_namesFrom.1 hs
  refine ⟨content, hsource, t, ht, b.localName, mem_namesFrom.2 ⟨b, hb, ?_, rfl⟩, hfinds⟩
  exact (resolve?_searching (hrelative b hb) file).trans hresolve

/-- A name of 256 letters. -/
def overlongName : String := String.ofList (List.replicate 256 'a')

theorem utf8ByteSize_replicate (n : Nat) :
    (String.ofList (List.replicate n 'a')).utf8ByteSize = n := by
  induction n with
  | zero => rfl
  | succ n ih =>
      rw [List.replicate_succ', String.ofList_append, String.utf8ByteSize_append, ih]
      rfl

theorem overlong_ofDraft :
    Settings.ofDraft (sampleDraft overlongName) = .ok (sample.searching overlongName).settings := by
  refine Settings.ofDraft_of_texts rfl ?_ ?_
  · unfold overlongName Value.asDirectory Value.asText
    rw [String.toList_ofList]
    exact congrArg String.ofList (by decide +kernel)
  · unfold overlongName
    rw [String.toList_ofList]
    decide +kernel

theorem properName_overlongName : Path.ProperName overlongName ∧ overlongName ≠ ".." := by
  have hinj : ∀ {cs : List Char} {s : String}, s.toList ≠ cs → String.ofList cs ≠ s := by
    rintro cs s h rfl
    exact h String.toList_ofList
  unfold overlongName Path.ProperName
  rw [String.toList_ofList]
  exact ⟨⟨hinj (by decide +kernel), hinj (by decide +kernel), by decide +kernel⟩,
    hinj (by decide +kernel)⟩

theorem overlong_registryFiles :
    Gives (sample.searching overlongName).registryFiles (.ok [sampleRegistryFile]) := by
  rw [registryFiles_searching]
  exact gives_registryFiles sample_registryFiles

/-- The settings with the overlong name are accepted, the file is registered, and yet its references
are not even an empty list. -/
theorem references_overlong_sample :
    Settings.ofDraft (sampleDraft overlongName) = .ok (sample.searching overlongName).settings ∧
    (∃ ks, (((sample.searching overlongName).keys sampleFile).outcome none).1 = .ok ks ∧
      some "mail.v2" ∈ ks) ∧
    (((sample.searching overlongName).references sampleFile).outcome none).1 =
      .error (.access ⟨.nameTooLong, (sample.searching overlongName).searchDirectory⟩) := by
  have hwrapped : ∀ t ∈ sample.settings.templates, Wrapped t := fun t ht => wrapped_of_mem_builtin ht
  obtain ⟨ks, hks, -, hregisters⟩ := exists_keys (p := sample.searching overlongName) hwrapped
    overlong_registryFiles sampleFile
  obtain ⟨keys, -, rfl⟩ := exists_keyTexts hregisters
  have hkey : some "mail.v2" ∈ keys.map some := by
    refine (hregisters _).2 ⟨_, List.mem_singleton_self _, registers_searching sample_source ?_ ?_⟩
    · rw [sample_imports]
      decide
    · exact (registers_iff_contributes hwrapped).2 ⟨_, sample_source, sample_contributes⟩
  have hlong : FileTree.nameLimit < overlongName.utf8ByteSize := by
    unfold overlongName
    rw [utf8ByteSize_replicate]
    decide
  have hfails := gives_references_overlong (p := sample.searching overlongName) rfl
    (sample_wellFormed.normal (Path.proper_ofString "/p")) rfl properName_overlongName.1
    properName_overlongName.2 hlong hks (List.ne_nil_of_mem hkey) rfl
  exact ⟨overlong_ofDraft, ⟨_, hks.outcome, hkey⟩, hfails.outcome⟩

end Project

end ServiceKeys
