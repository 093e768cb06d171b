import ServiceKeys.Proofs.Path.Normal

/-!
# Displayed paths

A path is displayed relative to a directory when it lies there, and in absolute form otherwise.  Either
way nothing is lost: what a path of proper components is written as is read as that path again
(`ofString_toString`), so whoever goes on from the directory by what is displayed arrives at the path.
Two files are therefore never displayed alike, and neither are two places in files.  Main statement:
`displayed_exact`.
-/

namespace ServiceKeys.Path

/-! ## What is written is read again -/

/-- Proper names that are joined with slashes do not begin with one. -/
theorem head?_intercalate {names : List String} (h : ∀ name ∈ names, ProperName name) :
    ("/".intercalate names).toList.head? ≠ some '/' := by
  cases names with
  | nil => simp
  | cons name rest =>
      obtain ⟨hempty, -, hslash⟩ := h name List.mem_cons_self
      obtain ⟨more, hmore⟩ : ∃ more, "/".intercalate (name :: rest) = name ++ more := by
        cases rest with
        | nil => exact ⟨"", by simp⟩
        | cons next rest => exact ⟨_, by rw [String.intercalate_cons_cons, String.append_assoc]⟩
      rw [hmore, String.toList_append, List.head?_append_of_ne_nil]
      · exact fun hhead => hslash (List.mem_of_head? hhead)
      · exact fun hnil => hempty (String.toList_inj.1 hnil)

/-- **A path that is written is read again.** -/
theorem ofString_toString {p : Path} (hp : p.Proper) : ofString p.toString = p := by
  rw [toString]
  split
  · rename_i hempty
    obtain ⟨root, parts⟩ := p
    obtain ⟨rfl, rfl⟩ := hempty
    rfl
  · rw [ofString_written p.root (head?_intercalate hp), components_intercalate hp]

/-! ## Paths below a directory -/

theorem displayed_eq (p cwd dir : Path) :
    (∃ names, p.normalize cwd = (dir.normalize cwd).descend names ∧
      p.displayed cwd dir = toString ⟨.none, names⟩) ∨
    ((∀ names, p.normalize cwd ≠ (dir.normalize cwd).descend names) ∧
      p.displayed cwd dir = (p.normalize cwd).toString) := by
  unfold displayed
  cases hbelow : below? (dir.normalize cwd) (p.normalize cwd) with
  | some names => exact Or.inl ⟨names, below?_eq_some_iff.1 hbelow, by simp [hbelow]⟩
  | none =>
      refine Or.inr ⟨fun names hnames => ?_, by simp [hbelow]⟩
      rw [below?_eq_some_iff.2 hnames] at hbelow
      simp at hbelow

/-- **Going on from the directory by what is displayed leads back to the path.** -/
theorem join_ofString_displayed {p cwd dir : Path} (hcwd : cwd.isAbsolute = true) (hproper : cwd.Proper)
    (hp : p.Proper) :
    (dir.normalize cwd).join (ofString (p.displayed cwd dir)) = p.normalize cwd := by
  have hnormal : (p.normalize cwd).Proper := hp.normalize hproper
  rcases displayed_eq p cwd dir with ⟨names, hnames, hshown⟩ | ⟨-, hshown⟩
  · have hread : Proper ⟨.none, names⟩ := fun name hname =>
      hnormal name (by rw [hnames]; exact List.mem_append_right _ hname)
    rw [hshown, ofString_toString hread, hnames]
    rfl
  · rw [hshown, ofString_toString hnormal, join_of_isAbsolute (isAbsolute_normalize hcwd p)]

/-! ## Places in files -/

theorem colon_notMem_repr (n : Int) : ':' ∉ n.repr.toList := by
  have hdigits : ∀ m : Nat, ':' ∉ m.repr.toList := by
    intro m hmem
    rw [Nat.repr_eq_ofList_toDigits, String.toList_ofList] at hmem
    exact absurd (Nat.isDigit_of_mem_toDigits (by decide) (by decide) hmem) (by decide)
  cases n with
  | ofNat m => exact hdigits m
  | negSucc m =>
      show ':' ∉ ("-" ++ (m + 1).repr).toList
      rw [String.toList_append, List.mem_append, not_or]
      exact ⟨by decide, hdigits (m + 1)⟩

/-- A number behind a colon can be told from what stands in front of it. -/
theorem append_repr_inj {s s' : String} {n n' : Int}
    (h : s ++ ":" ++ n.repr = s' ++ ":" ++ n'.repr) : s = s' ∧ n = n' := by
  have hcut : n.repr.toList.reverse ++ ':' :: s.toList.reverse =
      n'.repr.toList.reverse ++ ':' :: s'.toList.reverse := by
    simpa using congrArg (fun t : String => t.toList.reverse) h
  obtain ⟨hnumber, hfront⟩ := Text.cut_unique (by simpa using colon_notMem_repr n)
    (by simpa using colon_notMem_repr n') hcut
  exact ⟨String.toList_inj.1 (List.reverse_inj.1 hfront),
    Int.repr_inj.1 (String.toList_inj.1 (List.reverse_inj.1 hnumber))⟩

/-- **Two places are displayed alike only if they are the same.** -/
theorem place_inj {file file' : String} {line line' column column' : Int} :
    place file line column = place file' line' column' ↔
      file = file' ∧ line = line' ∧ column = column' := by
  constructor
  · intro h
    obtain ⟨hfront, hcolumn⟩ := append_repr_inj h
    obtain ⟨hfile, hline⟩ := append_repr_inj hfront
    exact ⟨hfile, by omega, by omega⟩
  · rintro ⟨rfl, rfl, rfl⟩
    rfl

/-! ## Displayed paths identify files -/

/-- **A displayed path identifies the file.**  Seen from an absolute working directory, the absolute form
of a path stays as it is when it is taken again, and its components are proper and do not climb.  Whatever
directory it is displayed from, going on from there by the displayed text leads back to it; so another path,
alone or with a place in the file, is displayed in the same way exactly if its absolute form is the same. -/
theorem displayed_exact {cwd : Path} (habsolute : cwd.isAbsolute = true) (hproper : cwd.Proper)
    (s dir : String) :
    let p := (ofString s).normalize cwd
    let shown (s : String) := (ofString s).displayed cwd (ofString dir)
    p.normalize cwd = p ∧ (∀ part ∈ p.parts, ProperName part ∧ part ≠ "..") ∧
      (((ofString dir).normalize cwd).join (ofString (shown s))).normalize cwd = p ∧
      (∀ s', shown s' = shown s ↔ (ofString s').normalize cwd = p) ∧
      ∀ s' line column line' column', place (shown s') line' column' = place (shown s) line column ↔
        (ofString s').normalize cwd = p ∧ line' = line ∧ column' = column := by
  intro p shown
  have hback : ∀ s, ((ofString dir).normalize cwd).join (ofString (shown s)) = (ofString s).normalize cwd :=
    fun s => join_ofString_displayed habsolute hproper (proper_ofString s)
  have hnormal : p.normalize cwd = p := normalize_normalize habsolute (ofString s)
  have halike : ∀ s', shown s' = shown s ↔ (ofString s').normalize cwd = p := by
    intro s'
    constructor
    · intro hshown
      rw [← hback s', hshown, hback s]
    · intro hsame
      show displayed _ _ _ = displayed _ _ _
      rw [displayed, displayed, hsame]
  refine ⟨hnormal, fun part hpart => ⟨(proper_ofString s).normalize hproper part hpart, ?_⟩, ?_, halike, ?_⟩
  · rintro rfl
    exact notMem_resolveDots _ hpart
  · rw [hback s, hnormal]
  · intro s' line column line' column'
    rw [place_inj, halike s']

/-- A file that is reached over the top of the tree and lies beside the directory, whose name begins in the
same way: it is displayed in absolute form, and so is no other file. -/
theorem displayed_exact_beside :
    (ofString "/home/dev").isAbsolute = true ∧ (ofString "/home/dev").Proper ∧
      (ofString "/srv/../../shop-old//./a.ts").displayed (ofString "/home/dev") (ofString "/shop/") =
        "/shop-old/a.ts" ∧
      ∀ s', (ofString s').displayed (ofString "/home/dev") (ofString "/shop/") = "/shop-old/a.ts" ↔
        (ofString s').normalize (ofString "/home/dev") = ⟨.single, ["shop-old", "a.ts"]⟩ := by
  have habsolute : (ofString "/home/dev").isAbsolute = true := by decide +kernel
  have hshown : (ofString "/srv/../../shop-old//./a.ts").displayed (ofString "/home/dev") (ofString "/shop/") =
      "/shop-old/a.ts" := by decide +kernel
  have hnormal : (ofString "/srv/../../shop-old//./a.ts").normalize (ofString "/home/dev") =
      ⟨.single, ["shop-old", "a.ts"]⟩ := by decide +kernel
  obtain ⟨-, -, -, halike, -⟩ :=
    displayed_exact habsolute (proper_ofString _) "/srv/../../shop-old//./a.ts" "/shop/"
  refine ⟨habsolute, proper_ofString _, hshown, fun s' => ?_⟩
  rw [← hshown, ← hnormal]
  exact halike s'

end ServiceKeys.Path
