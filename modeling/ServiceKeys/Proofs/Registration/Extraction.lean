import ServiceKeys.Proofs.Lookup.Scan
import ServiceKeys.Proofs.Settings.Built
import ServiceKeys.Proofs.Template.Captured

/-!
# What is extracted from a registration file

A template is any pattern, so the group of a reference or of a key may stand in a part that a match can do
without.  Extraction succeeds exactly when the group of the reference takes part in every match, and gives a
key for every match exactly when the group of the key does (`Pattern.TakesPart`); where all ways through the
pattern pass the group, this is so in every text (`Pattern.Passes`).  What is extracted then is as it should
be: references without blanks around them, and keys of the characters of keys.  Main statement:
`Registration.extraction_exact`.
-/

namespace ServiceKeys

open Regex Text

/-! ## Lists of computations -/

section Lists

variable {ε α β : Type}

/-- Each computation of a list succeeds with a result of a kind. -/
theorem exists_mapM_all_iff {f : α → Except ε β} {xs : List α} {Q : β → Prop} :
    (∃ ys, xs.mapM f = .ok ys ∧ ∀ y ∈ ys, Q y) ↔ ∀ x ∈ xs, ∃ y, f x = .ok y ∧ Q y := by
  constructor
  · rintro ⟨ys, h, hys⟩ x hx
    obtain ⟨y, hy⟩ := exists_mapM_eq_ok_iff.1 ⟨ys, h⟩ x hx
    exact ⟨y, hy, hys y ((mem_of_mapM_eq_ok h).2 ⟨x, hx, hy⟩)⟩
  · intro h
    obtain ⟨ys, hys⟩ := exists_mapM_eq_ok fun x hx => (h x hx).imp fun _ => And.left
    refine ⟨ys, hys, fun y hy => ?_⟩
    obtain ⟨x, hx, hxy⟩ := (mem_of_mapM_eq_ok hys).1 hy
    obtain ⟨y', hy', hQ⟩ := h x hx
    cases hxy.symm.trans hy'
    exact hQ

theorem exists_flatten_iff {x : Except ε (List (List β))} {b : β} :
    (∃ ys, (do return (← x).flatten) = Except.ok ys ∧ b ∉ ys) ↔ ∃ yss, x = .ok yss ∧ ∀ ys ∈ yss, b ∉ ys := by
  cases x <;> simp [bind, Except.bind, pure, Except.pure]

theorem exists_eq_map_some {os : List (Option α)} (h : none ∉ os) : ∃ xs : List α, os = xs.map some := by
  induction os with
  | nil => exact ⟨[], rfl⟩
  | cons o os ih =>
      rw [List.mem_cons, not_or] at h
      obtain ⟨xs, rfl⟩ := ih h.2
      cases o with
      | none => exact absurd rfl h.1
      | some x => exact ⟨x :: xs, rfl⟩

end Lists

namespace Regex.Pattern

/-- A named group takes part in every match of a pattern in a text. -/
def TakesPart (p : Pattern) (name : String) (content : List Char) : Prop :=
  ∀ m ∈ findAll p.body content, ∃ k, p.groupIndex? name = some k ∧ (m.group? k).isSome

/-- All ways through a pattern pass a named group. -/
def Passes (p : Pattern) (name : String) : Prop :=
  ∃ k, p.groupIndex? name = some k ∧ Regex.Passes k p.body

theorem Passes.takesPart {p : Pattern} {name : String} (h : p.Passes name) (content : List Char) :
    p.TakesPart name content := by
  obtain ⟨k, hk, hpasses⟩ := h
  intro m hm
  exact ⟨k, hk, by simpa [Match.group?] using isSome_capture?_of_passes hpasses (mem_ends_of_mem_findAll hm)⟩

end Regex.Pattern

namespace Registration

variable {t : Template} {templates : List Template} {p : Pattern} {m : Match} {content : List Char}
  {key symbol : String} {symbols : List String}

/-- A text is not empty, and no blank stands at its ends. -/
structure Trimmed (cs : List Char) : Prop where
  ne_nil : cs ≠ []
  head : ∀ c ∈ cs.head?, isBlank c = false
  last : ∀ c ∈ cs.getLast?, isBlank c = false

theorem groupNamed_eq_some_iff {name : String} {text : List Char} :
    groupNamed p m name = .ok (some text) ↔ ∃ k, p.groupIndex? name = some k ∧ m.group? k = some text := by
  rw [groupNamed]
  cases p.groupIndex? name <;> simp

theorem takesPart_iff {name : String} : p.TakesPart name content ↔
    ∀ m ∈ findAll p.body content, ∃ text, groupNamed p m name = .ok (some text) := by
  simp only [Pattern.TakesPart, groupNamed_eq_some_iff, Option.isSome_iff_exists]
  exact forall₂_congr fun m _ => ⟨fun ⟨k, hk, text, h⟩ => ⟨text, k, hk, h⟩, fun ⟨text, k, hk, h⟩ => ⟨k, hk, text, h⟩⟩

/-! ## References -/

theorem ofMatch_of_text {text : List Char} (h : groupNamed p m "ref" = .ok (some text)) :
    ofMatch t key p m = .ok (if (trim text).isEmpty then none else some ⟨key, String.ofList (trim text), t.kind⟩) := by
  rw [ofMatch, h]
  rfl

theorem exists_ofMatch_iff : (∃ r, ofMatch t key p m = .ok r) ↔ ∃ text, groupNamed p m "ref" = .ok (some text) := by
  constructor
  · rintro ⟨r, h⟩
    rw [ofMatch, bind_eq_ok_iff] at h
    obtain ⟨o, ho, h⟩ := h
    cases o with
    | none => cases h
    | some text => exact ⟨text, ho⟩
  · rintro ⟨text, h⟩
    exact ⟨_, ofMatch_of_text h⟩

theorem trimmed_of_ofMatch {r : Registration} (h : ofMatch t key p m = .ok (some r)) : Trimmed r.reference.toList := by
  obtain ⟨text, htext⟩ := exists_ofMatch_iff.1 ⟨_, h⟩
  rw [ofMatch_of_text htext] at h
  split at h
  · cases h
  · rename_i hne
    cases h
    simp only [String.toList_ofList]
    exact ⟨by simpa using hne, fun c => not_blank_of_mem_head?_trim, fun c => not_blank_of_mem_getLast?_trim⟩

theorem forwardWith_of_forward (hp : t.forward key.toList = .ok p) : forwardWith t content key =
    (do return (← (findAll p.body content).mapM (ofMatch t key p)).filterMap id) := by
  rw [forwardWith, hp]
  rfl

theorem exists_forwardWith_iff (hp : t.forward key.toList = .ok p) :
    (∃ found, forwardWith t content key = .ok found) ↔ p.TakesPart "ref" content := by
  have heach : (∃ rs, (findAll p.body content).mapM (ofMatch t key p) = .ok rs) ↔ p.TakesPart "ref" content := by
    rw [exists_mapM_eq_ok_iff, takesPart_iff]
    exact forall₂_congr fun m _ => exists_ofMatch_iff
  rw [forwardWith_of_forward hp, ← heach]
  constructor
  · rintro ⟨found, h⟩
    obtain ⟨rs, hrs, -⟩ := bind_eq_ok_iff.1 h
    exact ⟨rs, hrs⟩
  · rintro ⟨rs, hrs⟩
    exact ⟨_, bind_eq_ok_iff.2 ⟨rs, hrs, rfl⟩⟩

theorem exists_forward_iff (hps : ∀ t ∈ templates, ∃ p, t.forward key.toList = .ok p) :
    (∃ found, forward templates content key = .ok found) ↔
      ∀ t ∈ templates, ∀ p, t.forward key.toList = .ok p → p.TakesPart "ref" content := by
  have heach : (∃ rss, templates.mapM (fun t => forwardWith t content key) = .ok rss) ↔
      ∀ t ∈ templates, ∀ p, t.forward key.toList = .ok p → p.TakesPart "ref" content := by
    rw [exists_mapM_eq_ok_iff]
    refine forall₂_congr fun t ht => ?_
    obtain ⟨p, hp⟩ := hps t ht
    simp [exists_forwardWith_iff hp, hp]
  rw [← heach, forward]
  constructor
  · rintro ⟨found, h⟩
    obtain ⟨rss, hrss, -⟩ := bind_eq_ok_iff.1 h
    exact ⟨rss, hrss⟩
  · rintro ⟨rss, hrss⟩
    exact ⟨_, bind_eq_ok_iff.2 ⟨rss, hrss, rfl⟩⟩

/-- **References that are extracted are trimmed.** -/
theorem trimmed_of_mem_forward {found : List Registration} (h : forward templates content key = .ok found)
    {r : Registration} (hr : r ∈ found) : Trimmed r.reference.toList := by
  obtain ⟨rss, hrss, h⟩ := bind_eq_ok_iff.1 h
  cases h
  obtain ⟨rs, hrs, hr⟩ := List.mem_flatten.1 hr
  obtain ⟨t, -, h⟩ := (mem_of_mapM_eq_ok hrss).1 hrs
  obtain ⟨p, -, h⟩ := bind_eq_ok_iff.1 h
  obtain ⟨os, hos, h⟩ := bind_eq_ok_iff.1 h
  cases h
  obtain ⟨m, -, hm⟩ := (mem_of_mapM_eq_ok hos).1 (show some r ∈ os by simpa using hr)
  exact trimmed_of_ofMatch hm

/-! ## Keys -/

theorem exists_reverseWith_iff (hp : t.reverse symbol.toList = .ok p) :
    (∃ keys, reverseWith t content symbol = .ok keys ∧ none ∉ keys) ↔ p.TakesPart "key" content := by
  have hwith : reverseWith t content symbol =
      (findAll p.body content).mapM fun m => do return (← groupNamed p m "key").map String.ofList := by
    rw [reverseWith, hp]
    rfl
  have hall : ∀ keys : List (Option String), none ∉ keys ↔ ∀ o ∈ keys, o ≠ none := fun keys =>
    ⟨fun h o ho hnone => h (hnone ▸ ho), fun h hmem => h none hmem rfl⟩
  simp only [hwith, hall, exists_mapM_all_iff, takesPart_iff]
  refine forall₂_congr fun m _ => ?_
  cases groupNamed p m "key" with
  | error e => simp [bind, Except.bind]
  | ok o => cases o <;> simp [bind, Except.bind, pure, Except.pure]

theorem exists_reverse_iff (hps : ∀ t ∈ templates, ∀ symbol ∈ symbols, ∃ p, t.reverse symbol.toList = .ok p) :
    (∃ keys : List String, reverse templates content symbols = .ok (keys.map some)) ↔
      ∀ t ∈ templates, ∀ symbol ∈ symbols, ∀ p, t.reverse symbol.toList = .ok p → p.TakesPart "key" content := by
  have hpresent : (∃ keys : List String, reverse templates content symbols = .ok (keys.map some)) ↔
      ∃ found, templates.mapM (fun t => do
        return (← (distinct symbols).mapM fun s => reverseWith t content s).flatten) = .ok found ∧
          ∀ keys ∈ found, none ∉ keys := by
    constructor
    · rintro ⟨keys, h⟩
      obtain ⟨found, hfound, h⟩ := bind_eq_ok_iff.1 h
      refine ⟨found, hfound, fun ks hks hnone => ?_⟩
      have hmem : none ∈ distinct found.flatten := mem_distinct.2 (List.mem_flatten.2 ⟨ks, hks, hnone⟩)
      rw [Except.ok.inj h] at hmem
      simp at hmem
    · rintro ⟨found, hfound, hnone⟩
      have habsent : none ∉ distinct found.flatten := fun hmem => by
        obtain ⟨ks, hks, hmem⟩ := List.mem_flatten.1 (mem_distinct.1 hmem)
        exact hnone ks hks hmem
      obtain ⟨keys, hkeys⟩ := exists_eq_map_some habsent
      exact ⟨keys, bind_eq_ok_iff.2 ⟨found, hfound, congrArg Except.ok hkeys⟩⟩
  rw [hpresent, exists_mapM_all_iff]
  refine forall₂_congr fun t ht => ?_
  rw [exists_flatten_iff, exists_mapM_all_iff]
  simp only [mem_distinct]
  refine forall₂_congr fun symbol hsymbol => ?_
  obtain ⟨p, hp⟩ := hps t ht symbol hsymbol
  simp [exists_reverseWith_iff hp, hp]

/-- **Keys that are extracted are keys**, unless a template writes the name of the key's group itself. -/
theorem keyText_of_mem_extracted (hown : ∀ t ∈ templates, ¬ nameText "key".toList <:+: t.source.toList)
    {keys : List (Option String)} (h : reverse templates content symbols = .ok keys) {k : String}
    (hk : some k ∈ keys) : KeyText k.toList := by
  obtain ⟨found, hfound, h⟩ := bind_eq_ok_iff.1 h
  cases h
  obtain ⟨ks, hks, hk⟩ := List.mem_flatten.1 (mem_distinct.1 hk)
  obtain ⟨t, ht, h⟩ := (mem_of_mapM_eq_ok hfound).1 hks
  obtain ⟨kss, hkss, h⟩ := bind_eq_ok_iff.1 h
  cases h
  obtain ⟨ks', hks', hk⟩ := List.mem_flatten.1 hk
  obtain ⟨symbol, -, h⟩ := (mem_of_mapM_eq_ok hkss).1 hks'
  obtain ⟨p, hp, h⟩ := bind_eq_ok_iff.1 h
  obtain ⟨m, hm, h⟩ := (mem_of_mapM_eq_ok h).1 hk
  obtain ⟨o, ho, h⟩ := bind_eq_ok_iff.1 h
  cases o with
  | none => cases h
  | some text =>
      cases h
      obtain ⟨i, hi, htext⟩ := groupNamed_eq_some_iff.1 ho
      rw [String.toList_ofList]
      exact Template.keyText_of_reverse (mapError_eq_ok_iff.1 hp) (hown t ht) hi hm htext

end Registration

namespace CallSite

open Lookup

/-- The calls of a key are found unless the directory cannot be asked about. -/
theorem failsOnly_below (w : Workspace) (settings : Settings) (dir : Path) (key : String) :
    FailsOnly ((below w settings dir (some key)).outcome none).1 fun e => ∃ a, e = .access a := by
  cases hdir : w.isDirectory dir with
  | error a =>
      have hgives : Gives (below w settings dir (some key)) (.error (.access a)) :=
        ((Scan.ofSettings settings).gives_files_error w hdir).bind_error
      rw [hgives.outcome]
      exact .error ⟨a, rfl⟩
  | ok b =>
      obtain ⟨found, hfound, -⟩ := (Scan.ofSettings settings).exists_files w hdir
      have hsites : Gives ((Path.sort (found.map w.normalize)).mapM (inFile w settings.callForms key)) _ :=
        gives_mapM_ok (List.forall₂_map_right_iff.2 (List.forall₂_same.2 fun file _ =>
          (polls_inFile w settings.callForms key file).gives))
      have hgives : Gives (below w settings dir (some key)) (.ok _) :=
        hfound.bind_ok ((gives_debug _).bind_ok (hsites.bind_ok (gives_pure _)))
      rw [hgives.outcome]
      exact .ok _

end CallSite

namespace Registration

variable {templates : List Template} {key : String} {symbols : List String}

/-- **Extraction yields names exactly where the groups take part.**  For templates whose patterns can be read
for a key and for symbols: the registrations of the key are extracted, with trimmed references, exactly if the
group of the reference takes part in every match; every registration of the symbols gives a key exactly if
the group of the key takes part in every match, and what it gives are keys, for which calls can be looked for.
A group that all ways through a pattern pass takes part in the matches of any text. -/
theorem extraction_exact (hforward : ∀ t ∈ templates, ∃ p, t.forward key.toList = .ok p)
    (hreverse : ∀ t ∈ templates, ∀ symbol ∈ symbols, ∃ p, t.reverse symbol.toList = .ok p)
    (hown : ∀ t ∈ templates, ¬ nameText "key".toList <:+: t.source.toList) (content : List Char) :
    ((∃ found, forward templates content key = .ok found ∧ ∀ r ∈ found, Trimmed r.reference.toList) ↔
      ∀ t ∈ templates, ∀ p, t.forward key.toList = .ok p → p.TakesPart "ref" content) ∧
    ((∃ keys : List String, reverse templates content symbols = .ok (keys.map some) ∧
        ∀ k ∈ keys, KeyText k.toList ∧ ∀ w settings dir,
          FailsOnly ((CallSite.below w settings dir (some k)).outcome none).1 fun e => ∃ a, e = .access a) ↔
      ∀ t ∈ templates, ∀ symbol ∈ symbols, ∀ p, t.reverse symbol.toList = .ok p → p.TakesPart "key" content) ∧
    ∀ (p : Pattern) name, p.Passes name → p.TakesPart name content := by
  refine ⟨?_, ?_, fun p name h => h.takesPart content⟩
  · rw [← exists_forward_iff hforward]
    exact exists_congr fun found => and_iff_left_of_imp fun h r hr => trimmed_of_mem_forward h hr
  · rw [← exists_reverse_iff hreverse]
    refine exists_congr fun keys => and_iff_left_of_imp fun h k hk => ⟨?_, fun w settings dir => ?_⟩
    · exact keyText_of_mem_extracted hown h (List.mem_map_of_mem hk)
    · exact CallSite.failsOnly_below w settings dir k

theorem extraction_exact_arrow :
    (∃ found, forward [Template.arrow] "a => B".toList "a" = .ok found ∧ ∀ r ∈ found, Trimmed r.reference.toList) ∧
      ∃ keys : List String, reverse [Template.arrow] "a => B".toList ["B"] = .ok (keys.map some) ∧
        ∀ k ∈ keys, KeyText k.toList := by
  have hforward : ((Template.arrow.forward "a".toList).toOption.any fun p =>
      decide (p.groupIndex? "ref" = some 1 ∧ Passes 1 p.body)) = true := by decide +kernel
  have hreverse : ((Template.arrow.reverse "B".toList).toOption.any fun p =>
      decide (p.groupIndex? "key" = some 1 ∧ Passes 1 p.body)) = true := by decide +kernel
  obtain ⟨p, hp, href⟩ := (Option.any_eq_true _ _).1 hforward
  obtain ⟨q, hq, hkey⟩ := (Option.any_eq_true _ _).1 hreverse
  replace hp := eq_ok_of_toOption hp
  replace hq := eq_ok_of_toOption hq
  obtain ⟨hreferences, hkeys, hpasses⟩ := extraction_exact (List.forall_mem_singleton.2 ⟨p, hp⟩)
    (List.forall_mem_singleton.2 (List.forall_mem_singleton.2 ⟨q, hq⟩))
    (List.forall_mem_singleton.2 (by decide)) "a => B".toList
  refine ⟨hreferences.2 (List.forall_mem_singleton.2 fun p' hp' => ?_), ?_⟩
  · cases hp.symm.trans hp'
    exact hpasses p "ref" ⟨1, of_decide_eq_true href⟩
  · refine (hkeys.2 (List.forall_mem_singleton.2 (List.forall_mem_singleton.2 fun q' hq' => ?_))).imp ?_
    · cases hq.symm.trans hq'
      exact hpasses q "key" ⟨1, of_decide_eq_true hkey⟩
    · exact fun keys h => ⟨h.1, fun k hk => (h.2 k hk).1⟩

/-- A template in which a key may stand alone, as in the short form of a property. -/
def shortProperty : Template := { source := "$\x7bkey\x7d(?:\\s*:\\s*$\x7bref\x7d)?", kind := "value" }

/-- A template in which a reference may stand alone. -/
def shortReference : Template := { source := "(?:$\x7bkey\x7d\\s*:\\s*)?$\x7bref\x7d", kind := "value" }

/-- The settings that a template makes are built, so it has passed its check. -/
def Accepted (t : Template) : Prop :=
  (Settings.ofDraft { templates := some (.list [.list [.text t.source, .text t.kind]]) }).toOption.map
    Settings.templates = some [t]

/-- **A group may take no part in a match** of a template that was accepted: then the registrations of a key are
not extracted, and a symbol is registered under no key. -/
theorem extraction_absent :
    Accepted shortProperty ∧ (shortProperty.forward "mail".toList).toOption.isSome ∧
      (forward [shortProperty] "mail".toList "mail").mapError Failure.toClass = .error (.fault .lacksOperation) ∧
    Accepted shortReference ∧ (shortReference.reverse "Mail".toList).toOption.isSome ∧
      (reverse [shortReference] "Mail".toList ["Mail"]).toOption = some [none] := by
  refine ⟨?_, ?_, ?_, ?_, ?_, ?_⟩
  · rw [Accepted]
    decide +kernel
  · decide +kernel
  · decide +kernel
  · rw [Accepted]
    decide +kernel
  · decide +kernel
  · decide +kernel

end Registration

end ServiceKeys
