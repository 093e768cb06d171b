import ServiceKeys.Proofs.Regex.Named
import ServiceKeys.Proofs.Registration.Entry
import ServiceKeys.Proofs.Template.Compile
import ServiceKeys.Proofs.Text.Folding

/-!
# What the group of a key holds

In a pattern for a symbol the placeholder of the key has become a group with a name.  Wherever that name is
written, the inside of the group follows (`closed_of_substituted`), unless the template writes the name
itself; so the group has the body of a key under some flags, and what it remembers is a key: main statement
`keyText_of_reverse`.  Where the placeholder stands in the template, and what else is in it, does not matter.
-/

namespace ServiceKeys

namespace Text

variable {part cs rest : List Char}

/-- Escaping brings no part into a text that begins with an opening parenthesis and a question mark. -/
theorem not_infix_escape (hrest : rest.head?.any (· != '?') = true) (h : ¬ '(' :: '?' :: part <:+: rest) :
    ¬ '(' :: '?' :: part <:+: Regex.escape cs ++ rest := by
  induction cs with
  | nil => exact h
  | cons c cs ih =>
      have hnext := head?_escape_append (d := '?') (by decide) (by decide) cs hrest
      have hcons : Regex.escape (c :: cs) = (if Regex.isSpecial c then ['\\', c] else [c]) ++ Regex.escape cs := rfl
      have hcut : ¬ '(' :: '?' :: part <:+: c :: (Regex.escape cs ++ rest) := by
        rw [List.infix_cons_iff, not_or]
        refine ⟨fun hprefix => ?_, ih⟩
        obtain ⟨rfl, w, hw⟩ := List.cons_prefix_cons.1 hprefix
        rw [← hw] at hnext
        simp at hnext
      rw [hcons, List.append_assoc]
      split
      · rw [List.cons_append, List.infix_cons_iff, not_or]
        exact ⟨fun hprefix => absurd (List.cons_prefix_cons.1 hprefix).1 (by decide), hcut⟩
      · exact hcut

end Text

namespace Regex

variable {text : List Char} {ts more : List Token}

/-- What is written behind a name is decided by the text. -/
theorem exists_more_of_cut {name w : List Char} (hcut : ∀ a b, text = a ++ (nameText name ++ b) → ∃ z, b = w ++ z)
    (htext : .dangling ∉ tokens text) (hw : .dangling ∉ tokens w)
    (h : tokens text = ts ++ (nameMark name ++ more)) : ∃ B, more = tokens w ++ B := by
  have hmore : ∀ t ∈ more, t ∈ tokens text := fun t ht =>
    h ▸ List.mem_append_right _ (List.mem_append_right _ ht)
  have hspelled : text = ts.flatMap Token.chars ++ (nameText name ++ more.flatMap Token.chars) := by
    rw [← chars_tokens text, h, List.flatMap_append, List.flatMap_append, chars_nameMark]
  obtain ⟨z, hz⟩ := hcut _ _ hspelled
  refine ⟨tokens z, ?_⟩
  rw [← tokens_append hw, ← hz, tokens_chars (fun hmem => backslash_notMem_tokens text (hmore _ hmem))
    fun hmem => htext (hmore _ hmem)]

end Regex

namespace Template

open Text Regex Registration

variable {t : Template} {p : Pattern} {symbol : List Char} {k : Nat}

/-! ## The body of a key under flags -/

theorem nameSet_eq (f : Flags) :
    nameSet f = ⟨.category .word f.ascii false :: ['$'].map .char, false, f.rule⟩ := by
  rw [nameSet]
  cases f.rule <;> cases f.ascii <;> rfl

theorem keySet_eq (f : Flags) :
    keySet f = ⟨.category .word f.ascii false :: ('$' :: keySeparators).map .char, false, f.rule⟩ := by
  rw [keySet]
  cases f.rule <;> cases f.ascii <;> rfl

/-- **Whatever flags are set, the body of a key holds keys only.** -/
theorem exists_denotes_keyBodyUnder (f : Flags) : ∃ L, Denotes (keyBodyUnder f) L ∧ ∀ cs ∈ L, KeyText cs := by
  have hname : ∀ c, (nameSet f).accepts c = true → isIdentifierContinue c = true := by
    intro c hc
    rw [nameSet_eq] at hc
    rcases CharSet.of_accepts_wordOr (by decide) hc with hword | hsign
    · exact isIdentifierContinue_of_isWord hword
    · obtain rfl := List.mem_singleton.1 hsign
      decide
  have hkey : ∀ c, (keySet f).accepts c = true → isKeyChar c = true := by
    intro c hc
    rw [keySet_eq] at hc
    rw [isKeyChar, Bool.or_eq_true, List.contains_iff_mem]
    exact CharSet.of_accepts_wordOr (by decide) hc
  refine ⟨_, denotes_bracketed (nameSet f) (keySet f), ?_⟩
  rintro cs ⟨c, hc, hcs⟩
  refine ⟨c, hname c hc, hcs.imp_right ?_⟩
  rintro ⟨mid, d, hmid, hd, rfl⟩
  exact ⟨mid, d, fun e he => hkey e (hmid e he), hname d hd, rfl⟩

/-! ## Where the name of the key is written -/

/-- What follows the name in the group of a key. -/
def keyClosing : List Char := "[\\w$](?:[\\w$.:-]*[\\w$])?)".toList

theorem not_infix_symbolWord (symbol : List Char) : ¬ nameText "key".toList <:+: wholeWord symbol [] [] := by
  rw [symbolWord_eq]
  intro h
  rcases infix_append_of_parted (Or.inl ⟨')', by decide, by decide⟩) h with hbefore | hrest
  · exact absurd hbefore (by decide)
  · exact not_infix_escape (by decide) (by decide) hrest

/-- **Wherever the name of the key is written, the rest of its group follows**, unless the template writes the
name itself. -/
theorem closed_of_substituted (hown : ¬ nameText "key".toList <:+: t.source.toList) {a b : List Char}
    (h : t.substituted keyCapture.toList (wholeWord symbol [] []) = a ++ (nameText "key".toList ++ b)) :
    ∃ z, b = keyClosing ++ z := by
  have hlast : ∃ c ∈ (wholeWord symbol [] []).getLast?, c ∉ nameText "key".toList :=
    ⟨')', getLast?_wholeWord symbol [] [], by decide⟩
  have hcapture : keyCapture.toList = '(' :: (keyGuard.tail ++ keyGroup) := keyCapture_eq
  rw [substituted, replaceAll] at h
  -- the name is in no symbol, so it was there before the symbol was put in
  rcases cut_replaceGo (by decide) (by decide) hlast h with ⟨a', b', w, hnew, -⟩ | ⟨a', w, hfirst, hb⟩
  · exact absurd ⟨a', b', by rw [List.append_assoc]; exact hnew.symm⟩ (not_infix_symbolWord symbol)
  · rw [hcapture, replaceAll] at hfirst
    -- and before that it is in a group of a key
    rcases cut_replaceGo (by decide) (by decide) ⟨')', by decide, by decide⟩ hfirst with
      ⟨u, v, w', hnew, rfl⟩ | ⟨u, w', hsource, -⟩
    · have hcut : keyGuard ++ ('(' :: ((nameText "key".toList).tail ++ keyClosing) ++ []) =
          u ++ (nameText "key".toList ++ v) := by
        rw [← hnew, List.append_nil]
        decide
      obtain rfl := eq_of_cut (by decide) ⟨')', by decide, by decide⟩ (by decide) (by decide) (by decide) hcut
      have hsame : nameText "key".toList ++ keyClosing = nameText "key".toList ++ v :=
        (List.append_nil _).symm.trans (List.append_cancel_left hcut)
      obtain rfl := List.append_cancel_left hsame
      exact ⟨_, hb.trans (replaceGo_unmarked (by decide))⟩
    · exact absurd ⟨u, w', by rw [List.append_assoc]; exact hsource.symm⟩ hown

/-- **What is remembered under the name of the key is a key**, in every match of a pattern for a symbol. -/
theorem keyText_of_reverse (hp : t.reverse symbol = .ok p) (hown : ¬ nameText "key".toList <:+: t.source.toList)
    (hk : p.names.lookup "key" = some k) {content : List Char} {m : Match} (hm : m ∈ findAll p.body content)
    {text : List Char} (htext : m.group? k = some text) : KeyText text := by
  have hparse := compile_eq_ok.1 hp
  have hplain : '\\' ∉ "key".toList := by decide
  have hinside : StandsFor keyInside keyBodyUnder := fun _ _ => leads_keyInside
  have hbodies : All (bodyAt k fun r => ∃ f, r = keyBodyUnder f) p.body := by
    refine bodyAt_of_parse hplain hinside hparse hk fun more hmore => ?_
    obtain ⟨ts, hts⟩ := hmore
    obtain ⟨B, hB⟩ := exists_more_of_cut (fun _ _ h => closed_of_substituted hown h) (dangling_notMem_of_parse hparse)
      (by decide) hts.symm
    exact ⟨B, hB.trans (by rfl)⟩
  obtain ⟨c, hc, rfl⟩ := Option.map_eq_some_iff.1 htext
  refine text_of_capture? (hbodies.imp fun r hr => ?_) (mem_ends_of_mem_findAll hm) hc
  cases r with
  | group i r =>
      rintro rfl
      obtain ⟨f, rfl⟩ := hr rfl
      exact exists_denotes_keyBodyUnder f
  | _ => trivial

end Template

end ServiceKeys
