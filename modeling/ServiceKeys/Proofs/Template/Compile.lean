import ServiceKeys.Proofs.Template.Placeholder

/-!
# Templates that can be read for every key and symbol

A template is checked with both of its captures.  What is looked up later is another text: one capture is
replaced by a whole word, so one group is missing, and every group behind it is numbered one lower.  A
template for which this does no harm is `Replaceable`: the placeholder occurs once, its name is the
placeholder's alone, the pattern refers neither to its group nor by number to a group behind it, and its looks
back have neither that group nor recalls.  Such a template can be read for every key and symbol once it has
been checked (`exists_pattern_of_check`); another one can pass the check and fail later
(`recalledKey_unreadable`).

The condition is sufficient and not necessary.  A number behind the placeholder comes to mean the next group:
if there is one, the template can still be read, though it says something else.  A recall in a look back, and a
placeholder that stands in a comment as well, are left out too.
-/

namespace ServiceKeys

namespace Text

variable {part new xs ys rest a b g u v : List Char} {c d : Char}

/-! ## Parts that occur once -/

/-- A part occurs in a text, and neither in front of that place nor behind it. -/
def Once (part cs : List Char) : Prop :=
  ∃ before after, cs = before ++ (part ++ after) ∧ ¬ part <:+: before ∧ ¬ part <:+: after

theorem prefix_of_prefix_append_cons (hd : d ∉ part) (h : part <+: xs ++ d :: rest) : part <+: xs := by
  by_cases hle : part.length ≤ xs.length
  · exact List.prefix_of_prefix_length_le h (List.prefix_append xs _) hle
  · refine absurd ?_ hd
    have hxs : xs ++ [d] <+: xs ++ d :: rest := ⟨rest, by simp⟩
    exact (List.prefix_of_prefix_length_le hxs h (by simp; omega)).subset (by simp)

theorem isPrefixOf_append_cons (hd : d ∉ part.tail) :
    part.isPrefixOf (c :: (xs ++ d :: rest)) = part.isPrefixOf (c :: xs) := by
  cases part with
  | nil => rfl
  | cons e part =>
      rw [Bool.eq_iff_iff, List.isPrefixOf_iff_prefix, List.isPrefixOf_iff_prefix, List.cons_prefix_cons,
        List.cons_prefix_cons]
      exact and_congr_right fun _ =>
        ⟨prefix_of_prefix_append_cons hd, fun h => h.trans (List.prefix_append xs _)⟩

/-- What stands in front of a character with which no occurrence goes on is replaced on its own. -/
theorem replaceGo_append {n : Nat} (hd : d ∉ part.tail) (hn : n ≤ xs.length) :
    replaceGo part new n (xs ++ d :: rest) = replaceGo part new n xs ++ replaceGo part new 0 (d :: rest) := by
  induction xs generalizing n with
  | nil =>
      obtain rfl : n = 0 := Nat.le_zero.1 hn
      rfl
  | cons c xs ih =>
      cases n with
      | succ n => exact ih (Nat.le_of_succ_le_succ hn)
      | zero =>
          rw [List.cons_append, replaceGo, replaceGo, isPrefixOf_append_cons hd]
          split
          · rename_i hpart
            have hle := (List.isPrefixOf_iff_prefix.1 hpart).length_le
            rw [List.length_cons] at hle
            rw [ih (by omega), List.append_assoc]
          · rw [ih (Nat.zero_le _), List.cons_append]

theorem replaceAll_append (hd : d ∉ part.tail) :
    replaceAll part new (xs ++ d :: rest) = replaceAll part new xs ++ replaceAll part new (d :: rest) :=
  replaceGo_append hd (Nat.zero_le _)

/-- A text without the part stays as it is. -/
theorem replaceAll_absent (h : ¬ part <:+: xs) : replaceAll part new xs = xs := by
  induction xs with
  | nil => rfl
  | cons c xs ih =>
      have hno : part.isPrefixOf (c :: xs) = false := by
        rw [Bool.eq_false_iff]
        exact fun hpart => h (List.isPrefixOf_iff_prefix.1 hpart).isInfix
      rw [replaceAll, replaceGo, if_neg (by simp [hno])]
      exact congrArg (c :: ·) (ih fun hpart => h (List.infix_cons hpart))

/-- A part that occurs once is replaced in its place. -/
theorem replaceAll_once (hd : d ∉ part) (ha : ¬ d :: part <:+: a) (hb : ¬ d :: part <:+: b) :
    replaceAll (d :: part) new (a ++ (d :: part ++ b)) = a ++ (new ++ b) := by
  rw [List.cons_append, replaceAll_append (by simpa using hd), replaceAll_absent ha]
  have hrest : replaceGo (d :: part) new 0 b = b := replaceAll_absent hb
  have hpart : replaceGo (d :: part) new 0 (d :: (part ++ b)) = new ++ replaceGo (d :: part) new 0 b := replaceGo_part
  rw [replaceAll, hpart, hrest]

/-! ## What is found across a seam -/

/-- A part cannot be found across the seam of two texts. -/
def Parted (part xs ys : List Char) : Prop :=
  (∃ c ∈ xs.getLast?, c ∉ part) ∨ ∃ c ∈ ys.head?, c ∉ part.tail

/-- A part that is found across a seam at which it cannot be found stands on one side. -/
theorem cut_append_of_parted (hparted : Parted part xs ys) (h : xs ++ ys = u ++ (part ++ v)) :
    (∃ w, xs = u ++ (part ++ w) ∧ v = w ++ ys) ∨ ∃ w, u = xs ++ w ∧ ys = w ++ (part ++ v) := by
  rcases List.append_eq_append_iff.1 h with ⟨bs, rfl, rfl⟩ | ⟨bs, rfl, hmore⟩
  · exact Or.inr ⟨bs, rfl, rfl⟩
  · rcases List.append_eq_append_iff.1 hmore with ⟨cs, rfl, rfl⟩ | ⟨cs, rfl, rfl⟩
    · exact Or.inl ⟨cs, rfl, rfl⟩
    · cases bs with
      | nil => exact Or.inr ⟨[], by simp, by simp⟩
      | cons b bs =>
          cases cs with
          | nil => exact Or.inl ⟨[], by simp, by simp⟩
          | cons c cs =>
              rcases hparted with ⟨e, he, hne⟩ | ⟨e, he, hne⟩
              · rw [Option.mem_def, List.getLast?_append_of_ne_nil u (List.cons_ne_nil b bs)] at he
                exact absurd (List.mem_append_left _ (List.mem_of_getLast? he)) hne
              · rw [Option.mem_def, List.cons_append, List.head?_cons, Option.some_inj] at he
                subst he
                simp at hne

theorem infix_append_of_parted (hparted : Parted part xs ys) (h : part <:+: xs ++ ys) :
    part <:+: xs ∨ part <:+: ys := by
  obtain ⟨u, v, heq⟩ := h
  rw [List.append_assoc] at heq
  rcases cut_append_of_parted hparted heq.symm with ⟨w, rfl, -⟩ | ⟨w, -, rfl⟩
  · exact Or.inl ⟨u, w, by simp⟩
  · exact Or.inr ⟨w, v, by simp⟩

/-- A part with which a text begins after replacing was there before, if the replacement begins with another
character. -/
theorem cut_of_replaceGo_eq (hd : d ∉ part) {old : List Char} (h : replaceGo old (d :: new) 0 xs = part ++ v) :
    ∃ w, xs = part ++ w ∧ v = replaceGo old (d :: new) 0 w := by
  induction part generalizing xs with
  | nil => exact ⟨xs, rfl, h.symm⟩
  | cons e part ih =>
      rw [List.mem_cons, not_or] at hd
      cases xs with
      | nil => simp [replaceGo] at h
      | cons c xs =>
          rw [replaceGo] at h
          split at h
          · exact absurd (List.cons.inj h).1 hd.1
          · obtain ⟨rfl, hmore⟩ := List.cons.inj h
            obtain ⟨w, rfl, hv⟩ := ih hd.2 hmore
            exact ⟨w, rfl, hv⟩

/-- **A part that is found after replacing** was there before, or is a part of the replacement, if the
replacement is bracketed by characters that the part does not go on with. -/
theorem cut_replaceGo {old : List Char} {n : Nat} (hpart : part ≠ []) (hhead : d ∉ part.tail)
    (hlast : ∃ c ∈ (d :: new).getLast?, c ∉ part) (h : replaceGo old (d :: new) n xs = u ++ (part ++ v)) :
    (∃ a b w, d :: new = a ++ (part ++ b) ∧ v = b ++ w) ∨
      ∃ a w, xs = a ++ (part ++ w) ∧ v = replaceGo old (d :: new) 0 w := by
  induction xs generalizing n u with
  | nil =>
      have hnil : replaceGo old (d :: new) n [] = [] := by cases n <;> rfl
      rw [hnil] at h
      exact absurd (List.append_eq_nil_iff.1 (List.append_eq_nil_iff.1 h.symm).2).1 hpart
  | cons c xs ih =>
      cases n with
      | succ n =>
          refine (ih h).imp_right ?_
          rintro ⟨a, w, rfl, hv⟩
          exact ⟨c :: a, w, rfl, hv⟩
      | zero =>
          rw [replaceGo] at h
          split at h
          · rcases cut_append_of_parted (Or.inl hlast) h with ⟨w, hnew, hv⟩ | ⟨w, -, hrest⟩
            · exact Or.inl ⟨u, w, _, hnew, hv⟩
            · refine (ih hrest).imp_right ?_
              rintro ⟨a, w, rfl, hv⟩
              exact ⟨c :: a, w, rfl, hv⟩
          · cases u with
            | nil =>
                obtain ⟨e, part, rfl⟩ := List.exists_cons_of_ne_nil hpart
                obtain ⟨rfl, hmore⟩ := List.cons.inj h
                obtain ⟨w, rfl, hv⟩ := cut_of_replaceGo_eq hhead hmore
                exact Or.inr ⟨[], w, rfl, hv⟩
            | cons e u =>
                obtain ⟨rfl, hmore⟩ := List.cons.inj h
                refine (ih hmore).imp_right ?_
                rintro ⟨a, w, rfl, hv⟩
                exact ⟨c :: a, w, rfl, hv⟩

/-- Replacing brings no part into a text that the text and the replacement do not have. -/
theorem not_infix_replaceGo {old : List Char} {n : Nat} (hhead : d ∉ part.tail)
    (hlast : ∃ c ∈ (d :: new).getLast?, c ∉ part) (hnew : ¬ part <:+: d :: new) (hxs : ¬ part <:+: xs) :
    ¬ part <:+: replaceGo old (d :: new) n xs := by
  rintro ⟨u, v, h⟩
  have hpart : part ≠ [] := by
    rintro rfl
    exact hxs List.nil_infix
  rw [List.append_assoc] at h
  rcases cut_replaceGo hpart hhead hlast h.symm with ⟨a, b, -, heq, -⟩ | ⟨a, w, heq, -⟩
  · exact hnew ⟨a, b, by rw [heq, List.append_assoc]⟩
  · exact hxs ⟨a, w, by rw [heq, List.append_assoc]⟩

/-- A part with which a bracketed text begins is found in no other place around that text. -/
theorem eq_of_cut (hhead : c ∉ part.tail) (hlast : ∃ e ∈ g.getLast?, e ∉ part) (ha : ¬ part <:+: a)
    (hg : ¬ part <:+: g) (hb : ¬ part <:+: b) (h : a ++ (c :: g ++ b) = u ++ (part ++ v)) : u = a := by
  rcases List.append_eq_append_iff.1 h with ⟨bs, rfl, heq⟩ | ⟨bs, rfl, heq⟩
  · cases bs with
    | nil => rw [List.append_nil]
    | cons e bs =>
        obtain ⟨-, hmore⟩ := List.cons.inj heq
        have hinfix : part <:+: g ++ b := ⟨bs, v, by rw [List.append_assoc]; exact hmore.symm⟩
        exact ((infix_append_of_parted (Or.inl hlast) hinfix).elim hg hb).elim
  · cases bs with
    | nil => rw [List.append_nil]
    | cons e bs =>
        have hprefix : part.isPrefixOf (e :: (bs ++ c :: (g ++ b))) = true :=
          List.isPrefixOf_iff_prefix.2 ⟨v, heq⟩
        rw [isPrefixOf_append_cons hhead] at hprefix
        exact absurd ((List.isPrefixOf_iff_prefix.1 hprefix).isInfix.trans (List.suffix_append u _).isInfix) ha

end Text

namespace Regex

variable {text : List Char} {ts us more : List Token} {c d : Char}

/-! ## From texts to tokens -/

/-- The text that opens a group with a name. -/
def nameText (name : List Char) : List Char := '(' :: '?' :: 'P' :: '<' :: (name ++ ['>'])

theorem chars_nameMark (name : List Char) : (nameMark name).flatMap Token.chars = nameText name := by
  have hname : (name.map Token.plain).flatMap Token.chars = name := by
    induction name with
    | nil => rfl
    | cons c name ih => rw [List.map_cons, List.flatMap_cons, ih]; rfl
  simp only [nameMark, nameText, List.flatMap_cons, List.flatMap_append, hname]
  rfl

/-- A stray backslash is the last token. -/
theorem dangling_notMem_of_append {u : Token} (h : tokens text = ts ++ u :: us) : .dangling ∉ ts := by
  fun_induction tokens text generalizing ts with
  | case1 => simp at h
  | case2 c cs ih =>
      cases ts with
      | nil => simp
      | cons t ts =>
          obtain ⟨rfl, hmore⟩ := List.cons.inj h
          simpa using ih hmore
  | case3 =>
      cases ts with
      | nil => simp
      | cons t ts => simp at h
  | case4 c cs _ _ ih =>
      cases ts with
      | nil => simp
      | cons t ts =>
          obtain ⟨rfl, hmore⟩ := List.cons.inj h
          simpa using ih hmore

theorem backslash_notMem_tokens (text : List Char) : .plain '\\' ∉ tokens text := by
  fun_induction tokens text with
  | case1 => simp
  | case2 c cs ih => simpa using ih
  | case3 => simp
  | case4 c cs hpair hlone ih =>
      have hne : c ≠ '\\' := by
        rintro rfl
        cases cs with
        | nil => exact hlone rfl rfl
        | cons d cs => exact hpair d cs rfl rfl
      simpa [hne.symm] using ih

/-- Tokens are the tokens of what they spell. -/
theorem tokens_chars (hplain : .plain '\\' ∉ ts) (hstray : .dangling ∉ ts) :
    tokens (ts.flatMap Token.chars) = ts := by
  induction ts with
  | nil => rfl
  | cons t ts ih =>
      rw [List.mem_cons, not_or] at hplain hstray
      rw [List.flatMap_cons]
      cases t with
      | plain c =>
          have hne : c ≠ '\\' := by
            rintro rfl
            exact hplain.1 rfl
          rw [Token.chars, List.singleton_append, tokens_cons hne, ih hplain.2 hstray.2]
      | escaped c =>
          show tokens ('\\' :: c :: ts.flatMap Token.chars) = _
          rw [tokens, ih hplain.2 hstray.2]
      | dangling => exact absurd rfl hstray.1

/-- What stands in front of the place where a name is written. -/
theorem tokens_of_cut {name u : List Char} (hcut : ∀ a b, text = a ++ (nameText name ++ b) → a = u)
    (h : tokens text = ts ++ (nameMark name ++ more)) : tokens u = ts ∧ .dangling ∉ ts := by
  have hstray : .dangling ∉ ts := dangling_notMem_of_append h
  have hplain : .plain '\\' ∉ ts := fun hmem =>
    backslash_notMem_tokens text (h ▸ List.mem_append_left _ hmem)
  have htext : text = ts.flatMap Token.chars ++ (nameText name ++ more.flatMap Token.chars) := by
    rw [← chars_tokens text, h, List.flatMap_append, List.flatMap_append, chars_nameMark]
  rw [← hcut _ _ htext, tokens_chars hplain hstray]
  exact ⟨rfl, hstray⟩

theorem getLast?_tokens (hc : c ≠ '\\') (hd : d ≠ '\\') (xs : List Char) :
    (tokens (xs ++ [c, d])).getLast? = some (.plain d) := by
  have hend : tokens [c, d] = [.plain c, .plain d] := by rw [tokens_cons hc, tokens_cons hd]; rfl
  fun_induction tokens xs with
  | case1 => rw [List.nil_append, hend]; rfl
  | case2 e xs ih =>
      rw [List.cons_append, List.cons_append, tokens, List.getLast?_cons, ih]
      rfl
  | case3 =>
      show (tokens ('\\' :: c :: [d])).getLast? = _
      rw [tokens, tokens_cons hd]
      rfl
  | case4 e xs hpair hlone ih =>
      have hne : e ≠ '\\' := by
        rintro rfl
        cases xs with
        | nil => exact hlone rfl rfl
        | cons x xs => exact hpair x xs rfl rfl
      rw [List.cons_append, tokens_cons hne, List.getLast?_cons, ih]
      rfl

/-- **A text in which a word stands in the place of a named group can be read**, if the text with the
group can, the name is written nowhere else, and the pattern is steady when that group is missing. -/
theorem exists_parse_of_cut {name a g w b : List Char} {q : Pattern} {k : Nat}
    (hhole : ∀ B, Whole B → Hole name (tokens g) (tokens w) B) (hg : .dangling ∉ tokens g)
    (hw : .dangling ∉ tokens w) (hseam : Seam (tokens w) (tokens a))
    (hcut : ∀ u v, a ++ (g ++ b) = u ++ (nameText name ++ v) → u = a) (hparse : parse (a ++ (g ++ b)) = .ok q)
    (hname : q.names.lookup (String.ofList name) = some k)
    (hsteady : Steady k (numbersIn (tokens (a ++ (g ++ b)))) q.body) : ∃ q₂, parse (a ++ (w ++ b)) = .ok q₂ := by
  by_cases ha : .dangling ∈ tokens a
  · -- then the parenthesis of the group is escaped, and nothing has the name
    obtain ⟨-, out, st, hparses, -, rfl⟩ := parse_eq_ok.1 hparse
    have hplain : '\\' ∉ name := (hhole [] whole_nil).plain
    have hlost : Unnamed name { rest := tokens (a ++ (g ++ b)) } := by
      refine ⟨rfl, fun more hmore => ?_⟩
      obtain ⟨ts, hts⟩ := hmore
      obtain ⟨rfl, hstray⟩ := tokens_of_cut hcut hts.symm
      exact hstray ha
    cases (hparses.unnamed hplain hlost).absent.symm.trans hname
  · have htext : tokens (a ++ (g ++ b)) = tokens a ++ (tokens g ++ tokens b) := by
      rw [tokens_append ha, tokens_append hg]
    have htext₂ : tokens (a ++ (w ++ b)) = tokens a ++ (tokens w ++ tokens b) := by
      rw [tokens_append ha, tokens_append hw]
    have hb : .dangling ∉ tokens b := by
      have hstray := dangling_notMem_of_parse hparse
      rw [htext] at hstray
      exact fun hmem => hstray (List.mem_append_right _ (List.mem_append_right _ hmem))
    have hB : Whole (tokens b) := fun hhead => hb (List.mem_of_head? hhead)
    refine exists_parse_of_hole (hhole _ hB) htext htext₂ (Or.inr hseam) (fun more hmore => ?_) hparse hname hsteady
    obtain ⟨ts, hts⟩ := hmore
    obtain ⟨rfl, -⟩ := tokens_of_cut hcut (htext.trans hts.symm)
    exact List.append_cancel_left hts

end Regex

namespace Template

open Text Regex

variable {t : Template} {p : Pattern} {before after : List Char}

/-! ## Replaceable placeholders -/

/-- The placeholder `part`, which becomes the group `name`, may become something else: it occurs once, no
other group is written with its name, and the pattern refers neither to that group nor by number to a group
behind it, nor do its looks back have that group or recalls.  This is enough, but more than is needed. -/
structure Replaceable (t : Template) (p : Pattern) (part name : String) : Prop where
  once : Once part.toList t.source.toList
  own : ¬ nameText name.toList <:+: t.source.toList
  steady : ∃ k, p.names.lookup name = some k ∧
    Steady k (numbersIn (tokens (t.substituted keyCapture.toList refCapture.toList))) p.body

/-- The text in front of the group of a key, which stands in front of a key's word as well. -/
def keyGuard : List Char := "(?<![\\w$.:-])".toList

/-- The group of a key. -/
def keyGroup : List Char := "(?P<key>[\\w$](?:[\\w$.:-]*[\\w$])?)".toList

/-- A key's word, behind its guard. -/
def keyRest (key : List Char) : List Char := escape key ++ "(?![\\w$.-])".toList

theorem keyCapture_eq : keyCapture.toList = keyGuard ++ keyGroup := by decide

theorem keyWord_eq (key : List Char) : wholeWord key ".:-".toList ".-".toList = keyGuard ++ keyRest key :=
  wholeWord_key key

theorem tokens_keyRest (key : List Char) : tokens (keyRest key) = escapedTokens key ++ keyAfter := by
  have hkey : .dangling ∉ tokens (escape key) := by
    rw [tokens_escape]
    exact dangling_notMem_escapedTokens key
  rw [keyRest, tokens_append hkey, tokens_escape]
  rfl

/-- **What a template becomes whose key occurs once**, whatever the key becomes. -/
theorem substituted_key {key ref : List Char} (hsource : t.source.toList = before ++ (keyPlaceholder.toList ++ after))
    (hbefore : ¬ keyPlaceholder.toList <:+: before) (hafter : ¬ keyPlaceholder.toList <:+: after)
    (hhead : key.head? = some '(') (hkey : unmarked key = true) :
    t.substituted key ref = replaceAll refPlaceholder.toList ref before ++
      (key ++ replaceAll refPlaceholder.toList ref after) := by
  have hfirst : replaceAll keyPlaceholder.toList key t.source.toList = before ++ (key ++ after) := by
    rw [hsource]
    exact replaceAll_once (d := '$') (by decide) hbefore hafter
  have hmark : refPlaceholder.toList = '$' :: '\x7b' :: ['r', 'e', 'f', '\x7d'] := rfl
  obtain ⟨cs, rfl⟩ := List.head?_eq_some_iff.1 hhead
  rw [substituted, hfirst, List.cons_append, replaceAll_append (by decide)]
  congr 1
  rw [hmark, replaceAll, ← List.cons_append, replaceGo_unmarked hkey]
  rfl

/-- Replacing keys by groups brings no part into a text that goes on with no parenthesis. -/
theorem not_infix_replaceAll {part old new cs : List Char} (hhead : new.head? = some '(')
    (hlast : new.getLast? = some ')') (hopen : '(' ∉ part.tail) (hclose : ')' ∉ part) (hnew : ¬ part <:+: new)
    (hcs : ¬ part <:+: cs) : ¬ part <:+: replaceAll old new cs := by
  obtain ⟨rest, rfl⟩ := List.head?_eq_some_iff.1 hhead
  exact not_infix_replaceGo hopen ⟨')', hlast, hclose⟩ hnew hcs

/-- **What a template becomes whose reference occurs once**, whatever the reference becomes. -/
theorem substituted_ref {ref : List Char} (hsource : t.source.toList = before ++ (refPlaceholder.toList ++ after))
    (hbefore : ¬ refPlaceholder.toList <:+: before) (hafter : ¬ refPlaceholder.toList <:+: after) :
    t.substituted keyCapture.toList ref = replaceAll keyPlaceholder.toList keyCapture.toList before ++
      (ref ++ replaceAll keyPlaceholder.toList keyCapture.toList after) := by
  have hfirst : replaceAll keyPlaceholder.toList keyCapture.toList t.source.toList =
      replaceAll keyPlaceholder.toList keyCapture.toList before ++ (refPlaceholder.toList ++
        replaceAll keyPlaceholder.toList keyCapture.toList after) := by
    rw [hsource]
    show replaceAll _ _ (before ++ '$' :: _) = _
    rw [replaceAll_append (by decide)]
    rfl
  rw [substituted, hfirst]
  exact replaceAll_once (d := '$') (by decide)
    (not_infix_replaceAll rfl (by decide) (by decide) (by decide) (by decide) hbefore)
    (not_infix_replaceAll rfl (by decide) (by decide) (by decide) (by decide) hafter)

theorem compile_eq_ok {key ref : List Char} : t.compile key ref = .ok p ↔ parse (t.substituted key ref) = .ok p := by
  rw [compile]
  cases parse (t.substituted key ref) <;> simp

theorem not_infix_of_source {part mid : List Char} (hsource : t.source.toList = before ++ (mid ++ after))
    (h : ¬ part <:+: t.source.toList) : ¬ part <:+: before ∧ ¬ part <:+: after := by
  rw [hsource] at h
  constructor
  · exact fun hbefore => h (hbefore.trans (List.prefix_append _ _).isInfix)
  · exact fun hafter => h (hafter.trans ((List.suffix_append mid _).trans (List.suffix_append before _)).isInfix)

/-- **A replaceable key can become any key.** -/
theorem exists_forward (hp : t.compile keyCapture.toList refCapture.toList = .ok p)
    (h : t.Replaceable p keyPlaceholder "key") (key : List Char) : ∃ q, t.forward key = .ok q := by
  obtain ⟨before, after, hsource, hbefore, hafter⟩ := h.once
  obtain ⟨hownBefore, hownAfter⟩ := not_infix_of_source hsource h.own
  obtain ⟨k, hname, hsteady⟩ := h.steady
  have habsent : ∀ cs, ¬ nameText "key".toList <:+: cs →
      ¬ nameText "key".toList <:+: replaceAll refPlaceholder.toList refCapture.toList cs := fun cs hcs =>
    not_infix_replaceAll rfl (by decide) (by decide) (by decide) (by decide) hcs
  have hguarded : ¬ nameText "key".toList <:+:
      replaceAll refPlaceholder.toList refCapture.toList before ++ keyGuard := fun hinfix =>
    (infix_append_of_parted (Or.inr ⟨'(', by decide, by decide⟩) hinfix).elim (habsent _ hownBefore) (by decide)
  have hword : unmarked (keyGuard ++ keyRest key) = true :=
    unmarked_append (by decide) (unmarked_escape rfl (by decide))
  have hwordTokens : .dangling ∉ tokens (keyRest key) := by
    rw [tokens_keyRest, List.mem_append, not_or]
    exact ⟨dangling_notMem_escapedTokens key, by decide⟩
  have hseam : Seam (tokens (keyRest key))
      (tokens (replaceAll refPlaceholder.toList refCapture.toList before ++ keyGuard)) := by
    have hguard : keyGuard = "(?<![\\w$.:-".toList ++ [']', ')'] := by decide
    rw [hguard, ← List.append_assoc]
    exact Or.inl (getLast?_tokens (by decide) (by decide) _)
  have htext : t.substituted keyCapture.toList refCapture.toList = replaceAll refPlaceholder.toList refCapture.toList
      before ++ keyGuard ++ (keyGroup ++ replaceAll refPlaceholder.toList refCapture.toList after) := by
    rw [substituted_key hsource hbefore hafter rfl (by decide), keyCapture_eq, List.append_assoc, ← List.append_assoc]
  rw [htext] at hsteady
  rw [compile_eq_ok, htext] at hp
  obtain ⟨q, hq⟩ := exists_parse_of_cut (g := keyGroup) (w := keyRest key)
    (fun B hB => by rw [tokens_keyRest]; exact hole_key hB key) (by decide) hwordTokens hseam
    (fun u v => eq_of_cut (c := '(') (by decide) ⟨')', by decide, by decide⟩ hguarded (by decide)
      (habsent _ hownAfter)) hp hname hsteady
  refine ⟨q, compile_eq_ok.2 ?_⟩
  rw [keyWord_eq, substituted_key hsource hbefore hafter rfl hword, List.append_assoc, ← List.append_assoc]
  exact hq

/-- A symbol's word. -/
def symbolRest (symbol : List Char) : List Char := escape symbol ++ "(?![\\w$])".toList

theorem symbolWord_eq (symbol : List Char) :
    wholeWord symbol [] [] = "(?<![\\w$])".toList ++ symbolRest symbol := wholeWord_symbol symbol

theorem tokens_symbolWord (symbol : List Char) :
    tokens (wholeWord symbol [] []) = symbolBefore ++ (escapedTokens symbol ++ symbolAfter) := by
  have hsymbol : .dangling ∉ tokens (escape symbol) := by
    rw [tokens_escape]
    exact dangling_notMem_escapedTokens symbol
  rw [symbolWord_eq, tokens_append (by decide), symbolRest, tokens_append hsymbol, tokens_escape]
  rfl

/-- **A replaceable reference can become any symbol.** -/
theorem exists_reverse (hp : t.compile keyCapture.toList refCapture.toList = .ok p)
    (h : t.Replaceable p refPlaceholder "ref") (symbol : List Char) : ∃ q, t.reverse symbol = .ok q := by
  obtain ⟨before, after, hsource, hbefore, hafter⟩ := h.once
  obtain ⟨hownBefore, hownAfter⟩ := not_infix_of_source hsource h.own
  obtain ⟨k, hname, hsteady⟩ := h.steady
  have habsent : ∀ cs, ¬ nameText "ref".toList <:+: cs →
      ¬ nameText "ref".toList <:+: replaceAll keyPlaceholder.toList keyCapture.toList cs := fun cs hcs =>
    not_infix_replaceAll rfl (by decide) (by decide) (by decide) (by decide) hcs
  have hwordTokens : .dangling ∉ tokens (wholeWord symbol [] []) := by
    rw [tokens_symbolWord, List.mem_append, List.mem_append, not_or, not_or]
    exact ⟨by decide, dangling_notMem_escapedTokens symbol, by decide⟩
  rw [substituted_ref hsource hbefore hafter] at hsteady
  rw [compile_eq_ok, substituted_ref hsource hbefore hafter] at hp
  obtain ⟨q, hq⟩ := exists_parse_of_cut (g := refCapture.toList) (w := wholeWord symbol [] [])
    (fun B hB => by rw [tokens_symbolWord]; exact hole_ref hB symbol) (by decide) hwordTokens
    (Or.inr (by rw [tokens_symbolWord]; rfl))
    (fun u v => eq_of_cut (c := '(') (by decide) ⟨')', by decide, by decide⟩ (habsent _ hownBefore) (by decide)
      (habsent _ hownAfter)) hp hname hsteady
  refine ⟨q, compile_eq_ok.2 ?_⟩
  rw [substituted_ref hsource hbefore hafter]
  exact hq

/-- **A template that passes its check can be read for every key and symbol**, as far as its placeholders
are replaceable. -/
theorem exists_pattern_of_check (h : t.check = .ok ()) :
    ∃ p, t.compile keyCapture.toList refCapture.toList = .ok p ∧
      (t.Replaceable p keyPlaceholder "key" → ∀ key, ∃ q, t.forward key = .ok q) ∧
      (t.Replaceable p refPlaceholder "ref" → ∀ symbol, ∃ q, t.reverse symbol = .ok q) := by
  cases hp : t.compile keyCapture.toList refCapture.toList with
  | ok p => exact ⟨p, rfl, exists_forward hp, exists_reverse hp⟩
  | error fault =>
      simp only [check, hp] at h
      split at h
      · cases h
      split at h
      · cases h
      · cases h

/-- A template of arrows between keys and references. -/
def arrow : Template := { source := "$\x7bkey\x7d\\s*=>\\s*$\x7bref\x7d", kind := "arrow" }

theorem exists_pattern_arrow : arrow.check = .ok () ∧ (∀ key, ∃ q, arrow.forward key = .ok q) ∧
    ∀ symbol, ∃ q, arrow.reverse symbol = .ok q := by
  have hcheck : arrow.check = .ok () := by decide +kernel
  have hsteady : ((arrow.compile keyCapture.toList refCapture.toList).toOption.all fun p =>
      decide ((p.names.lookup "key" = some 1 ∧
          Steady 1 (numbersIn (tokens (arrow.substituted keyCapture.toList refCapture.toList))) p.body) ∧
        p.names.lookup "ref" = some 2 ∧
          Steady 2 (numbersIn (tokens (arrow.substituted keyCapture.toList refCapture.toList))) p.body)) = true := by
    decide +kernel
  obtain ⟨p, hp, hforward, hreverse⟩ := exists_pattern_of_check hcheck
  rw [hp] at hsteady
  obtain ⟨hkey, href⟩ := of_decide_eq_true hsteady
  exact ⟨hcheck,
    hforward ⟨⟨[], "\\s*=>\\s*$\x7bref\x7d".toList, by decide, by decide, by decide⟩, by decide, 1, hkey⟩,
    hreverse ⟨⟨"$\x7bkey\x7d\\s*=>\\s*".toList, [], by decide, by decide, by decide⟩, by decide, 2, href⟩⟩

/-- A quote in front of the reference may be recalled behind it by its name, but not by its number. -/
example :
    let steady := fun source : String =>
      let text := ({ source, kind := "quoted" } : Template).substituted keyCapture.toList refCapture.toList
      (parse text).toOption.any fun p => decide (Steady 1 (numbersIn (tokens text)) p.body)
    steady "$\x7bkey\x7d\\s*:\\s*(?P<quote>[\"~])$\x7bref\x7d(?P=quote)" = true ∧
      steady "$\x7bkey\x7d\\s*:\\s*([\"~])$\x7bref\x7d\\2" = false := by
  decide +kernel

/-- A template that repeats its key in front of the reference. -/
def recalledKey : Template := { source := "$\x7bkey\x7d\\s*=\\s*(?P=key)\\($\x7bref\x7d\\)", kind := "function" }

/-- **Not every template that passes its check can be read for every key**: when the key is given, its group
is gone, and nothing can refer to it. -/
theorem recalledKey_unreadable : recalledKey.check = .ok () ∧ recalledKey.forward "a".toList =
    .error (.unreadable (recalledKey.substituted (wholeWord "a".toList ".:-".toList ".-".toList) refCapture.toList)
      ⟨.unknownGroupName "key", some 36⟩) := by
  decide +kernel

end Template

end ServiceKeys
