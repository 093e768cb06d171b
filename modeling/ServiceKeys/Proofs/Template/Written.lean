import ServiceKeys.Proofs.Regex.Reading
import ServiceKeys.Proofs.Text.CharClass
import ServiceKeys.Template.Basic

/-!
# The written patterns of templates

A template is a written pattern whose placeholders are replaced by text before it is read.  This
module follows a wrapped template through both steps, up to the patterns that come out:
`forward_wrapped` for a key, `reverse_wrapped` for a symbol.

A placeholder begins with a dollar sign and a brace.  Texts without such a mark are passed over when
placeholders are replaced, and no escaped text has one: the brace itself is escaped.
-/

namespace ServiceKeys

namespace Text

/-! ## Replacing placeholders -/

/-- No dollar sign in a text has a brace behind it, nor could it get one from what follows. -/
def unmarked : List Char → Bool
  | [] => true
  | '$' :: cs => cs.head?.any (· != '\x7b') && unmarked cs
  | _ :: cs => unmarked cs

theorem unmarked_cons {c : Char} {cs : List Char} :
    unmarked (c :: cs) = true ↔ (c = '$' → cs.head?.any (· != '\x7b') = true) ∧ unmarked cs = true := by
  by_cases hc : c = '$'
  · subst hc
    simp [unmarked]
  · simp [unmarked, hc]

theorem unmarked_append {xs ys : List Char} (hx : unmarked xs = true) (hy : unmarked ys = true) :
    unmarked (xs ++ ys) = true := by
  induction xs with
  | nil => exact hy
  | cons c xs ih =>
      obtain ⟨hc, hxs⟩ := unmarked_cons.1 hx
      refine unmarked_cons.2 ⟨?_, ih hxs⟩
      intro h
      cases xs with
      | nil => simp at hc; exact absurd h hc
      | cons d xs => exact hc h

/-- Texts without marks are passed over. -/
theorem replaceGo_unmarked {part new xs rest : List Char} (h : unmarked xs = true) :
    replaceGo ('$' :: '\x7b' :: part) new 0 (xs ++ rest) =
      xs ++ replaceGo ('$' :: '\x7b' :: part) new 0 rest := by
  induction xs with
  | nil => rfl
  | cons c xs ih =>
      obtain ⟨hc, hxs⟩ := unmarked_cons.1 h
      have hno : ('$' :: '\x7b' :: part).isPrefixOf (c :: (xs ++ rest)) = false := by
        by_cases hd : c = '$'
        · cases xs with
          | nil => simp at hc; exact absurd hd hc
          | cons d xs =>
              have hne : d ≠ '\x7b' := by simpa using hc hd
              simp [List.isPrefixOf, hne.symm]
        · simp [List.isPrefixOf, Ne.symm hd]
      rw [List.cons_append, replaceGo, hno, ih hxs]
      simp

theorem replaceGo_skip {part new xs rest : List Char} :
    replaceGo part new xs.length (xs ++ rest) = replaceGo part new 0 rest := by
  induction xs with
  | nil => rfl
  | cons c xs ih => rw [List.length_cons, List.cons_append, replaceGo, ih]

/-- A part that comes next is replaced. -/
theorem replaceGo_part {c : Char} {part new rest : List Char} :
    replaceGo (c :: part) new 0 (c :: part ++ rest) =
      new ++ replaceGo (c :: part) new 0 rest := by
  have hyes : (c :: part).isPrefixOf (c :: (part ++ rest)) = true :=
    List.isPrefixOf_iff_prefix.2 ⟨rest, rfl⟩
  rw [List.cons_append, replaceGo, hyes, if_pos rfl, List.length_cons, Nat.add_sub_cancel,
    replaceGo_skip]

/-- An escaped text does not begin with a special character other than the backslash. -/
theorem head?_escape_append {d : Char} (hd : Regex.isSpecial d = true) (hne : d ≠ '\\') (cs : List Char)
    {rest : List Char} (h : rest.head?.any (· != d) = true) :
    (Regex.escape cs ++ rest).head?.any (· != d) = true := by
  cases cs with
  | nil => exact h
  | cons c cs =>
      by_cases hc : Regex.isSpecial c = true
      · simp [Regex.escape, hc, hne.symm]
      · have hcd : c ≠ d := by
          rintro rfl
          exact hc hd
        simp [Regex.escape, hc, hcd]

/-- An escaped text has no marks. -/
theorem unmarked_escape {cs rest : List Char} (hhead : rest.head? = some '(')
    (h : unmarked rest = true) : unmarked (Regex.escape cs ++ rest) = true := by
  induction cs with
  | nil => exact h
  | cons c cs ih =>
      have hbrace : rest.head?.any (· != '\x7b') = true := by simp [hhead]
      have hnext := head?_escape_append (by decide) (by decide) cs hbrace
      have hcons : Regex.escape (c :: cs) =
          (if Regex.isSpecial c then ['\\', c] else [c]) ++ Regex.escape cs := rfl
      rw [hcons]
      split
      · simp only [List.cons_append, List.nil_append]
        exact unmarked_cons.2 ⟨by simp, unmarked_cons.2 ⟨fun _ => hnext, ih⟩⟩
      · exact unmarked_cons.2 ⟨fun _ => hnext, ih⟩

end Text

namespace Template

open Text Regex

/-! ## The written pattern of a wrapped template -/

/-- **What a wrapped template becomes**: its placeholders replaced by texts without marks. -/
theorem substituted_wrapped {wrapper kind : String} {key ref : List Char}
    (hwrapper : unmarked wrapper.toList = true) (hkey : unmarked key = true) :
    (wrapped wrapper kind).substituted key ref =
      "['\"]?".toList ++ (key ++ ("['\"]?\\s*:\\s*".toList ++ (wrapper.toList ++
        ("\\(\\s*".toList ++ (ref ++ "\\s*\\)".toList))))) := by
  have hkeyMark : keyPlaceholder.toList = '$' :: '\x7b' :: ['k', 'e', 'y', '\x7d'] := rfl
  have hrefMark : refPlaceholder.toList = '$' :: '\x7b' :: ['r', 'e', 'f', '\x7d'] := rfl
  have hsource : (wrapped wrapper kind).source.toList =
      "['\"]?".toList ++ (keyPlaceholder.toList ++ (("['\"]?\\s*:\\s*".toList ++ (wrapper.toList ++
        "\\(\\s*".toList)) ++ (refPlaceholder.toList ++ "\\s*\\)".toList))) := by
    simp only [wrapped, String.toList_append, List.append_assoc]
  have hmiddle : unmarked ("['\"]?\\s*:\\s*".toList ++ (wrapper.toList ++ "\\(\\s*".toList)) = true :=
    unmarked_append (by decide) (unmarked_append hwrapper (by decide))
  -- the key's placeholder goes first; behind it, only the reference's one is a mark
  have hfirst : replaceAll keyPlaceholder.toList key (wrapped wrapper kind).source.toList =
      ("['\"]?".toList ++ (key ++ ("['\"]?\\s*:\\s*".toList ++ (wrapper.toList ++
        "\\(\\s*".toList)))) ++ (refPlaceholder.toList ++ "\\s*\\)".toList) := by
    rw [hsource, replaceAll, hkeyMark, replaceGo_unmarked (by decide), replaceGo_part,
      replaceGo_unmarked hmiddle]
    simp only [List.append_assoc]
    rfl
  have hleft : unmarked ("['\"]?".toList ++ (key ++ ("['\"]?\\s*:\\s*".toList ++ (wrapper.toList ++
      "\\(\\s*".toList)))) = true :=
    unmarked_append (by decide) (unmarked_append hkey hmiddle)
  rw [substituted, hfirst, replaceAll, hrefMark, replaceGo_unmarked hleft, replaceGo_part]
  simp only [List.append_assoc]
  rfl

end Template

namespace Regex

open Text

/-! ## Tokens -/

theorem tokens_cons {c : Char} {cs : List Char} (h : c ≠ '\\') :
    tokens (c :: cs) = .plain c :: tokens cs := by
  rw [tokens]
  · exact fun _ _ hc _ => h hc
  · exact fun hc _ => h hc

theorem tokens_append {xs ys : List Char} (h : .dangling ∉ tokens xs) :
    tokens (xs ++ ys) = tokens xs ++ tokens ys := by
  fun_induction tokens xs with
  | case1 => rfl
  | case2 c cs ih =>
      simp only [List.mem_cons, not_or] at h
      rw [List.cons_append, List.cons_append, tokens, ih h.2, List.cons_append]
  | case3 => simp at h
  | case4 c cs hc hcs ih =>
      simp only [List.mem_cons, not_or] at h
      have hne : c ≠ '\\' := by
        rintro rfl
        cases cs with
        | nil => exact hcs rfl rfl
        | cons d cs => exact hc d cs rfl rfl
      rw [List.cons_append, tokens_cons hne, ih h.2, List.cons_append]

/-- The tokens of an escaped text. -/
def escapedTokens (cs : List Char) : List Token :=
  cs.map fun c => if isSpecial c then .escaped c else .plain c

theorem tokens_escape (cs : List Char) : tokens (escape cs) = escapedTokens cs := by
  induction cs with
  | nil => rfl
  | cons c cs ih =>
      have hcons : escape (c :: cs) = (if isSpecial c then ['\\', c] else [c]) ++ escape cs := rfl
      have htokens : escapedTokens (c :: cs) =
          (if isSpecial c then .escaped c else .plain c) :: escapedTokens cs := rfl
      rw [hcons, htokens]
      by_cases hc : isSpecial c = true
      · rw [if_pos hc, if_pos hc, List.cons_append, List.cons_append, List.nil_append, tokens, ih]
      · have hne : c ≠ '\\' := by
          rintro rfl
          exact hc (by decide)
        rw [if_neg hc, if_neg hc, List.singleton_append, tokens_cons hne, ih]

theorem whole_append {xs ys : List Token} (hx : .dangling ∉ xs) (hy : Whole ys) :
    Whole (xs ++ ys) := by
  cases xs with
  | nil => exact hy
  | cons t xs =>
      simp only [List.mem_cons, not_or] at hx
      simpa [Whole, eq_comm] using hx.1

theorem dangling_notMem_escapedTokens (cs : List Char) : .dangling ∉ escapedTokens cs := by
  intro h
  obtain ⟨c, -, hc⟩ := List.mem_map.1 h
  split at hc <;> simp at hc

section Rules

variable {scope : Scope} {st : Progress} {ts : List Token} {items : List Item}

/-- **An escaped text stands for itself.** -/
theorem reads_escapedTokens (hscope : Ordinary scope) (hts : Whole ts) (cs : List Char) :
    Reads scope st (escapedTokens cs ++ ts) items st ts
      ((cs.map fun c => codeItem {} c.toNat).reverse ++ items) := by
  induction cs generalizing items with
  | nil => exact .refl
  | cons c cs ih =>
      have hwhole := whole_append (dangling_notMem_escapedTokens cs) hts
      have hfirst : Reads scope st (escapedTokens (c :: cs) ++ ts) items st (escapedTokens cs ++ ts)
          (codeItem {} c.toNat :: items) := by
        show Reads scope st ((if isSpecial c then .escaped c else .plain c) ::
          (escapedTokens cs ++ ts)) items st _ _
        split
        · rename_i hc
          exact reads_escaped hscope hwhole (escapeItem_special hc)
        · rename_i hc
          refine reads_char hscope (fun hop => hc ?_) hwhole
          have hall : ∀ d ∈ operators, isSpecial d = true := by decide
          exact hall c hop
      rw [List.map_cons, List.reverse_cons, List.append_assoc]
      exact hfirst.trans ih

/-! ## The parts of a wrapped template -/

/-- What comes next neither is a stray backslash nor changes a repetition. -/
def Calm (ts : List Token) : Prop := Whole ts ∧ Settled ts

theorem calm_plain {c : Char} (hq : c ≠ '?') (hp : c ≠ '+') (ts : List Token) :
    Calm (.plain c :: ts) := ⟨whole_plain _ _, by simpa using hq, by simpa using hp⟩

theorem calm_escaped (c : Char) (ts : List Token) : Calm (.escaped c :: ts) :=
  ⟨whole_escaped _ _, by simp, by simp⟩

theorem calm_nil : Calm [] := ⟨whole_nil, by simp, by simp⟩

theorem calm_escapedTokens (cs : List Char) (hts : Calm ts) : Calm (escapedTokens cs ++ ts) := by
  cases cs with
  | nil => exact hts
  | cons c cs =>
      show Calm ((if isSpecial c then .escaped c else .plain c) :: _)
      split
      · exact calm_escaped _ _
      · rename_i hc
        refine calm_plain ?_ ?_ _
        · rintro rfl
          exact hc (by decide)
        · rintro rfl
          exact hc (by decide)

theorem calm_group {cs : List Char} (h : cs.head? = some '(') (ts : List Token) :
    Calm (tokens cs ++ ts) := by
  obtain ⟨cs, rfl⟩ : ∃ rest, cs = '(' :: rest := by
    cases cs with
    | nil => simp at h
    | cons c cs => exact ⟨cs, by rw [List.head?_cons, Option.some_inj] at h; rw [h]⟩
  rw [tokens_cons (by decide), List.cons_append]
  exact calm_plain (by decide) (by decide) _

/-- Some tokens are read as some items, whatever calm tokens follow. -/
def ReadsAs (scope : Scope) (st : Progress) (xs : List Token) (st' : Progress)
    (pieces : List Item) : Prop :=
  ∀ ts items, Calm ts → Reads scope st (xs ++ ts) items st' ts (pieces.reverse ++ items)

theorem ReadsAs.append {st' st'' : Progress} {xs ys : List Token} {pieces pieces' : List Item}
    (hx : ReadsAs scope st xs st' pieces) (hy : ReadsAs scope st' ys st'' pieces')
    (hcalm : ∀ ts, Calm ts → Calm (ys ++ ts)) :
    ReadsAs scope st (xs ++ ys) st'' (pieces ++ pieces') := by
  intro ts items hts
  rw [List.append_assoc, List.reverse_append, List.append_assoc]
  exact (hx _ items (hcalm ts hts)).trans (hy ts _ hts)

theorem readsAs_escapedTokens (hscope : Ordinary scope) (cs : List Char) :
    ReadsAs scope st (escapedTokens cs) st (cs.map fun c => codeItem {} c.toNat) :=
  fun _ _ hts => reads_escapedTokens hscope hts.1 cs

/-- A quote or nothing. -/
def quoteMark : Regex := .span (.oneOf ['\x27', '"']) 0 (some 1) .greedy

theorem readsAs_quoteMark (hscope : Ordinary scope) :
    ReadsAs scope st (tokens "['\"]?".toList) st [⟨quoteMark, .repeated⟩] := by
  intro ts items hts
  show Reads scope st (.plain '[' :: .plain '\x27' :: .plain '"' :: .plain ']' :: .plain '?' :: ts)
    items st ts (⟨quoteMark, .repeated⟩ :: items)
  have hset : ReadsSet (.plain '\x27' :: .plain '"' :: .plain ']' :: .plain '?' :: ts) []
      (.plain '?' :: ts) [.char '\x27', .char '"'] :=
    readsSet_atom (by simp) (whole_plain _ _) (fun _ => rfl) (by simp)
      (readsSet_atom (by simp) (whole_plain _ _) (fun _ => rfl) (by simp)
        (readsSet_close (by simp) (whole_plain _ _)))
  exact (reads_set hscope (whole_plain _ _) (by simp) hset).trans
    (reads_repeat hscope .maybe hts.1 hts.2)

theorem readsAs_blanks (hscope : Ordinary scope) :
    ReadsAs scope st (tokens "\\s*".toList) st [⟨blanks, .repeated⟩] := by
  intro ts items hts
  show Reads scope st (.escaped 's' :: .plain '*' :: ts) items st ts (⟨blanks, .repeated⟩ :: items)
  exact (reads_escaped hscope (whole_plain _ _) escapeItem_blank).trans
    (reads_repeat hscope .many hts.1 hts.2)

/-! ## Sets of name and key characters -/

/-- The characters of names. -/
def nameChars : CharSet := .wordOr ['$']

/-- The characters of keys. -/
def keyChars : CharSet := .wordOr ('$' :: keySeparators)

/-- The characters with which a key goes on behind its end; a colon may stand there. -/
def keyTailChars : CharSet := .wordOr ['$', '.', '-']

theorem readsSet_nameChars (hts : Whole ts) :
    ReadsSet (.escaped 'w' :: .plain '$' :: .plain ']' :: ts) [] ts nameChars.items :=
  readsSet_atom (by simp) (whole_plain _ _) (fun _ => rfl) (by simp)
    (readsSet_atom (by simp) (whole_plain _ _) (fun _ => rfl) (by simp)
      (readsSet_close (by simp) hts))

theorem readsSet_keyChars (hts : Whole ts) :
    ReadsSet (.escaped 'w' :: .plain '$' :: .plain '.' :: .plain ':' :: .plain '-' ::
      .plain ']' :: ts) [] ts keyChars.items :=
  readsSet_atom (by simp) (whole_plain _ _) (fun _ => rfl) (by simp)
    (readsSet_atom (by simp) (whole_plain _ _) (fun _ => rfl) (by simp)
      (readsSet_atom (by simp) (whole_plain _ _) (fun _ => rfl) (by simp)
        (readsSet_hyphen (by simp) hts
          (fun _ => rfl : ∀ st, setAtom (.plain ':') st = .ok (.code 58, st)))))

theorem readsSet_keyTailChars (hts : Whole ts) :
    ReadsSet (.escaped 'w' :: .plain '$' :: .plain '.' :: .plain '-' :: .plain ']' :: ts) [] ts
      keyTailChars.items :=
  readsSet_atom (by simp) (whole_plain _ _) (fun _ => rfl) (by simp)
    (readsSet_atom (by simp) (whole_plain _ _) (fun _ => rfl) (by simp)
      (readsSet_hyphen (by simp) hts
        (fun _ => rfl : ∀ st, setAtom (.plain '.') st = .ok (.code 46, st))))

theorem reads_nameChars (hscope : Ordinary scope) (hts : Whole ts) :
    Reads scope st (.plain '[' :: .escaped 'w' :: .plain '$' :: .plain ']' :: ts) items st ts
      (⟨.one nameChars, .other⟩ :: items) :=
  reads_set hscope (whole_escaped _ _) (by simp) (readsSet_nameChars hts)

theorem reads_keyChars (hscope : Ordinary scope) (hts : Whole ts) :
    Reads scope st (.plain '[' :: .escaped 'w' :: .plain '$' :: .plain '.' :: .plain ':' ::
      .plain '-' :: .plain ']' :: ts) items st ts (⟨.one keyChars, .other⟩ :: items) :=
  reads_set hscope (whole_escaped _ _) (by simp) (readsSet_keyChars hts)

/-! ## Whole words -/

/-- A key, not as a part of a longer one. -/
def keyWord (key : List Char) : List Regex :=
  notAfter keyChars :: (key.map .char ++ [notBefore keyTailChars])

/-- A symbol, not as a part of a longer name. -/
def symbolWord (symbol : List Char) : List Regex :=
  notAfter nameChars :: (symbol.map .char ++ [notBefore nameChars])

theorem readsAs_notAfter_keyChars (hscope : Ordinary scope) :
    ReadsAs scope st (tokens "(?<![\\w$.:-])".toList) st [⟨notAfter keyChars, .other⟩] :=
  fun _ _ hts => reads_notAfter hscope (whole_plain _ _) hts.1 fun _ =>
    reads_keyChars ordinary_inner (whole_plain _ _)

theorem readsAs_notBefore_keyTailChars (hscope : Ordinary scope) :
    ReadsAs scope st (tokens "(?![\\w$.-])".toList) st [⟨notBefore keyTailChars, .other⟩] :=
  fun _ _ hts => reads_notBefore hscope (whole_plain _ _) hts.1
    (reads_set ordinary_inner (whole_escaped _ _) (by simp)
      (readsSet_keyTailChars (whole_plain _ _)))

theorem readsAs_notAfter_nameChars (hscope : Ordinary scope) :
    ReadsAs scope st (tokens "(?<![\\w$])".toList) st [⟨notAfter nameChars, .other⟩] :=
  fun _ _ hts => reads_notAfter hscope (whole_plain _ _) hts.1 fun _ =>
    reads_nameChars ordinary_inner (whole_plain _ _)

theorem readsAs_notBefore_nameChars (hscope : Ordinary scope) :
    ReadsAs scope st (tokens "(?![\\w$])".toList) st [⟨notBefore nameChars, .other⟩] :=
  fun _ _ hts => reads_notBefore hscope (whole_plain _ _) hts.1
    (reads_nameChars ordinary_inner (whole_plain _ _))

/-- **A text as a whole word** is read between what may not stand around it. -/
theorem readsAs_word {pre post : List Char} {before after : Item} (hscope : Ordinary scope)
    (hpre : .dangling ∉ tokens pre) (hpost : ∀ ts, Calm (tokens post ++ ts))
    (hbefore : ReadsAs scope st (tokens pre) st [before])
    (hafter : ReadsAs scope st (tokens post) st [after]) (cs : List Char) :
    ReadsAs scope st (tokens (pre ++ (escape cs ++ post))) st
      (before :: (cs.map (fun c => codeItem {} c.toNat) ++ [after])) := by
  have hcs : .dangling ∉ tokens (escape cs) := by
    rw [tokens_escape]
    exact dangling_notMem_escapedTokens cs
  rw [tokens_append hpre, tokens_append hcs, tokens_escape]
  apply hbefore.append ((readsAs_escapedTokens hscope cs).append hafter fun ts _ => hpost ts)
  intro ts hts
  rw [List.append_assoc]
  exact calm_escapedTokens cs (hpost ts)

theorem dangling_notMem_word {pre cs post : List Char} (hpre : .dangling ∉ tokens pre)
    (hpost : .dangling ∉ tokens post) : .dangling ∉ tokens (pre ++ (escape cs ++ post)) := by
  have hcs : .dangling ∉ tokens (escape cs) := by
    rw [tokens_escape]
    exact dangling_notMem_escapedTokens cs
  rw [tokens_append hpre, tokens_append hcs, List.mem_append, List.mem_append, not_or, not_or]
  exact ⟨hpre, hcs, hpost⟩

/-! ## Captures -/

/-- What the group of a key holds: a key from its first to its last name character. -/
def keyBody : Regex :=
  ofList [.one nameChars, maybe (ofList [.span keyChars 0 none .greedy, .one nameChars])]

/-- The characters with which a reference starts. -/
def refStart : CharSet := ⟨[.range 65 90, .range 97 122, .char '_', .char '$'], false, .exact⟩

/-- What the group of a reference holds: an identifier, and more up to a parenthesis, a comma or the
end of the line. -/
def refBody : Regex :=
  ofList [.one refStart, .span nameChars 0 none .greedy,
    .span (.noneOf [')', '\n', ',']) 0 none .reluctant]

/-- The state behind a named group. -/
def Progress.behind (st : Progress) (name : List Char) (r : Regex) : Progress :=
  (st.named name).closed st.nextGroup r

theorem readsAs_keyGroup (hscope : Ordinary scope) (hnew : st.names.lookup "key" = none) :
    ReadsAs scope st (tokens "(?P<key>[\\w$](?:[\\w$.:-]*[\\w$])?)".toList)
      (st.behind ['k', 'e', 'y'] keyBody) [⟨.group st.nextGroup keyBody, .other⟩] := by
  intro ts items hts
  have hmore : Reads { flags := {} } (st.named ['k', 'e', 'y'])
      (.plain '[' :: .escaped 'w' :: .plain '$' :: .plain '.' :: .plain ':' :: .plain '-' ::
        .plain ']' :: .plain '*' :: .plain '[' :: .escaped 'w' :: .plain '$' :: .plain ']' ::
        .plain ')' :: .plain '?' :: .plain ')' :: ts) [] (st.named ['k', 'e', 'y'])
      (.plain ')' :: .plain '?' :: .plain ')' :: ts)
      [⟨.one nameChars, .other⟩, ⟨.span keyChars 0 none .greedy, .repeated⟩] :=
    ((reads_keyChars ordinary_inner (whole_plain _ _)).trans
      (reads_repeat ordinary_inner .many (whole_plain _ _)
        (calm_plain (by simp) (by simp) _).2)).trans
      (reads_nameChars ordinary_inner (whole_plain _ _))
  have hloop : Reads { flags := {} } (st.named ['k', 'e', 'y']) (.plain '?' :: .plain ')' :: ts)
      [⟨ofList [.span keyChars 0 none .greedy, .one nameChars], .other⟩, ⟨.one nameChars, .other⟩]
      (st.named ['k', 'e', 'y']) (.plain ')' :: ts) _ :=
    reads_repeat ordinary_inner .maybe (whole_plain _ _) (calm_plain (by simp) (by simp) _).2
  have hinside := ((reads_nameChars ordinary_inner (whole_plain _ _)).trans
    (reads_plainGroup ordinary_inner (whole_plain _ _) (whole_plain _ _) hmore)).trans hloop
  exact reads_named ['k', 'e', 'y'] hscope (by simp) (by decide) hnew (whole_plain _ _) hts.1 hinside

theorem readsSet_refStart (hts : Whole ts) :
    ReadsSet (.plain 'A' :: .plain '-' :: .plain 'Z' :: .plain 'a' :: .plain '-' :: .plain 'z' ::
      .plain '_' :: .plain '$' :: .plain ']' :: ts) [] ts refStart.items :=
  readsSet_range (by simp) (by simp) (by decide) (whole_plain _ _)
    (readsSet_range (by simp) (by simp) (by decide) (whole_plain _ _)
      (readsSet_atom (by simp) (whole_plain _ _) (fun _ => rfl) (by simp)
        (readsSet_atom (by simp) (whole_plain _ _) (fun _ => rfl) (by simp)
          (readsSet_close (by simp) hts))))

theorem readsSet_refMore (hts : Whole ts) :
    ReadsSet (.plain ')' :: .escaped 'n' :: .plain ',' :: .plain ']' :: ts) [] ts
      (CharSet.noneOf [')', '\n', ',']).items :=
  readsSet_atom (by simp) (whole_escaped _ _) (fun _ => rfl) (by simp)
    (readsSet_atom (by simp) (whole_plain _ _) (fun _ => rfl) (by simp)
      (readsSet_atom (by simp) (whole_plain _ _) (fun _ => rfl) (by simp)
        (readsSet_close (by simp) hts)))

theorem readsAs_refGroup (hscope : Ordinary scope) (hnew : st.names.lookup "ref" = none) :
    ReadsAs scope st (tokens "(?P<ref>[A-Za-z_$][\\w$]*(?:[^)\\n,]*?))".toList)
      (st.behind ['r', 'e', 'f'] refBody) [⟨.group st.nextGroup refBody, .other⟩] := by
  intro ts items hts
  have hmore : Reads { flags := {} } (st.named ['r', 'e', 'f'])
      (.plain '[' :: .plain '^' :: .plain ')' :: .escaped 'n' :: .plain ',' :: .plain ']' ::
        .plain '*' :: .plain '?' :: .plain ')' :: .plain ')' :: ts) [] (st.named ['r', 'e', 'f'])
      (.plain ')' :: .plain ')' :: ts)
      [⟨.span (.noneOf [')', '\n', ',']) 0 none .reluctant, .repeated⟩] :=
    (reads_setNot ordinary_inner (whole_plain _ _) (readsSet_refMore (whole_plain _ _))).trans
      (reads_repeatReluctant ordinary_inner .many (whole_plain _ _))
  have hname : Reads { flags := {} } (st.named ['r', 'e', 'f'])
      (.plain '[' :: .plain 'A' :: .plain '-' :: .plain 'Z' :: .plain 'a' :: .plain '-' ::
        .plain 'z' :: .plain '_' :: .plain '$' :: .plain ']' :: .plain '[' :: .escaped 'w' ::
        .plain '$' :: .plain ']' :: .plain '*' :: .plain '(' :: .plain '?' :: .plain ':' ::
        .plain '[' :: .plain '^' :: .plain ')' :: .escaped 'n' :: .plain ',' :: .plain ']' ::
        .plain '*' :: .plain '?' :: .plain ')' :: .plain ')' :: ts) []
      (st.named ['r', 'e', 'f']) _
      [⟨.span nameChars 0 none .greedy, .repeated⟩, ⟨.one refStart, .other⟩] :=
    ((reads_set ordinary_inner (whole_plain _ _) (by simp)
      (readsSet_refStart (whole_plain _ _))).trans
        (reads_nameChars ordinary_inner (whole_plain _ _))).trans
      (reads_repeat ordinary_inner .many (whole_plain _ _) (calm_plain (by simp) (by simp) _).2)
  have hinside := hname.trans
    (reads_plainGroup ordinary_inner (whole_plain _ _) (whole_plain _ _) hmore)
  exact reads_named ['r', 'e', 'f'] hscope (by simp) (by decide) hnew (whole_plain _ _) hts.1 hinside

end Rules

/-! ## Whole templates -/

/-- The pattern of a wrapped template: a key, a colon and a wrapped reference. -/
def wrappedBody (wrapper : List Char) (key ref : List Regex) : Regex :=
  ofList (quoteMark :: (key ++ (quoteMark :: blanks :: .char ':' :: blanks :: (wrapper.map .char ++
    (.char '(' :: blanks :: (ref ++ [blanks, .char ')']))))))

theorem escape_eq_self {cs : List Char} (h : ∀ c ∈ cs, isSpecial c = false) : escape cs = cs := by
  induction cs with
  | nil => rfl
  | cons c cs ih =>
      obtain ⟨hc, hcs⟩ := List.forall_mem_cons.1 h
      show (if isSpecial c then ['\\', c] else [c]) ++ escape cs = c :: cs
      rw [hc, ih hcs]
      rfl

section Wrapped

variable {scope : Scope} {st st' : Progress}

theorem readsAs_colon (hscope : Ordinary scope) :
    ReadsAs scope st (tokens "['\"]?\\s*:\\s*".toList) st
      [⟨quoteMark, .repeated⟩, ⟨blanks, .repeated⟩, codeItem {} 58, ⟨blanks, .repeated⟩] :=
  (readsAs_quoteMark hscope).append
    ((readsAs_blanks hscope).append
      ((readsAs_escapedTokens hscope [':']).append (readsAs_blanks hscope)
        fun _ _ => calm_escaped _ _)
      fun _ _ => calm_plain (by decide) (by decide) _)
    fun _ _ => calm_escaped _ _

theorem readsAs_open (hscope : Ordinary scope) :
    ReadsAs scope st (tokens "\\(\\s*".toList) st [codeItem {} 40, ⟨blanks, .repeated⟩] :=
  (readsAs_escapedTokens hscope ['(']).append (readsAs_blanks hscope) fun _ _ => calm_escaped _ _

theorem readsAs_close (hscope : Ordinary scope) :
    ReadsAs scope st (tokens "\\s*\\)".toList) st [⟨blanks, .repeated⟩, codeItem {} 41] :=
  (readsAs_blanks hscope).append (readsAs_escapedTokens hscope [')']) fun _ _ => calm_escaped _ _

/-- A text whose tokens are read as some items is the pattern of these items. -/
theorem parse_of_readsAs {text : List Char} {pieces : List Item} (hwhole : Whole (tokens text))
    (h : ReadsAs { flags := {}, top := true } { rest := [] } (tokens text) st pieces)
    (hflags : st.global = {}) (hasked : st.asked = []) (hpending : st.pending = none) :
    parse text = .ok { body := ofList (pieces.map Item.node), names := st.names } := by
  have hread := h [] [] calm_nil
  rw [List.append_nil, List.append_nil] at hread
  rw [parse_of_reads hwhole hread hflags hasked hpending]
  simp only [assemble, List.reverse_singleton, List.map_cons, List.map_nil, anyOf, List.reverse_reverse]

/-- **A wrapped template is read part by part**, if the texts for its placeholders are. -/
theorem parse_wrapped {wrapper key ref : List Char} {keyItems refItems : List Item}
    (hwrapper : ∀ c ∈ wrapper, isSpecial c = false)
    (hkeyText : .dangling ∉ tokens key) (hkeyHead : key.head? = some '(')
    (hrefText : .dangling ∉ tokens ref) (hrefHead : ref.head? = some '(')
    (hkey : ReadsAs { flags := {}, top := true } { rest := [] } (tokens key) st keyItems)
    (href : ReadsAs { flags := {}, top := true } st (tokens ref) st' refItems)
    (hflags : st'.global = {}) (hasked : st'.asked = []) (hpending : st'.pending = none) :
    parse ("['\"]?".toList ++ (key ++ ("['\"]?\\s*:\\s*".toList ++ (wrapper ++
        ("\\(\\s*".toList ++ (ref ++ "\\s*\\)".toList)))))) =
      .ok { body := wrappedBody wrapper (keyItems.map Item.node) (refItems.map Item.node),
            names := st'.names } := by
  have hscope : Ordinary { flags := {}, top := true } := ⟨rfl, rfl⟩
  have hwrapperTokens : tokens wrapper = escapedTokens wrapper := by
    rw [← tokens_escape, escape_eq_self hwrapper]
  have htokens : tokens ("['\"]?".toList ++ (key ++ ("['\"]?\\s*:\\s*".toList ++ (wrapper ++
      ("\\(\\s*".toList ++ (ref ++ "\\s*\\)".toList)))))) =
      tokens "['\"]?".toList ++ (tokens key ++ (tokens "['\"]?\\s*:\\s*".toList ++
        (escapedTokens wrapper ++ (tokens "\\(\\s*".toList ++ (tokens ref ++
          tokens "\\s*\\)".toList))))) := by
    rw [tokens_append (by decide), tokens_append hkeyText, tokens_append (by decide),
      tokens_append (by rw [hwrapperTokens]; exact dangling_notMem_escapedTokens _), hwrapperTokens,
      tokens_append (by decide), tokens_append hrefText]
  -- part by part; no part may be changed by what comes next
  have hread := (readsAs_quoteMark hscope).append (hkey.append ((readsAs_colon hscope).append
    ((readsAs_escapedTokens hscope wrapper).append ((readsAs_open hscope).append
      (href.append (readsAs_close hscope) fun _ _ => calm_escaped _ _)
      fun _ _ => by rw [List.append_assoc]; exact calm_group hrefHead _)
      fun _ _ => calm_escaped _ _)
      fun _ hts => by
        rw [List.append_assoc]
        exact calm_escapedTokens _ (calm_escaped _ _))
      fun _ _ => calm_plain (by decide) (by decide) _)
    fun _ _ => by rw [List.append_assoc]; exact calm_group hkeyHead _
  rw [← htokens] at hread
  rw [parse_of_readsAs (by rw [htokens]; exact whole_plain _ _) hread hflags hasked hpending]
  simp only [wrappedBody, List.map_cons, List.map_nil, List.map_append, List.map_map, List.nil_append,
    List.cons_append]
  rfl

end Wrapped

end Regex

namespace Template

open Text Regex

/-! ## Both directions -/

/-- The pattern for a key: the key as a whole word, and a group for the reference. -/
def forwardBody (wrapper key : List Char) : Regex :=
  wrappedBody wrapper (keyWord key) [.group 1 refBody]

/-- The pattern for a symbol: a group for the key, and the symbol as a whole word. -/
def reverseBody (wrapper symbol : List Char) : Regex :=
  wrappedBody wrapper [notAfter keyChars, .group 1 keyBody] (symbolWord symbol)

theorem unmarked_of_plain {cs : List Char} (h : ∀ c ∈ cs, isSpecial c = false) :
    unmarked cs = true := by
  induction cs with
  | nil => rfl
  | cons c cs ih =>
      obtain ⟨hc, hcs⟩ := List.forall_mem_cons.1 h
      refine unmarked_cons.2 ⟨?_, ih hcs⟩
      rintro rfl
      exact absurd hc (by decide)

theorem wholeWord_eq {before after pre post : List Char}
    (hpre : "(?<![\\w$".toList ++ before ++ "])".toList = pre)
    (hpost : "(?![\\w$".toList ++ (after ++ "])".toList) = post) (text : List Char) :
    wholeWord text before after = pre ++ (escape text ++ post) := by
  subst hpre hpost
  unfold wholeWord
  rw [List.append_assoc, List.append_assoc, List.append_assoc]

theorem wholeWord_key (key : List Char) : wholeWord key ".:-".toList ".-".toList =
    "(?<![\\w$.:-])".toList ++ (escape key ++ "(?![\\w$.-])".toList) :=
  wholeWord_eq (by decide) (by decide) key

theorem wholeWord_symbol (symbol : List Char) : wholeWord symbol [] [] =
    "(?<![\\w$])".toList ++ (escape symbol ++ "(?![\\w$])".toList) :=
  wholeWord_eq (by decide) (by decide) symbol

/-- A whole word ends in a parenthesis. -/
theorem getLast?_wholeWord (text before after : List Char) :
    (wholeWord text before after).getLast? = some ')' := by
  unfold wholeWord
  rw [List.getLast?_append]
  rfl

theorem compile_wrapped {wrapper kind : String} {key ref : List Char} {p : Pattern}
    (hwrapper : ∀ c ∈ wrapper.toList, isSpecial c = false) (hkey : unmarked key = true)
    (h : parse ("['\"]?".toList ++ (key ++ ("['\"]?\\s*:\\s*".toList ++ (wrapper.toList ++
      ("\\(\\s*".toList ++ (ref ++ "\\s*\\)".toList)))))) = .ok p) :
    (wrapped wrapper kind).compile key ref = .ok p := by
  rw [compile, substituted_wrapped (unmarked_of_plain hwrapper) hkey, h]

/-- **The pattern of a wrapped template for a key.** -/
theorem forward_wrapped {wrapper kind : String}
    (hwrapper : ∀ c ∈ wrapper.toList, isSpecial c = false) (key : List Char) :
    (wrapped wrapper kind).forward key =
      .ok { body := forwardBody wrapper.toList key, names := [("ref", 1)] } := by
  have hscope : Ordinary { flags := {}, top := true } := ⟨rfl, rfl⟩
  have hpre : .dangling ∉ tokens "(?<![\\w$.:-])".toList := by decide
  have hpost : .dangling ∉ tokens "(?![\\w$.-])".toList := by decide
  have hmarks : unmarked ("(?<![\\w$.:-])".toList ++ (escape key ++ "(?![\\w$.-])".toList)) = true :=
    unmarked_append (by decide) (unmarked_escape rfl (by decide))
  have hkey : ReadsAs { flags := {}, top := true } { rest := [] } _ { rest := [] } _ :=
    readsAs_word hscope hpre (calm_group rfl) (readsAs_notAfter_keyChars hscope)
      (readsAs_notBefore_keyTailChars hscope) key
  have hparse := parse_wrapped hwrapper (dangling_notMem_word hpre hpost) rfl
    (by decide : .dangling ∉ tokens refCapture.toList) rfl hkey (readsAs_refGroup hscope rfl)
    rfl rfl rfl
  rw [forward, wholeWord_key, compile_wrapped hwrapper hmarks hparse]
  simp only [forwardBody, keyWord, List.map_cons, List.map_append, List.map_map]
  rfl

/-- **The pattern of a wrapped template for a symbol.** -/
theorem reverse_wrapped {wrapper kind : String}
    (hwrapper : ∀ c ∈ wrapper.toList, isSpecial c = false) (symbol : List Char) :
    (wrapped wrapper kind).reverse symbol =
      .ok { body := reverseBody wrapper.toList symbol, names := [("key", 1)] } := by
  have hscope : Ordinary { flags := {}, top := true } := ⟨rfl, rfl⟩
  have hpre : .dangling ∉ tokens "(?<![\\w$])".toList := by decide
  have hpost : .dangling ∉ tokens "(?![\\w$])".toList := by decide
  have hcapture : keyCapture.toList = "(?<![\\w$.:-])".toList ++
      "(?P<key>[\\w$](?:[\\w$.:-]*[\\w$])?)".toList := by decide
  have htokens : tokens keyCapture.toList = tokens "(?<![\\w$.:-])".toList ++
      tokens "(?P<key>[\\w$](?:[\\w$.:-]*[\\w$])?)".toList := by
    rw [hcapture, tokens_append (by decide)]
  have hgroup : ReadsAs { flags := {}, top := true } { rest := [] } _ _ _ :=
    readsAs_keyGroup hscope rfl
  have hkey := (readsAs_notAfter_keyChars hscope).append hgroup fun ts _ => calm_group rfl ts
  rw [← htokens] at hkey
  have hparse := parse_wrapped hwrapper (by decide) rfl (dangling_notMem_word hpre hpost) rfl hkey
    (readsAs_word hscope hpre (calm_group rfl) (readsAs_notAfter_nameChars hscope)
      (readsAs_notBefore_nameChars hscope) symbol) rfl rfl rfl
  rw [reverse, wholeWord_symbol, compile_wrapped hwrapper (by decide) hparse]
  simp only [reverseBody, symbolWord, List.map_cons, List.map_append, List.map_map]
  rfl

end Template

end ServiceKeys
