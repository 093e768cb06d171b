import ServiceKeys.Proofs.Template.Compile

/-!
# The pieces of a template

A template is cut into its placeholders and the characters between them (`pieces`), and filling them all at
once is what a template is for.  The placeholders are replaced one after the other, though, the second one in
a text that the first one has already changed.  Both come to the same (`substituted_eq_fill`), because
what stands for a key is *inert*: it is bracketed by parentheses, which no placeholder has, so it cannot go
on with a placeholder of the template, and no dollar sign in it has a brace behind it.  Whole words of any
text and both captures are inert.  Main statement: `substituted_exact`.
-/

namespace ServiceKeys.Template

open Text Regex

/-! ## Pieces -/

/-- A piece of a template. -/
inductive Piece where
  | char (c : Char)
  | key
  | ref
  deriving DecidableEq, Repr

/-- The pieces of a template from left to right. -/
def pieces : List Char → List Piece
  | [] => []
  | '$' :: '\x7b' :: 'k' :: 'e' :: 'y' :: '\x7d' :: cs => .key :: pieces cs
  | '$' :: '\x7b' :: 'r' :: 'e' :: 'f' :: '\x7d' :: cs => .ref :: pieces cs
  | c :: cs => .char c :: pieces cs

/-- What a piece becomes. -/
def Piece.filled (key ref : List Char) : Piece → List Char
  | .char c => [c]
  | .key => key
  | .ref => ref

/-- A template with all its placeholders filled at once. -/
def fill (key ref cs : List Char) : List Char := (pieces cs).flatMap (Piece.filled key ref)

variable {key ref cs p : List Char} {c : Char}

theorem pieces_key (cs : List Char) : pieces (keyPlaceholder.toList ++ cs) = .key :: pieces cs := rfl

theorem pieces_ref (cs : List Char) : pieces (refPlaceholder.toList ++ cs) = .ref :: pieces cs := rfl

/-- A character with which no placeholder begins is a piece of its own. -/
theorem pieces_char (hkey : ¬ keyPlaceholder.toList <+: c :: cs) (href : ¬ refPlaceholder.toList <+: c :: cs) :
    pieces (c :: cs) = .char c :: pieces cs := by
  rw [pieces]
  · rintro more rfl rfl
    exact hkey ⟨more, rfl⟩
  · rintro more rfl rfl
    exact href ⟨more, rfl⟩

/-- A template begins with a placeholder or with a character of its own. -/
theorem pieces_induction {motive : List Char → Prop} (nil : motive [])
    (key : ∀ cs, motive cs → motive (keyPlaceholder.toList ++ cs))
    (ref : ∀ cs, motive cs → motive (refPlaceholder.toList ++ cs))
    (char : ∀ c cs, ¬ keyPlaceholder.toList <+: c :: cs → ¬ refPlaceholder.toList <+: c :: cs → motive cs →
      motive (c :: cs)) (cs : List Char) : motive cs := by
  fun_induction pieces cs with
  | case1 => exact nil
  | case2 cs ih => exact key cs ih
  | case3 cs ih => exact ref cs ih
  | case4 c cs hkey href ih =>
      refine char c cs ?_ ?_ ih
      · rintro ⟨more, hmore⟩
        obtain ⟨rfl, rfl⟩ := List.cons.inj hmore
        exact hkey more rfl rfl
      · rintro ⟨more, hmore⟩
        obtain ⟨rfl, rfl⟩ := List.cons.inj hmore
        exact href more rfl rfl

@[simp] theorem fill_nil (key ref : List Char) : fill key ref [] = [] := rfl

@[simp] theorem fill_key (key ref cs : List Char) :
    fill key ref (keyPlaceholder.toList ++ cs) = key ++ fill key ref cs := rfl

@[simp] theorem fill_ref (key ref cs : List Char) :
    fill key ref (refPlaceholder.toList ++ cs) = ref ++ fill key ref cs := rfl

theorem fill_char (hkey : ¬ keyPlaceholder.toList <+: c :: cs) (href : ¬ refPlaceholder.toList <+: c :: cs) :
    fill key ref (c :: cs) = c :: fill key ref cs := by
  rw [fill, pieces_char hkey href]
  rfl

/-- No character is lost: filled with themselves, the placeholders give the template back. -/
theorem fill_self (cs : List Char) : fill keyPlaceholder.toList refPlaceholder.toList cs = cs := by
  induction cs using pieces_induction with
  | nil => rfl
  | key cs ih => rw [fill_key, ih]
  | ref cs ih => rw [fill_ref, ih]
  | char c cs hkey href ih => rw [fill_char hkey href, ih]

/-- Whatever stands in front of it, a dollar sign begins a piece: no placeholder goes on with one. -/
theorem pieces_append_dollar (cs rest : List Char) :
    pieces (cs ++ '$' :: rest) = pieces cs ++ pieces ('$' :: rest) := by
  induction cs using pieces_induction with
  | nil => rfl
  | key cs ih => rw [List.append_assoc, pieces_key, pieces_key, ih, List.cons_append]
  | ref cs ih => rw [List.append_assoc, pieces_ref, pieces_ref, ih, List.cons_append]
  | char c cs hkey href ih =>
      have hcut : ∀ {part : List Char}, '$' ∉ part.tail → ¬ part <+: c :: cs →
          ¬ part <+: c :: (cs ++ '$' :: rest) := by
        intro part htail hpart
        rwa [← List.isPrefixOf_iff_prefix, isPrefixOf_append_cons htail, List.isPrefixOf_iff_prefix]
      rw [List.cons_append, pieces_char (hcut (by decide) hkey) (hcut (by decide) href), ih,
        pieces_char hkey href, List.cons_append]

/-- Every place where the placeholder of the key is written is a piece. -/
theorem pieces_around_key (before after : List Char) :
    pieces (before ++ (keyPlaceholder.toList ++ after)) = pieces before ++ .key :: pieces after :=
  pieces_append_dollar before _

/-- Every place where the placeholder of the reference is written is a piece. -/
theorem pieces_around_ref (before after : List Char) :
    pieces (before ++ (refPlaceholder.toList ++ after)) = pieces before ++ .ref :: pieces after :=
  pieces_append_dollar before _

/-! ## One placeholder after the other -/

/-- With what a filled template begins, the template began, if what is filled in begins otherwise. -/
theorem prefix_of_prefix_fill (hkey : ∃ c ∈ key.head?, c ∉ p) (href : ∃ c ∈ ref.head?, c ∉ p)
    (h : p <+: fill key ref cs) : p <+: cs := by
  have hother : ∀ {new rest p : List Char}, (∃ c ∈ new.head?, c ∉ p) → p <+: new ++ rest → p = [] := by
    rintro new rest p ⟨c, hc, hp⟩ hprefix
    obtain ⟨new, rfl⟩ := List.head?_eq_some_iff.1 hc
    cases p with
    | nil => rfl
    | cons d p =>
        obtain ⟨rfl, -⟩ := List.cons_prefix_cons.1 hprefix
        exact absurd List.mem_cons_self hp
  induction cs using pieces_induction generalizing p with
  | nil => exact h
  | key cs ih => simp [hother hkey h]
  | ref cs ih => simp [hother href h]
  | char c cs hnokey hnoref ih =>
      cases p with
      | nil => exact List.nil_prefix
      | cons d p =>
          have htail : ∀ {new : List Char}, (∃ c ∈ new.head?, c ∉ d :: p) → ∃ c ∈ new.head?, c ∉ p :=
            fun ⟨c, hc, hp⟩ => ⟨c, hc, fun hmem => hp (List.mem_cons_of_mem d hmem)⟩
          rw [fill_char hnokey hnoref] at h
          obtain ⟨rfl, hmore⟩ := List.cons_prefix_cons.1 h
          exact List.cons_prefix_cons.2 ⟨rfl, ih (htail hkey) (htail href) hmore⟩

/-- A character with which no occurrence begins stays. -/
theorem replaceAll_cons {part new : List Char} (h : ¬ part <+: c :: cs) :
    replaceAll part new (c :: cs) = c :: replaceAll part new cs := by
  rw [replaceAll, replaceGo, if_neg (by rwa [List.isPrefixOf_iff_prefix])]
  rfl

/-- A text that can stand in a template and take no part in a placeholder. -/
structure Inert (cs : List Char) : Prop where
  opens : cs.head? = some '('
  closes : cs.getLast? = some ')'
  unmarked : unmarked cs = true

/-- The keys are filled first. -/
theorem replaceAll_keyPlaceholder (key cs : List Char) :
    replaceAll keyPlaceholder.toList key cs = fill key refPlaceholder.toList cs := by
  induction cs using pieces_induction with
  | nil => rfl
  | key cs ih =>
      rw [fill_key, ← ih]
      exact replaceGo_part
  | ref cs ih =>
      rw [fill_ref, ← ih]
      rfl
  | char c cs hkey href ih => rw [fill_char hkey href, replaceAll_cons hkey, ih]

/-- **The references are filled next**, in the places where they stood in the template and nowhere else. -/
theorem replaceAll_refPlaceholder (hkey : Inert key) (ref cs : List Char) :
    replaceAll refPlaceholder.toList ref (fill key refPlaceholder.toList cs) = fill key ref cs := by
  induction cs using pieces_induction with
  | nil => rfl
  | key cs ih =>
      rw [fill_key, fill_key, ← ih]
      exact replaceGo_unmarked hkey.unmarked
  | ref cs ih =>
      rw [fill_ref, fill_ref, ← ih]
      exact replaceGo_part
  | char c cs hnokey hnoref ih =>
      have hcut : ¬ refPlaceholder.toList <+: c :: fill key refPlaceholder.toList cs := by
        intro hprefix
        obtain ⟨rfl, hmore⟩ := List.cons_prefix_cons.1 hprefix
        have hbehind := prefix_of_prefix_fill ⟨'(', hkey.opens, by decide⟩ ⟨'$', rfl, by decide⟩ hmore
        exact hnoref (List.cons_prefix_cons.2 ⟨rfl, hbehind⟩)
      rw [fill_char hnokey hnoref, fill_char hnokey hnoref, replaceAll_cons hcut, ih]

/-- **Replacing one placeholder after the other fills all of them at once.** -/
theorem substituted_eq_fill (t : Template) (hkey : Inert key) (ref : List Char) :
    t.substituted key ref = fill key ref t.source.toList := by
  rw [substituted, replaceAll_keyPlaceholder, replaceAll_refPlaceholder hkey]

/-! ## No placeholder is left -/

/-- No placeholder is written in a text. -/
def Free (cs : List Char) : Prop := ¬ keyPlaceholder.toList <:+: cs ∧ ¬ refPlaceholder.toList <:+: cs

theorem not_infix_of_unmarked {part : List Char} (h : unmarked cs = true) : ¬ '$' :: '\x7b' :: part <:+: cs := by
  induction cs with
  | nil => simp
  | cons c cs ih =>
      obtain ⟨hc, hcs⟩ := unmarked_cons.1 h
      rw [List.infix_cons_iff, not_or]
      refine ⟨fun hprefix => ?_, ih hcs⟩
      obtain ⟨rfl, more, rfl⟩ := List.cons_prefix_cons.1 hprefix
      simpa using hc rfl

theorem Inert.free (h : Inert cs) : Free cs := ⟨not_infix_of_unmarked h.unmarked, not_infix_of_unmarked h.unmarked⟩

/-- A placeholder that is found in a filled template would have been filled. -/
theorem not_infix_fill {part : List Char} (hpart : part = keyPlaceholder.toList ∨ part = refPlaceholder.toList)
    (hkey : Inert key) (href : Inert ref) : ¬ part <:+: fill key ref cs := by
  have hopen : '(' ∉ part.tail := by rcases hpart with rfl | rfl <;> decide
  have hclose : ')' ∉ part := by rcases hpart with rfl | rfl <;> decide
  have hfree : ∀ {new : List Char}, Inert new → ¬ part <:+: new := by
    intro new hnew
    rcases hpart with rfl | rfl
    · exact hnew.free.1
    · exact hnew.free.2
  have hbehind : ∀ {new rest : List Char}, Inert new → ¬ part <:+: rest → ¬ part <:+: new ++ rest := by
    intro new rest hnew hrest hinfix
    exact (infix_append_of_parted (Or.inl ⟨')', hnew.closes, hclose⟩) hinfix).elim (hfree hnew) hrest
  induction cs using pieces_induction with
  | nil => rcases hpart with rfl | rfl <;> simp [keyPlaceholder, refPlaceholder]
  | key cs ih => exact hbehind hkey ih
  | ref cs ih => exact hbehind href ih
  | char c cs hnokey hnoref ih =>
      rw [fill_char hnokey hnoref, List.infix_cons_iff, not_or]
      refine ⟨fun hprefix => ?_, ih⟩
      have hnone : ¬ part <+: c :: cs := by
        rcases hpart with rfl | rfl
        · exact hnokey
        · exact hnoref
      obtain ⟨d, part, rfl⟩ : ∃ d rest, part = d :: rest := by
        rcases hpart with rfl | rfl
        · exact ⟨_, _, rfl⟩
        · exact ⟨_, _, rfl⟩
      obtain ⟨rfl, hmore⟩ := List.cons_prefix_cons.1 hprefix
      exact hnone (List.cons_prefix_cons.2
        ⟨rfl, prefix_of_prefix_fill ⟨'(', hkey.opens, hopen⟩ ⟨'(', href.opens, hopen⟩ hmore⟩)

theorem free_fill (hkey : Inert key) (href : Inert ref) (cs : List Char) : Free (fill key ref cs) :=
  ⟨not_infix_fill (Or.inl rfl) hkey href, not_infix_fill (Or.inr rfl) hkey href⟩

/-! ## Both directions -/

theorem inert_keyCapture : Inert keyCapture.toList := ⟨by decide, by decide, by decide⟩

theorem inert_refCapture : Inert refCapture.toList := ⟨by decide, by decide, by decide⟩

/-- A key as a whole word is inert, whatever its characters. -/
theorem inert_keyWord (key : List Char) : Inert (wholeWord key ".:-".toList ".-".toList) where
  opens := by rw [keyWord_eq]; rfl
  closes := getLast?_wholeWord _ _ _
  unmarked := by
    rw [keyWord_eq]
    exact unmarked_append (by decide) (unmarked_escape rfl (by decide))

/-- A symbol as a whole word is inert, whatever its characters. -/
theorem inert_symbolWord (symbol : List Char) : Inert (wholeWord symbol [] []) where
  opens := by rw [symbolWord_eq]; rfl
  closes := getLast?_wholeWord _ _ _
  unmarked := by
    rw [symbolWord_eq]
    exact unmarked_append (by decide) (unmarked_escape rfl (by decide))

/-- A written pattern, read. -/
def reading (written : List Char) : Except Fault Pattern :=
  (Regex.parse written).mapError (.unreadable written)

theorem compile_eq_reading (t : Template) (key ref : List Char) :
    t.compile key ref = reading (t.substituted key ref) := by
  rw [compile, reading]
  cases Regex.parse (t.substituted key ref) <;> rfl

/-- **Placeholders are filled at once.**  The pieces of a template are its characters and all places where a
placeholder is written.  The pattern for a key and the pattern for a symbol are read from the template with
every placeholder filled in its place, whatever the key, the symbol and the template are made of, and no
placeholder is written in what is read. -/
theorem substituted_exact (t : Template) (key symbol : List Char) :
    let source := t.source.toList
    let forKey := fill (wholeWord key ".:-".toList ".-".toList) refCapture.toList source
    let forSymbol := fill keyCapture.toList (wholeWord symbol [] []) source
    (t.substituted (wholeWord key ".:-".toList ".-".toList) refCapture.toList = forKey ∧
      t.forward key = reading forKey ∧ Free forKey) ∧
    (t.substituted keyCapture.toList (wholeWord symbol [] []) = forSymbol ∧
      t.reverse symbol = reading forSymbol ∧ Free forSymbol) ∧
    fill keyPlaceholder.toList refPlaceholder.toList source = source ∧
    (∀ before after, pieces (before ++ (keyPlaceholder.toList ++ after)) =
      pieces before ++ .key :: pieces after) ∧
    ∀ before after, pieces (before ++ (refPlaceholder.toList ++ after)) =
      pieces before ++ .ref :: pieces after := by
  intro source forKey forSymbol
  have hkey : t.substituted (wholeWord key ".:-".toList ".-".toList) refCapture.toList = forKey :=
    t.substituted_eq_fill (inert_keyWord key) _
  have hsymbol : t.substituted keyCapture.toList (wholeWord symbol [] []) = forSymbol :=
    t.substituted_eq_fill inert_keyCapture _
  refine ⟨⟨hkey, ?_, free_fill (inert_keyWord key) inert_refCapture _⟩,
    ⟨hsymbol, ?_, free_fill inert_keyCapture (inert_symbolWord symbol) _⟩, fill_self source,
    pieces_around_key, pieces_around_ref⟩
  · rw [forward, compile_eq_reading, hkey]
  · rw [reverse, compile_eq_reading, hsymbol]

end ServiceKeys.Template
