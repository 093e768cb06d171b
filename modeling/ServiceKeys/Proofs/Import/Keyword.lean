import ServiceKeys.Proofs.Import.Clause
import ServiceKeys.Proofs.Regex.Stretch

/-!
# Where a declaration can begin

A declaration begins with a keyword that does not go on from a word and has a blank behind it.  Names
are not keywords, so none begins inside of a clause, whatever its names are made of: a text is *quiet*
when no keyword begins in it, and texts that are quiet one after the other are quiet together
(`Quiet.append`).  Main statements: `Clause.quiet`, `noneBetween_of_quiet`.
-/

namespace ServiceKeys.Import

open Text Regex

/-- A keyword stands between two texts: no word goes on into it, and a blank is behind it. -/
def KeywordAt (ks : List (List Char)) (front rest : List Char) : Prop :=
  (∀ c ∈ front.getLast?, isWord c = false) ∧
    ∃ k ∈ ks, ∃ c more, rest = k ++ c :: more ∧ isBlank c = true

/-- No keyword begins in a text, given what stands behind it. -/
def Quiet (ks : List (List Char)) : List Char → List Char → Prop := Nowhere (KeywordAt ks)

theorem Loose.notWord {rest : List Char} (h : Loose rest) : ∀ c ∈ rest.head?, isWord c = false := by
  intro c hc
  by_contra hword
  have hcontinue := isIdentifierContinue_of_isWord (by simpa using hword)
  rw [h c hc] at hcontinue
  exact Bool.false_ne_true hcontinue

section

variable {ks : List (List Char)} {text text' rest : List Char}

theorem quiet_nil : Quiet ks [] rest := nowhere_nil

theorem Quiet.append (h : Quiet ks text (text' ++ rest)) (h' : Quiet ks text' rest) :
    Quiet ks (text ++ text') rest := Nowhere.append h h'

/-- The keywords are words. -/
theorem word_of_mem_reserved : ∀ k ∈ reserved, k ≠ [] ∧ ∀ c ∈ k, isWord c = true := by decide

variable (hks : ks ⊆ reserved)
include hks

/-- No keyword begins where there are no words. -/
theorem quiet_of_noWord (h : ∀ c ∈ text, isWord c = false) : Quiet ks text rest := by
  rintro front a b rfl hne ⟨-, k, hk, c, more, hrest, -⟩
  obtain ⟨hkne, hword⟩ := word_of_mem_reserved k (hks hk)
  obtain ⟨d, k, rfl⟩ := List.exists_cons_of_ne_nil hkne
  obtain ⟨e, b, rfl⟩ := List.exists_cons_of_ne_nil hne
  obtain rfl : e = d := (List.cons.inj hrest).1
  have hnot := h e (by simp)
  rw [hword e List.mem_cons_self] at hnot
  exact Bool.false_ne_true hnot.symm

/-- No keyword begins in a word that is none. -/
theorem quiet_of_word (hword : ∀ c ∈ text, isWord c = true) (hmem : text ∉ ks) (hrest : Loose rest) :
    Quiet ks text rest := by
  rintro front a b rfl hne ⟨hfront, k, hk, c, more, hkey, hc⟩
  cases a with
  | nil =>
      -- a word is read to its end, by the text as by the keyword
      have hblank : ∀ d ∈ (c :: more).head?, isWord d = false := by
        simpa using isWord_of_isBlank hc
      obtain ⟨rfl, -⟩ := run_append_unique hword (word_of_mem_reserved k (hks hk)).2 hrest.notWord
        hblank hkey
      exact hmem hk
  | cons d a =>
      have hlast := List.getLast?_eq_some_getLast (List.cons_ne_nil d a)
      have hnot := hfront _ (by rw [List.getLast?_append, hlast]; rfl)
      rw [hword _ (List.mem_append_left _ (List.mem_of_getLast? hlast))] at hnot
      exact Bool.false_ne_true hnot.symm

/-- No keyword begins in a text without blanks in front of a quote or the like. -/
theorem quiet_of_noBlank {q : Char} (h : ∀ c ∈ text, isBlank c = false ∧ c ≠ q)
    (hq : isWord q = false ∧ isBlank q = false) : Quiet ks text (q :: rest) := by
  rintro front a b rfl hne ⟨-, k, hk, c, more, hkey, hc⟩
  have hword := (word_of_mem_reserved k (hks hk)).2
  -- the keyword would be followed by the first blank, but first comes the other sign
  have hin : ∀ d ∈ b, (!isBlank d && d != q) = true := by
    intro d hd
    obtain ⟨hblank, hne⟩ := h d (List.mem_append_right _ hd)
    simp [hblank, hne]
  have hin' : ∀ d ∈ k, (!isBlank d && d != q) = true := by
    intro d hd
    have hd := hword d hd
    have hblank := not_blank_of_continue (isIdentifierContinue_of_isWord hd)
    have hne : d ≠ q := by
      rintro rfl
      exact Bool.false_ne_true (hq.1.symm.trans hd)
    simp [hblank, hne]
  obtain ⟨-, rfl, -⟩ := append_cons_unique hin hin' (by simp) (by simp [hc]) hkey
  exact Bool.false_ne_true (hq.2.symm.trans hc)

/-! ## Clauses are quiet -/

theorem Name.quiet (n : Name) (hrest : Loose rest) : Quiet ks n.text rest :=
  quiet_of_word hks n.isWord (fun hmem => n.free (hks hmem)) hrest

theorem Space.quiet (s : Space) : Quiet ks s.text rest :=
  quiet_of_noWord hks fun c hc => isWord_of_isBlank (s.blanks c hc)

theorem quiet_sign {c : Char} (hc : isWord c = false) : Quiet ks [c] rest :=
  quiet_of_noWord hks (by simpa using hc)

theorem quiet_as (hrest : Loose rest) : Quiet ks ['a', 's'] rest :=
  quiet_of_word hks (by decide) (fun hmem => absurd (hks hmem) (by decide)) hrest

theorem Link.quiet (link : Link) : Quiet ks link.text rest := by
  cases link with
  | as before after =>
      exact (before.quiet hks).append ((quiet_as hks (after.loose _)).append (after.quiet hks))
  | colon after => exact (quiet_sign hks (by decide)).append (after.quiet hks)

variable (htype : "type".toList ∉ ks)
include htype

theorem quiet_marked (typed : Option Gap) : Quiet ks (marked typed) rest := by
  cases typed with
  | none => exact quiet_nil
  | some gap =>
      exact (quiet_of_word hks (by decide) htype (gap.loose _)).append (gap.quiet hks)

theorem Item.quiet (item : Item) (hrest : Loose rest) : Quiet ks item.text rest := by
  have hname : Quiet ks (item.name.text ++ item.more) rest := by
    rcases item with ⟨typed, name, _ | ⟨link, localName⟩⟩
    · exact (name.quiet hks hrest).append quiet_nil
    · have hlink := link.loose (localName.text ++ rest)
      rw [← List.append_assoc] at hlink
      exact (name.quiet hks hlink).append ((link.quiet hks).append (localName.quiet hks hrest))
  exact (quiet_marked hks htype item.typed).append hname

theorem Cell.quiet (cell : Cell) (hrest : Loose rest) : Quiet ks cell.text rest := by
  refine (cell.before.quiet hks).append (Quiet.append ?_ (cell.after.quiet hks))
  cases cell.item with
  | none => exact quiet_nil
  | some item => exact item.quiet hks htype (hrest.blanks cell.after.blanks)

theorem quiet_body (cells : List Cell) (hrest : Loose rest) : Quiet ks (body cells) rest := by
  induction cells with
  | nil => exact quiet_nil
  | cons cell cells ih =>
      cases cells with
      | nil => exact cell.quiet hks htype hrest
      | cons next cells =>
          rw [body_cons]
          refine (cell.quiet hks htype (loose_cons (by decide))).append ?_
          exact (quiet_sign hks (by decide)).append ih

theorem Tail.quiet (t : Tail) (hrest : Loose rest) : Quiet ks t.text rest := by
  cases t with
  | all before after name =>
      refine (quiet_sign hks (by decide)).append ((before.quiet hks).append (Quiet.append ?_ ?_))
      · exact quiet_as hks (after.loose_append _ _)
      · exact (after.quiet hks).append (name.quiet hks hrest)
  | named cells =>
      refine (quiet_sign hks (by decide)).append (Quiet.append ?_ (quiet_sign hks (by decide)))
      exact quiet_body hks htype cells (loose_cons (by decide))

/-- **No keyword begins in a clause.** -/
theorem Clause.quiet (C : Clause) (hrest : Loose rest) : Quiet ks C.text rest := by
  cases C with
  | default name => exact name.quiet hks hrest
  | tail t => exact t.quiet hks htype hrest
  | both name space t =>
      refine (name.quiet hks (loose_cons (by decide))).append ?_
      exact (quiet_sign hks (by decide)).append ((space.quiet hks).append (t.quiet hks htype hrest))

end

/-! ## Patterns that begin with a keyword -/

/-- A pattern matches only where one of the keywords stands. -/
def BeginsWith (r : Regex) (ks : List (List Char)) : Prop :=
  ∀ {front rest : List Char}, Fits r ⟨.between front rest, []⟩ → KeywordAt ks front rest

/-- **No match begins in a quiet text.** -/
theorem noneBetween_of_quiet {r : Regex} {ks : List (List Char)} {text rest : List Char}
    (hr : BeginsWith r ks) (h : Quiet ks text rest) (front : List Char) :
    NoneBetween r (front ++ (text ++ rest)) front.length (front ++ text).length := by
  intro l hl hlt
  have hlength : l ≤ (front ++ (text ++ rest)).length := by
    simp only [List.length_append] at hlt ⊢
    omega
  refine matchInside_eq_none hlength ?_
  rintro front' rest' hcut rfl hfits
  obtain ⟨as, bs, hbs, rfl, rfl, rfl⟩ := cut_inside hcut.symm hl hlt
  exact h front as bs rfl hbs (hr hfits)

end ServiceKeys.Import
