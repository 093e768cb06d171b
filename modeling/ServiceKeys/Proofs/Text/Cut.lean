import ServiceKeys.Proofs.Text.CharClass
import ServiceKeys.Text.Basic
import Mathlib.Data.List.TakeWhile

/-!
# Cutting texts

A text is cut at the first character that is not of a class, and there is one such place; a trimmed
text has no blank at either end.  What is trimmed and an identifier is a *bare name*: the line feed
that an identifier may end in is a blank, so a trimmed one has none.
-/

namespace ServiceKeys.Text

/-! ## The first character that is not of a class -/

/-- Two ways to cut a text at its first character outside of a class are the same. -/
theorem append_cons_unique {p : Char → Bool} {xs ys rest rest' : List Char} {c d : Char}
    (hx : ∀ a ∈ xs, p a = true) (hy : ∀ a ∈ ys, p a = true) (hc : p c = false) (hd : p d = false)
    (h : xs ++ c :: rest = ys ++ d :: rest') : xs = ys ∧ c = d ∧ rest = rest' := by
  have hcut := congrArg (List.takeWhile p) h
  rw [List.takeWhile_append_of_pos hx, List.takeWhile_append_of_pos hy] at hcut
  simp only [List.takeWhile_cons, hc, hd, Bool.false_eq_true, if_false, List.append_nil] at hcut
  subst hcut
  simpa using h

/-- Two ways to cut a text at its first occurrence of a character are the same. -/
theorem cut_unique {c : Char} {xs ys rest rest' : List Char} (hx : c ∉ xs) (hy : c ∉ ys)
    (h : xs ++ c :: rest = ys ++ c :: rest') : xs = ys ∧ rest = rest' := by
  have hother : ∀ zs : List Char, c ∉ zs → ∀ a ∈ zs, (a != c) = true := by
    intro zs hzs a ha
    exact bne_iff_ne.2 fun heq => hzs (heq ▸ ha)
  obtain ⟨hxs, -, hrest⟩ := append_cons_unique (hother xs hx) (hother ys hy) (bne_self_eq_false c)
    (bne_self_eq_false c) h
  exact ⟨hxs, hrest⟩

/-- Where two cuts of a text are compared, one of the left parts continues the other. -/
theorem append_cases {xs ys xs' ys' : List Char} (h : xs ++ ys = xs' ++ ys') :
    (∃ as, xs' = xs ++ as ∧ ys = as ++ ys') ∨ ∃ as, as ≠ [] ∧ xs = xs' ++ as ∧ ys' = as ++ ys := by
  rcases List.append_eq_append_iff.1 h with ⟨as, hl, hr⟩ | ⟨as, hl, hr⟩
  · exact Or.inl ⟨as, hl, hr⟩
  · cases as with
    | nil => exact Or.inl ⟨[], by simpa using hl.symm, by simpa using hr.symm⟩
    | cons a as => exact Or.inr ⟨a :: as, by simp, hl, hr⟩

/-- A character that stands behind the first part of one cut stands in the second part of any cut
that is no farther. -/
theorem mem_of_append_eq {xs ys xs' ys' : List Char} {c : Char} (h : xs ++ ys = xs' ++ c :: ys')
    (hle : xs.length ≤ xs'.length) : c ∈ ys := by
  rcases append_cases h with ⟨as, -, rfl⟩ | ⟨as, hne, rfl, -⟩
  · simp
  · have hlen : 0 < as.length := List.length_pos_iff.2 hne
    rw [List.length_append] at hle
    omega

/-- A cut that falls into the middle one of three texts cuts that text. -/
theorem cut_inside {left right front text rest : List Char}
    (h : left ++ right = front ++ (text ++ rest)) (hle : front.length ≤ left.length)
    (hlt : left.length < (front ++ text).length) :
    ∃ as bs, bs ≠ [] ∧ left = front ++ as ∧ text = as ++ bs ∧ right = bs ++ rest := by
  rcases append_cases h with ⟨as, rfl, has⟩ | ⟨as, -, rfl, has⟩
  · obtain rfl : as = [] := List.length_eq_zero_iff.1 (by rw [List.length_append] at hle; omega)
    have hne : text ≠ [] := by
      rintro rfl
      simp at hlt
    exact ⟨[], text, hne, by simp, rfl, has⟩
  · rcases append_cases has with ⟨bs, rfl, -⟩ | ⟨bs, hbs, rfl, rfl⟩
    · simp only [List.length_append] at hlt
      omega
    · exact ⟨as, bs, hbs, rfl, rfl, rfl⟩

/-- At no place inside of a text does something stand, given what is behind the text: `At` relates
what is in front of a place to what is behind it. -/
def Nowhere (At : List Char → List Char → Prop) (text rest : List Char) : Prop :=
  ∀ front a b, text = a ++ b → b ≠ [] → ¬ At (front ++ a) (b ++ rest)

theorem nowhere_nil {At : List Char → List Char → Prop} {rest : List Char} : Nowhere At [] rest := by
  intro front a b hcut hne
  simp_all

/-- What stands nowhere in either of two texts stands nowhere in both together. -/
theorem Nowhere.append {At : List Char → List Char → Prop} {text text' rest : List Char}
    (h : Nowhere At text (text' ++ rest)) (h' : Nowhere At text' rest) :
    Nowhere At (text ++ text') rest := by
  intro front a b hcut hne hat
  rcases append_cases hcut with ⟨as, rfl, rfl⟩ | ⟨as, has, rfl, rfl⟩
  · rw [← List.append_assoc] at hat
    exact h' (front ++ text) as b rfl hne hat
  · rw [List.append_assoc] at hat
    exact h front a as rfl has hat

/-- Two ways to cut off the longest run of a class are the same. -/
theorem run_append_unique {p : Char → Bool} {xs ys us vs : List Char}
    (hx : ∀ c ∈ xs, p c = true) (hy : ∀ c ∈ ys, p c = true)
    (hu : ∀ c ∈ us.head?, p c = false) (hv : ∀ c ∈ vs.head?, p c = false)
    (h : xs ++ us = ys ++ vs) : xs = ys ∧ us = vs := by
  have hstop : ∀ {ws : List Char}, (∀ c ∈ ws.head?, p c = false) → ws.takeWhile p = [] := by
    intro ws hws
    cases ws with
    | nil => rfl
    | cons c ws => rw [List.takeWhile_cons, hws c rfl]; rfl
  have hcut := congrArg (List.takeWhile p) h
  rw [List.takeWhile_append_of_pos hx, List.takeWhile_append_of_pos hy, hstop hu, hstop hv,
    List.append_nil, List.append_nil] at hcut
  subst hcut
  exact ⟨rfl, List.append_cancel_left h⟩

/-- Two ways to cut off the longest tail of a class are the same. -/
theorem append_run_unique {p : Char → Bool} {xs ys us vs : List Char}
    (hu : ∀ c ∈ us, p c = true) (hv : ∀ c ∈ vs, p c = true)
    (hx : ∀ c ∈ xs.getLast?, p c = false) (hy : ∀ c ∈ ys.getLast?, p c = false)
    (h : xs ++ us = ys ++ vs) : xs = ys ∧ us = vs := by
  -- the part between the two cuts would end in a character that is and is not of the class
  have hmore : ∀ {zs as ws : List Char}, (∀ c ∈ as ++ ws, p c = true) →
      (∀ c ∈ (zs ++ as).getLast?, p c = false) → as = [] := by
    intro zs as ws hin hout
    by_contra hne
    have hc := List.getLast?_eq_some_getLast hne
    have hfalse := hout _ (by rw [List.getLast?_append, hc]; rfl)
    rw [hin _ (List.mem_append_left _ (List.mem_of_getLast? hc))] at hfalse
    exact absurd hfalse (by simp)
  rcases append_cases h with ⟨as, rfl, rfl⟩ | ⟨as, hne, rfl, rfl⟩
  · obtain rfl := hmore hu hy
    simp
  · exact absurd (hmore hv hx) hne

/-! ## Trimming -/

theorem dropEndWhile_append (p : Char → Bool) (cs : List Char) :
    dropEndWhile p cs ++ (cs.reverse.takeWhile p).reverse = cs := by
  rw [dropEndWhile, ← List.reverse_append, List.takeWhile_append_dropWhile, List.reverse_reverse]

theorem not_of_mem_getLast?_dropEndWhile {p : Char → Bool} {cs : List Char} {c : Char}
    (h : c ∈ (dropEndWhile p cs).getLast?) : p c = false := by
  rw [dropEndWhile, List.getLast?_reverse, Option.mem_def] at h
  simpa [h] using List.head?_dropWhile_not p cs.reverse

/-- A text that does not end in a character of the class is left alone. -/
theorem dropEndWhile_eq_self {p : Char → Bool} {cs : List Char}
    (h : ∀ c ∈ cs.getLast?, p c = false) : dropEndWhile p cs = cs :=
  (append_run_unique (p := p) (fun _ hc => List.mem_takeWhile_imp (List.mem_reverse.1 hc))
    (by simp) (fun _ hc => not_of_mem_getLast?_dropEndWhile hc) h
    ((dropEndWhile_append p cs).trans (List.append_nil cs).symm)).1

theorem mem_head?_of_mem_head?_dropEndWhile {p : Char → Bool} {cs : List Char} {c : Char}
    (h : c ∈ (dropEndWhile p cs).head?) : c ∈ cs.head? := by
  rw [← dropEndWhile_append p cs, List.head?_append, Option.mem_def.1 h]
  rfl

theorem not_blank_of_mem_head?_trim {cs : List Char} {c : Char} (h : c ∈ (trim cs).head?) :
    isBlank c = false := by
  have hfirst : c ∈ (trimStart cs).head? := mem_head?_of_mem_head?_dropEndWhile h
  rw [trimStart, Option.mem_def] at hfirst
  simpa [hfirst] using List.head?_dropWhile_not isBlank cs

theorem not_blank_of_mem_getLast?_trim {cs : List Char} {c : Char} (h : c ∈ (trim cs).getLast?) :
    isBlank c = false := not_of_mem_getLast?_dropEndWhile h

/-- Trimming takes blanks from both ends. -/
theorem trim_append (cs : List Char) : ∃ a b, Blanks a ∧ Blanks b ∧ cs = a ++ (trim cs ++ b) := by
  refine ⟨cs.takeWhile isBlank, ((trimStart cs).reverse.takeWhile isBlank).reverse, ?_, ?_, ?_⟩
  · exact fun c hc => List.mem_takeWhile_imp hc
  · exact fun c hc => List.mem_takeWhile_imp (List.mem_reverse.1 hc)
  · rw [trim, dropEndWhile_append, trimStart, List.takeWhile_append_dropWhile]

/-- What begins and ends in no blank is what is left between blanks. -/
theorem trim_eq {a cs b : List Char} (ha : Blanks a) (hb : Blanks b)
    (hfirst : ∀ c ∈ cs.head?, isBlank c = false) (hlast : ∀ c ∈ cs.getLast?, isBlank c = false) :
    trim (a ++ (cs ++ b)) = cs := by
  have hend : ∀ {xs : List Char}, (∀ c ∈ xs.getLast?, isBlank c = false) →
      dropEndWhile isBlank (xs ++ b) = xs := by
    intro xs hxs
    refine (append_run_unique (p := isBlank) ?_ hb ?_ hxs (dropEndWhile_append isBlank _)).1
    · exact fun c hc => List.mem_takeWhile_imp (List.mem_reverse.1 hc)
    · exact fun c hc => not_of_mem_getLast?_dropEndWhile hc
  rw [trim, trimStart, List.dropWhile_append_of_pos ha]
  cases cs with
  | nil =>
      rw [List.nil_append, List.dropWhile_eq_nil_iff.2 hb]
      rfl
  | cons c cs =>
      rw [List.cons_append, List.dropWhile_cons, hfirst c rfl, ← List.cons_append]
      exact hend hlast

theorem trim_ne_nil {cs : List Char} {c : Char} (hc : c ∈ cs) (hblank : isBlank c = false) :
    trim cs ≠ [] := by
  intro hnil
  obtain ⟨a, b, ha, hb, hcs⟩ := trim_append cs
  rw [hnil, List.nil_append] at hcs
  rw [ha.append hb c (hcs ▸ hc)] at hblank
  exact Bool.false_ne_true hblank.symm

/-! ## Splitting -/

/-- Where a text is cut at more characters, a piece that holds none of them is still a piece. -/
theorem splitBy_refines {p q : Char → Bool} (hpq : ∀ c, p c = true → q c = true) (cs : List Char) :
    ∃ piece pieces piece' pieces', splitBy p cs = piece :: pieces ∧ splitBy q cs = piece' :: pieces' ∧
      ((∀ c ∈ piece, q c = false) → piece = piece') ∧
      ∀ other ∈ pieces, (∀ c ∈ other, q c = false) → other ∈ pieces' := by
  induction cs with
  | nil => exact ⟨[], [], [], [], rfl, rfl, fun _ => rfl, by simp⟩
  | cons c cs ih =>
      obtain ⟨piece, pieces, piece', pieces', hp, hq, hfirst, hrest⟩ := ih
      have hall : ∀ other ∈ piece :: pieces, (∀ c ∈ other, q c = false) → other ∈ piece' :: pieces' := by
        refine List.forall_mem_cons.2 ⟨fun hclean => ?_, fun other hother hclean => ?_⟩
        · exact List.mem_cons.2 (Or.inl (hfirst hclean))
        · exact List.mem_cons_of_mem _ (hrest other hother hclean)
      simp only [splitBy, hp, hq]
      cases hpc : p c with
      | true =>
          simp only [hpq c hpc]
          exact ⟨_, _, _, _, rfl, rfl, fun _ => rfl, hall⟩
      | false =>
          cases hqc : q c with
          | true =>
              refine ⟨_, _, _, _, rfl, rfl, fun hclean => ?_, fun other hother hclean => ?_⟩
              · exact absurd (hclean c List.mem_cons_self) (by simp [hqc])
              · exact hall other (List.mem_cons_of_mem _ hother) hclean
          | false =>
              refine ⟨_, _, _, _, rfl, rfl, fun hclean => ?_, hrest⟩
              rw [hfirst fun c hc => hclean c (List.mem_cons_of_mem _ hc)]

theorem mem_splitBy_of_imp {p q : Char → Bool} (hpq : ∀ c, p c = true → q c = true)
    {piece cs : List Char} (hclean : ∀ c ∈ piece, q c = false) (h : piece ∈ splitBy p cs) :
    piece ∈ splitBy q cs := by
  obtain ⟨first, rest, first', rest', hp, hq, hfirst, hrest⟩ := splitBy_refines hpq cs
  rw [hp] at h
  rw [hq]
  rcases List.mem_cons.1 h with rfl | h
  · exact List.mem_cons.2 (Or.inl (hfirst hclean))
  · exact List.mem_cons_of_mem _ (hrest piece h hclean)

/-! ## Bare names -/

/-- A name as it stands in a callee: a starter, then characters that go on with it. -/
def BareName (cs : List Char) : Prop :=
  ∃ c rest, cs = c :: rest ∧ isIdentifierStart c = true ∧ ∀ d ∈ rest, isIdentifierContinue d = true

theorem BareName.isIdentifierContinue {cs : List Char} (h : BareName cs) :
    ∀ c ∈ cs, isIdentifierContinue c = true := by
  obtain ⟨c, rest, rfl, hc, hrest⟩ := h
  exact List.forall_mem_cons.2 ⟨isIdentifierContinue_of_start hc, hrest⟩

theorem BareName.ne_nil {cs : List Char} (h : BareName cs) : cs ≠ [] := by
  obtain ⟨c, rest, rfl, -⟩ := h
  exact List.cons_ne_nil c rest

theorem BareName.notBlank {cs : List Char} (h : BareName cs) : ∀ c ∈ cs, isBlank c = false :=
  fun c hc => not_blank_of_continue (h.isIdentifierContinue c hc)

theorem BareName.head?_notBlank {cs : List Char} (h : BareName cs) (rest : List Char) :
    ∀ c ∈ (cs ++ rest).head?, isBlank c = false := by
  obtain ⟨d, ds, rfl, hd, -⟩ := h
  simpa using not_blank_of_continue (isIdentifierContinue_of_start hd)

theorem isIdentifier_of_bareName {cs : List Char} (h : BareName cs) : isIdentifier cs = true := by
  obtain ⟨c, rest, rfl, hc, hrest⟩ := h
  exact isIdentifier_cons hc hrest

/-- An identifier without a blank at its end is a bare name. -/
theorem bareName_of_isIdentifier {cs : List Char} (h : isIdentifier cs = true)
    (hlast : ∀ c ∈ cs.getLast?, isBlank c = false) : BareName cs := by
  cases cs with
  | nil => simp [isIdentifier] at h
  | cons c cs =>
      simp only [isIdentifier, Bool.and_eq_true, Bool.or_eq_true, List.all_eq_true,
        beq_iff_eq] at h
      obtain ⟨hc, hcs | ⟨hend, -⟩⟩ := h
      · exact ⟨c, cs, rfl, hc, hcs⟩
      · have hblank := hlast '\n' (by rw [List.getLast?_cons, hend]; simp)
        exact absurd hblank (by decide)

theorem bareName_trim {cs : List Char} (h : isIdentifier (trim cs) = true) : BareName (trim cs) :=
  bareName_of_isIdentifier h fun _ hc => not_of_mem_getLast?_dropEndWhile hc

end ServiceKeys.Text
