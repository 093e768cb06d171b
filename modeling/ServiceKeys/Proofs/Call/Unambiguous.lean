import ServiceKeys.Proofs.Call.Grammar
import ServiceKeys.Proofs.Text.Cut

/-!
# Calls are unambiguous

Facts about the grammar of calls, for callees made of bare names and keys made of key characters.

* A text begins with at most one call, whatever the callees and the keys are (`callText_unique`).
* A call that begins inside of another one, at a place that no name leads up to, is the end of it: its
  key is the same, and its names are the last ones of the other callee (`callText_nested`).
* So a call never begins inside of another call of the same callee (`callText_separate`).

All rest on the first parenthesis.  The head of a call has none, so where two calls share text their
heads end at the same place.  A call that begins inside of another one's argument would meet a
closing parenthesis before an opening one.  A call that begins inside of another one's head shares
its end with it.  It does not begin in the type arguments, since its brackets would not balance, so
it begins with one of the names.
-/

namespace ServiceKeys.Call

open Regex Text

/-! ## Signs -/

/-- The signs that the grammar puts around names and keys. -/
def signs : List Char := ['<', '>', '(', ')', '?', '\x27', '"', '`']

theorem not_key_of_sign : ∀ c ∈ signs, isKeyChar c = false := by decide

theorem not_blank_of_sign : ∀ c ∈ '.' :: signs, isBlank c = false := by decide

theorem not_name_dot : isIdentifierContinue '.' = false := by decide

theorem not_name_of_sign {c : Char} (h : c ∈ signs) : isIdentifierContinue c = false := by
  by_contra hc
  rw [Bool.not_eq_false] at hc
  exact Bool.false_ne_true ((not_key_of_sign c h).symm.trans (isKeyChar_of_continue hc))

theorem accepts_quotes {q : Char} : quotes.accepts q = true ↔ q ∈ ['\x27', '"', '`'] := by
  rw [quotes, CharSet.accepts_oneOf, List.contains_iff_mem]

/-- A sign does not occur in a text of blanks. -/
theorem notMem_blanks {c : Char} {xs : List Char} (hc : c ∈ '.' :: signs) (hx : Blanks xs) :
    c ∉ xs := fun h => Bool.false_ne_true ((not_blank_of_sign c hc).symm.trans (hx c h))

theorem notMem_bareName {c : Char} {xs : List Char} (hc : c ∈ '.' :: signs) (hx : BareName xs) :
    c ∉ xs := by
  intro h
  have hname := hx.isIdentifierContinue c h
  rcases List.mem_cons.1 hc with rfl | hc
  · exact Bool.false_ne_true (not_name_dot.symm.trans hname)
  · exact Bool.false_ne_true ((not_name_of_sign hc).symm.trans hname)

/-! ## Brackets -/

/-- Reading on inside of type arguments leaves at least one bracket open. -/
theorem closesTypes_append {n : Nat} {xs ys : List Char} (hy : ys ≠ [])
    (h : closesTypes (n + 1) (xs ++ ys) = true) : ∃ m, closesTypes (m + 1) ys = true := by
  induction xs generalizing n with
  | nil => exact ⟨n, h⟩
  | cons c xs ih =>
      obtain ⟨m, -, ⟨-, -, h⟩ | ⟨-, h⟩ | ⟨-, h⟩⟩ := closesTypes_cons h
      · exact ih h
      · cases m with
        | zero =>
            have hnil := closesTypes_zero.1 h
            exact absurd (List.append_eq_nil_iff.1 hnil).2 hy
        | succ m => exact ih h
      · exact ih h

/-- Type arguments close the brackets that they open and those that are open before them. -/
theorem count_of_closesTypes {n : Nat} {ts : List Char} (h : closesTypes n ts = true) :
    ts.count '>' = ts.count '<' + n := by
  induction ts generalizing n with
  | nil =>
      cases n with
      | zero => rfl
      | succ n => simp [closesTypes] at h
  | cons c ts ih =>
      obtain ⟨m, rfl, ⟨rfl, -, h⟩ | ⟨rfl, h⟩ | ⟨hc, h⟩⟩ := closesTypes_cons h
      · have hcount := ih h
        simp only [List.count_cons_self, List.count_cons_of_ne (by decide : '<' ≠ '>')]
        omega
      · have hcount := ih h
        simp only [List.count_cons_self, List.count_cons_of_ne (by decide : '>' ≠ '<')]
        omega
      · simp only [List.mem_cons, not_or] at hc
        rw [List.count_cons_of_ne hc.1, List.count_cons_of_ne hc.2.1]
        exact ih h

theorem noParens_of_closesTypes {n : Nat} {ts : List Char} (h : closesTypes n ts = true) :
    ∀ c ∈ ts, c ≠ '(' ∧ c ≠ ')' := by
  induction ts generalizing n with
  | nil => simp
  | cons c ts ih =>
      obtain ⟨m, rfl, ⟨rfl, -, h⟩ | ⟨rfl, h⟩ | ⟨hc, h⟩⟩ := closesTypes_cons h
      · exact List.forall_mem_cons.2 ⟨by decide, ih h⟩
      · exact List.forall_mem_cons.2 ⟨by decide, ih h⟩
      · simp only [List.mem_cons, not_or] at hc
        exact List.forall_mem_cons.2 ⟨⟨hc.2.2.1, hc.2.2.2.1⟩, ih h⟩

/-! ## Heads -/

section Heads

variable {names : List (List Char)} {xs : List Char}

theorem notMem_dot {dot : List Char} (h : IsDot dot) {c : Char} (hc : c ∈ signs) (hmark : c ≠ '?') :
    c ∉ dot := by
  obtain ⟨a, q, b, ha, hq, hb, rfl⟩ := h
  have ha' := notMem_blanks (List.mem_cons_of_mem _ hc) ha
  have hb' := notMem_blanks (List.mem_cons_of_mem _ hc) hb
  have hdot : c ≠ '.' := by
    rintro rfl
    exact absurd hc (by decide)
  rcases hq with rfl | rfl <;> simp [ha', hb', hdot, hmark]

theorem notMem_callee (hnames : ∀ n ∈ names, BareName n) (h : Callee names xs) {c : Char}
    (hc : c ∈ signs) (hq : c ≠ '?') : c ∉ xs := by
  induction h with
  | last name => exact notMem_bareName (List.mem_cons_of_mem _ hc) (hnames name (by simp))
  | @dotted name names dot rest hdot hrest ih =>
      have hname := notMem_bareName (List.mem_cons_of_mem _ hc) (hnames name (by simp))
      have hrest' := ih fun n hn => hnames n (List.mem_cons_of_mem _ hn)
      simp [hname, hrest', notMem_dot hdot hc hq]

theorem notMem_typeArguments {c : Char} (hc : c ∈ ['(', ')']) (h : TypeArguments xs) : c ∉ xs := by
  obtain rfl | ⟨a, ts, ha, hts, rfl⟩ := h
  · simp
  · have hsign : c ∈ '.' :: signs := by
      have hparens : ∀ c ∈ ['(', ')'], c ∈ '.' :: signs := by decide
      exact hparens c hc
    have ha' := notMem_blanks hsign ha
    intro hmem
    rcases List.mem_append.1 hmem with hmem | hmem
    · exact ha' hmem
    · rcases List.mem_cons.1 hmem with rfl | hmem
      · exact absurd hc (by decide)
      · have := noParens_of_closesTypes hts c hmem
        simp_all

/-- The head of a call has no parenthesis. -/
theorem notMem_head (hnames : ∀ n ∈ names, BareName n) (h : Head names xs) {c : Char}
    (hc : c ∈ ['(', ')']) : c ∉ xs := by
  have hparens : ∀ c ∈ ['(', ')'], c ∈ signs ∧ c ≠ '?' := by decide
  obtain ⟨callee, types, gap, hcallee, htypes, hgap, rfl⟩ := h
  have h₁ := notMem_callee hnames hcallee (hparens c hc).1 (hparens c hc).2
  have h₂ := notMem_typeArguments hc htypes
  have h₃ := notMem_blanks (List.mem_cons_of_mem _ (hparens c hc).1) hgap
  simp [h₁, h₂, h₃]

/-- The head of a call has as many closing brackets as opening ones. -/
theorem count_head (hnames : ∀ n ∈ names, BareName n) (h : Head names xs) :
    xs.count '>' = xs.count '<' := by
  obtain ⟨callee, types, gap, hcallee, htypes, hgap, rfl⟩ := h
  have hzero : ∀ c ∈ ['<', '>'], callee.count c = 0 ∧ gap.count c = 0 := by
    have hsigns : ∀ c ∈ ['<', '>'], c ∈ signs ∧ c ≠ '?' := by decide
    intro c hc
    obtain ⟨hc, hq⟩ := hsigns c hc
    exact ⟨List.count_eq_zero.2 (notMem_callee hnames hcallee hc hq),
      List.count_eq_zero.2 (notMem_blanks (List.mem_cons_of_mem _ hc) hgap)⟩
  have htypes : types.count '>' = types.count '<' := by
    obtain rfl | ⟨a, ts, ha, hts, rfl⟩ := htypes
    · rfl
    · have hcount := count_of_closesTypes hts
      have hopen := List.count_eq_zero.2 (notMem_blanks (by decide : '<' ∈ '.' :: signs) ha)
      have hclose := List.count_eq_zero.2 (notMem_blanks (by decide : '>' ∈ '.' :: signs) ha)
      simp only [List.count_append, List.count_cons_self, hopen, hclose,
        List.count_cons_of_ne (by decide : '<' ≠ '>')]
      omega
  have hopen := hzero '<' (by decide)
  have hclose := hzero '>' (by decide)
  simp only [List.count_append]
  omega

/-! ### The parts of a head -/

/-- What stands between a callee and the parenthesis. -/
def Tail (xs : List Char) : Prop :=
  ∃ types gap, TypeArguments types ∧ Blanks gap ∧ xs = types ++ gap

/-- A name in a tail stands behind its bracket. -/
theorem bracket_of_tail {as bs : List Char} {c : Char} (h : Tail (as ++ c :: bs))
    (hc : isIdentifierContinue c = true) : '<' ∈ as := by
  have hblank : ∀ {ys}, Blanks ys → c ∉ ys := fun hys hmem =>
    Bool.false_ne_true ((not_blank_of_continue hc).symm.trans (hys c hmem))
  obtain ⟨types, gap, htypes, hgap, hcut⟩ := h
  obtain rfl | ⟨a, ts, ha, -, rfl⟩ := htypes
  · have hmem : c ∈ as ++ c :: bs := by simp
    rw [hcut, List.nil_append] at hmem
    exact absurd hmem (hblank hgap)
  rcases append_cases (show as ++ c :: bs = a ++ '<' :: (ts ++ gap) by simpa using hcut) with
    ⟨us, rfl, hright⟩ | ⟨us, hne, rfl, hright⟩
  · cases us with
    | nil =>
        obtain ⟨rfl, -⟩ := List.cons.inj hright
        exact absurd hc (by rw [not_name_of_sign (by decide)]; decide)
    | cons u us =>
        obtain ⟨rfl, -⟩ := List.cons.inj hright
        exact absurd (by simp) (hblank ha)
  · obtain ⟨u, us, rfl⟩ := List.exists_cons_of_ne_nil hne
    obtain ⟨rfl, -⟩ := List.cons.inj hright
    simp

theorem not_name_of_mem_dot {dot : List Char} (h : IsDot dot) :
    ∀ c ∈ dot, isIdentifierContinue c = false := by
  obtain ⟨a, q, b, ha, hmark, hb, rfl⟩ := h
  have hmark' : ∀ c ∈ q, isIdentifierContinue c = false := by
    rcases hmark with rfl | rfl
    · simp
    · exact List.forall_mem_singleton.2 (by decide)
  simp only [List.forall_mem_append, List.forall_mem_cons]
  exact ⟨fun c hc => not_continue_of_blank (ha c hc), hmark', not_name_dot,
    fun c hc => not_continue_of_blank (hb c hc)⟩

/-- What can follow the first name of a head: the end of the head, or a dot and the head of the other
names. -/
def Follows (names : List (List Char)) (more : List Char) : Prop :=
  (names = [] ∧ Tail more) ∨ ∃ dot rest, IsDot dot ∧ Head names rest ∧ more = dot ++ rest

theorem not_name_of_follows {more : List Char} (h : Follows names more) :
    ∀ c ∈ more.head?, isIdentifierContinue c = false := by
  intro c hc
  obtain ⟨rest, rfl⟩ : ∃ rest, more = c :: rest := ⟨_, List.eq_cons_of_mem_head? hc⟩
  obtain ⟨-, htail⟩ | ⟨dot, rest', hdot, -, hcut⟩ := h
  · by_contra hname
    have hmem := bracket_of_tail (show Tail ([] ++ c :: rest) from htail) (by simpa using hname)
    simp at hmem
  · cases dot with
    | nil =>
        obtain ⟨a, q, b, -, -, -, hnil⟩ := hdot
        simp at hnil
    | cons d dot =>
        obtain ⟨rfl, -⟩ := List.cons.inj hcut
        exact not_name_of_mem_dot hdot c List.mem_cons_self

/-- A head is its first name and what can follow that. -/
theorem head_cases (h : Head names xs) :
    ∃ name names' more, names = name :: names' ∧ xs = name ++ more ∧ Follows names' more := by
  obtain ⟨callee, types, gap, hcallee, htypes, hgap, rfl⟩ := h
  cases hcallee with
  | last name => exact ⟨callee, [], _, rfl, rfl, Or.inl ⟨rfl, types, gap, htypes, hgap, rfl⟩⟩
  | @dotted name names dot rest hdot hrest =>
      refine ⟨name, names, dot ++ (rest ++ (types ++ gap)), rfl, by simp, Or.inr ?_⟩
      exact ⟨dot, _, hdot, ⟨rest, types, gap, hrest, htypes, hgap, rfl⟩, rfl⟩

theorem starts_head (hnames : ∀ n ∈ names, BareName n) (h : Head names xs) :
    ∃ c rest, xs = c :: rest ∧ isIdentifierContinue c = true := by
  obtain ⟨name, names', more, rfl, rfl, -⟩ := head_cases h
  obtain ⟨c, rest, rfl, hc, -⟩ := hnames name List.mem_cons_self
  exact ⟨c, rest ++ more, rfl, isIdentifierContinue_of_start hc⟩

/-- What follows a name ends in one way: no tail begins with a dot and a head. -/
theorem not_tail_dot (hnames : ∀ n ∈ names, BareName n) {dot : List Char} (hdot : IsDot dot)
    (h : Head names xs) : ¬ Tail (dot ++ xs) := by
  intro htail
  obtain ⟨c, rest, rfl, hc⟩ := starts_head hnames h
  obtain ⟨a, q, b, ha, hmark, hb, rfl⟩ := hdot
  have hmem := bracket_of_tail htail hc
  have ha' : '<' ∉ a := notMem_blanks (by decide) ha
  have hb' : '<' ∉ b := notMem_blanks (by decide) hb
  rcases hmark with rfl | rfl
  · simp [ha', hb'] at hmem
  · simp [ha', hb'] at hmem

/-! ### Heads that end together -/

variable {names' : List (List Char)}

/-- A text is the head of at most one callee. -/
theorem head_unique (hnames : ∀ n ∈ names, BareName n) (hnames' : ∀ n ∈ names', BareName n)
    (h : Head names xs) (h' : Head names' xs) : names = names' := by
  induction names generalizing names' xs with
  | nil =>
      obtain ⟨name, names, more, hnil, -⟩ := head_cases h
      cases hnil
  | cons name names ih =>
      obtain ⟨_, _, more, ⟨⟩, rfl, hmore⟩ := head_cases h
      obtain ⟨name', names', more', rfl, heq, hmore'⟩ := head_cases h'
      obtain ⟨hname, hothers⟩ := List.forall_mem_cons.1 hnames
      obtain ⟨hname', hothers'⟩ := List.forall_mem_cons.1 hnames'
      obtain ⟨rfl, rfl⟩ := run_append_unique hname.isIdentifierContinue
        hname'.isIdentifierContinue (not_name_of_follows hmore) (not_name_of_follows hmore') heq
      rcases hmore with ⟨rfl, htail⟩ | ⟨dot, rest, hdot, hrest, rfl⟩
      · rcases hmore' with ⟨rfl, -⟩ | ⟨dot, rest, hdot, hrest, rfl⟩
        · rfl
        · exact absurd htail (not_tail_dot hothers' hdot hrest)
      · rcases hmore' with ⟨rfl, htail⟩ | ⟨dot', rest', hdot', hrest', hcut⟩
        · exact absurd htail (not_tail_dot hothers hdot hrest)
        · -- both dots are the characters up to the next name
          have hplain : ∀ {d : List Char}, IsDot d → ∀ c ∈ d, (!isIdentifierContinue c) = true :=
            fun hd c hc => by rw [not_name_of_mem_dot hd c hc]; rfl
          have hstop : ∀ {ns : List (List Char)} {ys}, (∀ n ∈ ns, BareName n) → Head ns ys →
              ∀ c ∈ ys.head?, (!isIdentifierContinue c) = false := by
            intro ns ys hns hys c hc
            obtain ⟨d, ds, rfl, hd⟩ := starts_head hns hys
            obtain rfl : d = c := by simpa using hc
            rw [hd]
            rfl
          obtain ⟨rfl, rfl⟩ := run_append_unique (p := fun c => !isIdentifierContinue c)
            (hplain hdot) (hplain hdot') (hstop hothers hrest) (hstop hothers' hrest') hcut
          rw [ih hothers hothers' hrest hrest']

/-- No head ends in another head that begins behind a bracket: the brackets of the second one would
not balance. -/
theorem head_separate_of_bracket (hnames : ∀ n ∈ names, BareName n)
    (hnames' : ∀ n ∈ names', BareName n) {as bs : List Char} (h : Head names (as ++ bs))
    (hb : Head names' bs) (hopen : '<' ∈ as) : False := by
  obtain ⟨c, rest, rfl, hc⟩ := starts_head hnames' hb
  have hblank : ¬ Blanks (c :: rest) := fun h =>
    Bool.false_ne_true ((not_blank_of_continue hc).symm.trans (h c List.mem_cons_self))
  obtain ⟨callee, types, gap, hcallee, htypes, hgap, hcut⟩ := h
  have hcallee' : '<' ∉ callee := notMem_callee hnames hcallee (by decide) (by decide)
  have hgap' : '<' ∉ gap := notMem_blanks (by decide) hgap
  obtain rfl | ⟨a, ts, ha, hts, rfl⟩ := htypes
  · have hall : '<' ∈ callee ++ ([] ++ gap) := hcut ▸ List.mem_append_left _ hopen
    simp [hcallee', hgap'] at hall
  -- The left part reaches beyond the first bracket, so the right one is what is left of the types.
  have ha' : '<' ∉ a := notMem_blanks (by decide) ha
  rcases append_cases (show as ++ (c :: rest) = (callee ++ a) ++ '<' :: (ts ++ gap) by
    simpa using hcut) with ⟨us, hleft, -⟩ | ⟨us, hne, rfl, hright⟩
  · have hall : '<' ∈ callee ++ a := hleft ▸ List.mem_append_left _ hopen
    simp [hcallee', ha'] at hall
  · obtain ⟨u, us, rfl⟩ := List.exists_cons_of_ne_nil hne
    obtain ⟨-, hright⟩ := List.cons.inj hright
    rcases append_cases hright with ⟨ws, -, rfl⟩ | ⟨ws, hws, rfl, hrest⟩
    · exact hblank (blanks_append_iff.1 hgap).2
    · -- the brackets that are open at the cut are closed behind it, and nothing opens them there
      obtain ⟨m, hm⟩ := closesTypes_append hws hts
      have hcount := count_of_closesTypes hm
      have hbalance := count_head hnames' hb
      have hclose : gap.count '>' = 0 := List.count_eq_zero.2 (notMem_blanks (by decide) hgap)
      rw [hrest, List.count_append, List.count_append, List.count_eq_zero.2 hgap', hclose] at hbalance
      omega

/-- A head that another one ends in, and that begins behind a character of no name, has the last names
of the other one and no others. -/
theorem head_nested (hnames : ∀ n ∈ names, BareName n) (hnames' : ∀ n ∈ names', BareName n)
    {as bs : List Char} (hne : as ≠ []) (hlast : ∀ c ∈ as.getLast?, isIdentifierContinue c = false)
    (h : Head names (as ++ bs)) (hb : Head names' bs) :
    ∃ front, front ≠ [] ∧ names = front ++ names' := by
  have hopen : '<' ∉ as := head_separate_of_bracket hnames hnames' h hb
  induction names generalizing as with
  | nil =>
      obtain ⟨name, names, more, hnil, -⟩ := head_cases h
      cases hnil
  | cons name names ih =>
      obtain ⟨_, _, more, ⟨⟩, hcut, hmore⟩ := head_cases h
      obtain ⟨hname, hnames⟩ := List.forall_mem_cons.1 hnames
      obtain ⟨c, rest, rfl, hc⟩ := starts_head hnames' hb
      rcases append_cases hcut with ⟨us, rfl, -⟩ | ⟨us, hus, rfl, rfl⟩
      · -- it ends inside of the first name
        obtain ⟨d, hd⟩ : ∃ d, as.getLast? = some d := ⟨_, List.getLast?_eq_some_getLast hne⟩
        have hmem : d ∈ as ++ us := List.mem_append_left _ (List.mem_of_getLast? hd)
        exact absurd (hname.isIdentifierContinue d hmem) (by rw [hlast d hd]; decide)
      rcases hmore with ⟨-, htail⟩ | ⟨dot, rest', hdot, hrest, hcut⟩
      · exact absurd (List.mem_append_right _ (bracket_of_tail htail hc)) hopen
      rcases append_cases hcut with ⟨vs, rfl, hright⟩ | ⟨vs, hvs, rfl, rfl⟩
      · -- it ends inside of the dot or behind it, and no name begins inside
        cases vs with
        | nil =>
            obtain rfl : c :: rest = rest' := hright
            obtain rfl := head_unique hnames hnames' hrest hb
            exact ⟨[name], by simp, rfl⟩
        | cons v vs =>
            obtain ⟨rfl, -⟩ := List.cons.inj hright
            exact absurd hc (by rw [not_name_of_mem_dot hdot c (by simp)]; decide)
      · have hlast' : ∀ d ∈ vs.getLast?, isIdentifierContinue d = false := by
          intro d hd
          refine hlast d ?_
          rw [← List.append_assoc, List.getLast?_append_of_ne_nil _ hvs]
          exact hd
        obtain ⟨front, -, rfl⟩ := ih hnames hvs hlast' hrest (fun hmem => hopen (by simp [hmem]))
        exact ⟨name :: front, by simp, rfl⟩

end Heads

/-! ## Arguments -/

section Arguments

variable {key key' xs xs' rest rest' : List Char}

theorem notMem_key (hkey : ∀ c ∈ key, isKeyChar c = true) {c : Char} (hc : c ∈ signs) : c ∉ key :=
  fun h => Bool.false_ne_true ((not_key_of_sign c hc).symm.trans (hkey c h))

theorem quote_mem_signs {q : Char} (hq : quotes.accepts q = true) : q ∈ signs := by
  have hquotes : ∀ q ∈ ['\x27', '"', '`'], q ∈ signs := by decide
  exact hquotes q (accepts_quotes.1 hq)

/-- An argument has no opening parenthesis and ends in a closing one. -/
theorem notMem_argument (hkey : ∀ c ∈ key, isKeyChar c = true) (h : Argument key xs) :
    '(' ∉ xs ∧ xs.getLast? = some ')' := by
  obtain ⟨a, q, b, ha, hq, hb, rfl⟩ := h
  have ha' : '(' ∉ a := notMem_blanks (by decide) ha
  have hb' : '(' ∉ b := notMem_blanks (by decide) hb
  have hkey' : '(' ∉ key := notMem_key hkey (by decide)
  have hq' : '(' ≠ q := by
    rintro rfl
    exact absurd (accepts_quotes.1 hq) (by decide)
  exact ⟨by simp [ha', hb', hkey', hq'], by simp [List.getLast?_append, List.getLast?_cons]⟩

/-- A text begins with at most one argument. -/
theorem argument_unique (hkey : ∀ c ∈ key, isKeyChar c = true)
    (hkey' : ∀ c ∈ key', isKeyChar c = true) (h : Argument key xs) (h' : Argument key' xs')
    (heq : xs ++ rest = xs' ++ rest') : xs = xs' ∧ key = key' := by
  obtain ⟨a, q, b, ha, hq, hb, rfl⟩ := h
  obtain ⟨a', q', b', ha', hq', hb', rfl⟩ := h'
  have hblank : ∀ q, quotes.accepts q = true → isBlank q = false := fun q hq =>
    not_blank_of_sign q (List.mem_cons_of_mem _ (quote_mem_signs hq))
  simp only [List.append_assoc, List.cons_append] at heq
  obtain ⟨rfl, rfl, heq⟩ := append_cons_unique ha ha' (hblank q hq) (hblank q' hq') heq
  obtain ⟨rfl, -, heq⟩ := append_cons_unique hkey hkey'
    (not_key_of_sign q (quote_mem_signs hq)) (not_key_of_sign q (quote_mem_signs hq)) heq
  obtain ⟨rfl, -, -⟩ := append_cons_unique hb hb' (by decide) (by decide)
    (show b ++ ')' :: rest = b' ++ ')' :: rest' by simpa using heq)
  exact ⟨rfl, rfl⟩

end Arguments

/-! ## Calls -/

section Calls

variable {names names' : List (List Char)} {key key' xs xs' rest rest' : List Char}

/-- **A text begins with at most one call**: neither the end of it nor its key is open. -/
theorem callText_unique (hnames : ∀ n ∈ names, BareName n) (hnames' : ∀ n ∈ names', BareName n)
    (hkey : ∀ c ∈ key, isKeyChar c = true) (hkey' : ∀ c ∈ key', isKeyChar c = true)
    (h : CallText names key xs) (h' : CallText names' key' xs')
    (heq : xs ++ rest = xs' ++ rest') : xs = xs' ∧ key = key' := by
  obtain ⟨head, arg, hhead, harg, rfl⟩ := h
  obtain ⟨head', arg', hhead', harg', rfl⟩ := h'
  simp only [List.append_assoc, List.cons_append] at heq
  obtain ⟨rfl, hrest⟩ := cut_unique (notMem_head hnames hhead (by decide))
    (notMem_head hnames' hhead' (by decide)) heq
  obtain ⟨rfl, rfl⟩ := argument_unique hkey hkey' harg harg' hrest
  exact ⟨rfl, rfl⟩

/-- **A call that begins inside of another call is the end of it**, at a place that no name leads up
to: it has the same key, and the last names of the other callee. -/
theorem callText_nested (hnames : ∀ n ∈ names, BareName n) (hnames' : ∀ n ∈ names', BareName n)
    (hkey : ∀ c ∈ key, isKeyChar c = true) (hkey' : ∀ c ∈ key', isKeyChar c = true)
    {as bs : List Char} (hne : as ≠ []) (hb : bs ≠ [])
    (hlast : ∀ c ∈ as.getLast?, isIdentifierContinue c = false)
    (h : CallText names key (as ++ bs)) (h' : CallText names' key' xs')
    (heq : bs ++ rest = xs' ++ rest') :
    bs = xs' ∧ key = key' ∧ ∃ front, front ≠ [] ∧ names = front ++ names' := by
  obtain ⟨head, arg, hhead, harg, hcut⟩ := h
  obtain ⟨head', arg', hhead', harg', rfl⟩ := h'
  rcases append_cases hcut with ⟨us, rfl, rfl⟩ | ⟨us, hus, rfl, hright⟩
  · -- It begins in the head, so the two heads end at the same place.
    have hparen := notMem_head hnames hhead (by decide : '(' ∈ ['(', ')'])
    simp only [List.append_assoc, List.cons_append] at heq
    obtain ⟨rfl, hrest⟩ := cut_unique (fun h => hparen (List.mem_append_right _ h))
      (notMem_head hnames' hhead' (by decide)) heq
    obtain ⟨rfl, rfl⟩ := argument_unique hkey hkey' harg harg' hrest
    exact ⟨rfl, rfl, head_nested hnames hnames' hne hlast hhead hhead'⟩
  · -- It begins in the argument, which is closed before the next parenthesis is opened.
    obtain ⟨u, us, rfl⟩ := List.exists_cons_of_ne_nil hus
    obtain rfl : arg = us ++ bs := (List.cons.inj hright).2
    obtain ⟨hopen, hclose⟩ := notMem_argument hkey harg
    rw [List.getLast?_append_of_ne_nil _ hb] at hclose
    simp only [List.append_assoc, List.cons_append] at heq
    rcases append_cases heq with ⟨ws, rfl, -⟩ | ⟨ws, hws, rfl, hrest⟩
    · have hmem : ')' ∈ bs ++ ws := List.mem_append_left _ (List.mem_of_getLast? hclose)
      exact absurd hmem (notMem_head hnames' hhead' (by decide))
    · obtain ⟨w, ws, rfl⟩ := List.exists_cons_of_ne_nil hws
      obtain ⟨rfl, -⟩ := List.cons.inj hrest
      exact absurd (by simp) hopen

/-- **No call begins inside of another call of the same callee**, at a place that no name leads up
to. -/
theorem callText_separate (hnames : ∀ n ∈ names, BareName n)
    (hkey : ∀ c ∈ key, isKeyChar c = true) {as bs : List Char} (hne : as ≠ []) (hb : bs ≠ [])
    (hlast : ∀ c ∈ as.getLast?, isIdentifierContinue c = false)
    (h : CallText names key (as ++ bs)) (h' : CallText names key xs')
    (heq : bs ++ rest = xs' ++ rest') : False := by
  obtain ⟨-, -, front, hfront, hsame⟩ :=
    callText_nested hnames hnames hkey hkey hne hb hlast h h' heq
  exact hfront (List.self_eq_append_left.1 hsame)

end Calls

end ServiceKeys.Call
