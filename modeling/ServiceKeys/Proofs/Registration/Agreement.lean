import ServiceKeys.Proofs.Registration.Table

/-!
# One relation, read in two directions

The pattern for a key and the pattern for a symbol look for the same thing.  `Registered` says it
without either of them: an entry of the key stands between two offsets, and its body is the symbol but
for blanks.  The pattern for the key matches there with the symbol in its group
(`captures_forward_iff`), and the pattern for the symbol matches there with the key in its group
(`captures_reverse_iff`).  For the key this is read off the entry; for the symbol it hangs on the order
in which the matcher tries its ends, because the group of a reference may take blanks as well
(`preferred_reference`).

Two registrations that overlap are the same (`Entry.eq_of_overlap`), so no key stands for a longer one
that it is part of.  Main statement: `captures_agree`.
-/

namespace ServiceKeys.Registration

open Text Regex Template

/-! ## The relation -/

/-- A key is registered with a symbol between two offsets of a text. -/
def Registered (wrapper key symbol content : List Char) (i stop : Nat) : Prop :=
  ∃ (e : Entry wrapper key content) (c d : List Char), e.start = i ∧ e.stop = stop ∧
    Blanks c ∧ Blanks d ∧ e.body = c ++ (symbol ++ d)

/-- A pattern matches at an offset of a text and stops at another, and its group of the given name
holds a text. -/
def Captures (pattern : Except Template.Fault Pattern) (group : String) (content : List Char) (i stop : Nat)
    (text : List Char) : Prop :=
  ∃ p, pattern = .ok p ∧ ∃ m, matchInside p.body content i = some m ∧ m.stop = stop ∧
    groupNamed p m group = .ok (some text)

/-- A wrapper's template. -/
def Wrapper.template (w : Wrapper) : Template := wrapped w.name w.kind

theorem mem_builtin_iff {t : Template} : t ∈ builtin ↔ ∃ w : Wrapper, t = w.template := by
  rw [← Wrapper.map_all, List.mem_map]
  constructor
  · rintro ⟨w, -, rfl⟩
    exact ⟨w, rfl⟩
  · rintro ⟨w, rfl⟩
    exact ⟨w, by cases w <;> simp [Wrapper.all], rfl⟩

section

variable {w w' : Wrapper} {key key' symbol content text : List Char} {i i' stop stop' : Nat} {m : Match}

theorem captures_ok {p : Pattern} {group : String} {n : Nat}
    (hgroup : ∀ m, groupNamed p m group = .ok (m.group? n)) : Captures (.ok p) group content i stop text ↔
      ∃ m, matchInside p.body content i = some m ∧ m.stop = stop ∧ m.group? n = some text := by
  constructor
  · rintro ⟨_, ⟨⟩, m, hm, hstop, htext⟩
    exact ⟨m, hm, hstop, Except.ok.inj ((hgroup m).symm.trans htext)⟩
  · rintro ⟨m, hm, hstop, htext⟩
    exact ⟨p, rfl, m, hm, hstop, (hgroup m).trans (congrArg Except.ok htext)⟩

theorem captures_forward : Captures (w.template.forward key) "ref" content i stop text ↔
    ∃ m, matchInside (forwardBody w.name.toList key) content i = some m ∧ m.stop = stop ∧
      m.group? 1 = some text := by
  rw [Wrapper.template, forward_wrapped w.name_plain]
  exact captures_ok fun _ => rfl

theorem captures_reverse : Captures (w.template.reverse symbol) "key" content i stop text ↔
    ∃ m, matchInside (reverseBody w.name.toList symbol) content i = some m ∧ m.stop = stop ∧
      m.group? 1 = some text := by
  rw [Wrapper.template, reverse_wrapped w.name_plain]
  exact captures_ok fun _ => rfl

/-! ## Entries that overlap -/

/-- **Entries that overlap are the same**, but for a quote in front of the key: the first has no
parenthesis in its body, so both open and close with the same ones. -/
theorem Entry.eq_of_overlap (e : Entry w.name.toList key content)
    (e' : Entry w'.name.toList key' content) (hkey : KeyText key) (hkey' : KeyText key')
    (hbody : ∀ p ∈ ['(', ')'], p ∉ e.body) (hclose' : ')' ∉ e'.body)
    (hstart : e.start ≤ e'.start) (hstop : e'.start < e.stop) :
    w' = w ∧ key' = key ∧ e'.body = e.body ∧ e'.stop = e.stop := by
  have hsame := e.opening_eq_of_overlap e' hkey hkey' (noParen_of_plain w.name_plain).1
    (noParen_of_plain w'.name_plain) (hbody '(' (by simp)) hstart hstop
  obtain rfl : w' = w := Wrapper.name_injective (e'.wrapper_eq e w'.name_word w.name_word hsame)
  have hcontent := e'.content_eq_opening.symm.trans e.content_eq_opening
  rw [hsame] at hcontent
  have hrest := (List.cons.inj (List.append_cancel_left hcontent)).2
  obtain ⟨hbody', -⟩ := cut_unique hclose' (hbody ')' (by simp)) hrest
  refine ⟨rfl, e'.key_eq e hkey' hkey hsame, hbody', ?_⟩
  rw [e'.stop_eq, e.stop_eq, hsame, hbody']

/-- An entry takes up room. -/
theorem Entry.start_lt_stop (e : Entry w.name.toList key content) : e.start < e.stop := by
  rw [e.stop_eq, start, List.length_append]
  omega

/-! ## The key's pattern -/

/-- The group of a reference takes a name and leaves the blanks behind it: the name is read to its
end, and what may follow it is read reluctantly. -/
theorem preferred_refBody {s : List Char} (hs : BareName s) {front rest : List Char}
    {caps : List (Nat × Capture)} (hrest : ∀ c ∈ rest.head?, isIdentifierContinue c = false) :
    preferred refBody ⟨.between front (s ++ rest), caps⟩ =
      some ⟨.between (front ++ s) rest, caps⟩ := by
  obtain ⟨c, name, rfl, hc, hname⟩ := hs
  have hstart : preferred (.one refStart) ⟨.between front (c :: (name ++ rest)), caps⟩ = _ :=
    preferred_one ((accepts_refStart c).trans hc)
  have hrun : preferred (.span nameChars 0 none .greedy)
      ⟨.between (front ++ [c]) (name ++ rest), caps⟩ =
      some ⟨.between ((front ++ [c]) ++ name) rest, caps⟩ := by
    refine preferred_span ?_ (Nat.zero_le _) ?_
    · intro d hd
      exact (CharSet.accepts_nameChar d).trans (hname d hd)
    · intro d hd
      exact (CharSet.accepts_nameChar d).trans (hrest d hd)
  have hmore : ComesTo [.span (.noneOf [')', '\n', ',']) 0 none .reluctant]
      ⟨.between ((front ++ [c]) ++ name) rest, caps⟩ [] _ := comesTo_cons (preferred_reluctant _ none _)
  rw [List.cons_append, refBody, ((comesTo_cons hstart).trans ((comesTo_cons hrun).trans hmore)
    fits_ofList_nil).2]
  simp [preferred, ofList, ends]

/-- **What is preferred inside of the parentheses**: the name alone, then the blanks. -/
theorem preferred_reference {s d : List Char} (hs : BareName s) (hd : Blanks d)
    {front rest : List Char} {caps : List (Nat × Capture)} {st : State}
    (h : preferred (ofList [.group 1 refBody, blanks, .char ')'])
      ⟨.between front (s ++ (d ++ ')' :: rest)), caps⟩ = some st) :
    ∃ c, st.captures = (1, c) :: caps ∧ c.text = s := by
  have hrest : ∀ c ∈ (d ++ ')' :: rest).head?, isIdentifierContinue c = false := by
    intro c hc
    cases d with
    | nil =>
        obtain rfl : ')' = c := by simpa using hc
        decide
    | cons x d =>
        obtain rfl : x = c := by simpa using hc
        exact not_continue_of_blank (hd x List.mem_cons_self)
  have hgroup := preferred_group 1 refBody ⟨.between front (s ++ (d ++ ')' :: rest)), caps⟩
  rw [preferred_refBody hs hrest, Option.map_some] at hgroup
  have hclose : Fits (ofList [blanks, .char ')']) (State.close
      ⟨.between (front ++ s) (d ++ ')' :: rest), caps⟩ 1 (.between front (s ++ (d ++ ')' :: rest)))) := by
    refine denotes_blanks.fits_cons hd ?_
    exact (denotes_char ')').fits_cons (show [')'] ∈ texts (· = [')']) from rfl) fits_ofList_nil
  rw [((comesTo_cons hgroup) hclose).2] at h
  obtain ⟨_, -, -, hcaptures⟩ := (denotes_close _ _).1 (mem_ends_of_preferred h)
  refine ⟨_, hcaptures, ?_⟩
  exact captureOf_text front s (d ++ ')' :: rest)

/-- An entry whose body is a name between blanks is what the pattern for its key finds there: the match
ends with the entry, and its group holds the name. -/
theorem Entry.forward_match {c s d : List Char} (e : Entry w.name.toList key content)
    (hkey : KeyText key) (hc : Blanks c) (hs : BareName s) (hd : Blanks d)
    (hbody : e.body = c ++ (s ++ d)) :
    ∃ m, matchInside (forwardBody w.name.toList key) content e.start = some m ∧ m.stop = e.stop ∧
      m.group? 1 = some s := by
  obtain ⟨m, hm⟩ := e.exists_forward hc (refText_of_bareName hs) hd hbody
  refine ⟨m, hm, ?_⟩
  have hi : e.start ≤ content.length := by
    conv_rhs => rw [e.content_eq]
    simp [start]
  -- the matcher prefers some end of what stands before the reference
  have hfinal : preferred (forwardBody w.name.toList key) ⟨.inside content e.start, []⟩ =
      some m.final := by
    rw [matchInside, matchAt_false, Option.map_eq_some_iff] at hm
    obtain ⟨st, hst, rfl⟩ := hm
    exact hst
  have hshape : forwardBody w.name.toList key = ofList ((quoteMark :: (keyWord key ++ (quoteMark ::
      blanks :: .char ':' :: blanks :: (w.name.toList.map .char ++ [.char '(', blanks])))) ++
        [.group 1 refBody, blanks, .char ')']) := by
    simp [forwardBody, wrappedBody]
  rw [hshape] at hfinal
  obtain ⟨m₃, hm₃, hlast⟩ := exists_preferred_of_append hfinal
  obtain ⟨m₁, hm₁, hm₃⟩ := mem_ends_ofList_cons.1 hm₃
  obtain ⟨m₂, hm₂, hm₃⟩ := mem_ends_ofList_append.1 hm₃
  obtain ⟨lead, hlead, h₁⟩ := (denotes_quoteMark _ _).1 hm₁
  obtain ⟨hclear, h₂, -⟩ := mem_ends_word.1 hm₂
  obtain ⟨_, ⟨link, c', hlink, hc', rfl⟩, h₃⟩ := (denotes_link w.name.toList _ _).1 hm₃
  obtain ⟨m₄, hm₄, hclose⟩ := mem_ends_ofList_cons.1 (mem_ends_of_preferred hlast)
  obtain ⟨r, hr, h₄, -⟩ := denotes_refBody.mem_ends_group hm₄
  obtain ⟨_, ⟨d', hd', rfl⟩, h₅⟩ := (denotes_close _ _).1 hclose
  -- what it moved over is an entry at the same place, so it has the same body
  obtain ⟨e', hstart, hstop, hbody'⟩ := exists_entry hi hlead hlink h₁.1 hclear h₂.1 h₃.1 h₄ h₅.1
  have hblank : ∀ {b : List Char}, Blanks b → ')' ∉ b := fun hb hmem => absurd (hb _ hmem) (by decide)
  have hparens : ∀ p ∈ ['(', ')'], p ∉ e.body := fun p hp => hbody ▸ notMem_body hc hs hd hp
  obtain ⟨-, -, hsame, hstop'⟩ := e.eq_of_overlap e' hkey hkey hparens
    (by simp [hbody', hblank hc', hr.notMem, hblank hd']) hstart.ge (hstart ▸ e.start_lt_stop)
  refine ⟨hstop.symm.trans hstop', ?_⟩
  -- the blanks in front end where the name begins, so what is left to read is the name
  have hfirst : ∀ {r d : List Char}, RefText r → ∀ x ∈ (r ++ d).head?, isBlank x = false := by
    rintro _ d ⟨x, name, more, hx, -, -, rfl⟩ y hy
    obtain rfl : x = y := by simpa using hy
    exact not_blank_of_continue (isIdentifierContinue_of_start hx)
  have hcut : r ++ d' = s ++ d := by
    rw [hbody', hbody] at hsame
    exact (run_append_unique hc' hc (hfirst hr) (hfirst (refText_of_bareName hs)) hsame).2
  obtain ⟨front, more, hm₃, hcaptures⟩ : ∃ front more, m₃.cursor = .between front more ∧
      m₃.captures = [] := by
    have hover := (h₁.1.append h₂.1).append h₃.1
    rw [Cursor.inside_eq_between hi] at hover
    obtain ⟨more, -, hmore⟩ := Cursor.over_between_iff.1 hover
    exact ⟨_, more, hmore, h₃.2.trans (h₂.2.trans h₁.2)⟩
  have hmore : more = s ++ (d ++ ')' :: m.final.cursor.after) := by
    have hafter := (h₄.append h₅.1).after_eq
    rw [hm₃] at hafter
    rw [← List.append_assoc, ← hcut]
    simpa [Cursor.between] using hafter
  rcases m₃ with ⟨cur, caps⟩
  obtain rfl : cur = .between front more := hm₃
  obtain rfl : caps = [] := hcaptures
  rw [hmore] at hlast
  obtain ⟨capture, hcapture, htext⟩ := preferred_reference hs hd hlast
  rw [Match.group?, State.capture?, hcapture]
  simpa using htext

/-! ## Both directions -/

/-- The pattern for a key finds the symbols that the key is registered with. -/
theorem captures_forward_iff (hkey : KeyText key) (hsymbol : BareName symbol) :
    Captures (w.template.forward key) "ref" content i stop symbol ↔
      Registered w.name.toList key symbol content i stop := by
  rw [captures_forward]
  constructor
  · rintro ⟨m, hm, rfl, hgroup⟩
    have hi := (lt_length_of_matchInside (advances_forwardBody _ _) hm).le
    obtain ⟨e, c, r, d, hstart, hstop, hc, -, hd, hbody, hgroup'⟩ := entry_of_forward hi hm
    obtain rfl : r = symbol := Option.some.inj (hgroup'.symm.trans hgroup)
    exact ⟨e, c, d, hstart, hstop, hc, hd, hbody⟩
  · rintro ⟨e, c, d, rfl, rfl, hc, hd, hbody⟩
    exact e.forward_match hkey hc hsymbol hd hbody

/-- The pattern for a symbol finds the keys that are registered with it. -/
theorem captures_reverse_iff (hkey : KeyText key) (hsymbol : BareName symbol) :
    Captures (w.template.reverse symbol) "key" content i stop key ↔
      Registered w.name.toList key symbol content i stop := by
  rw [captures_reverse]
  constructor
  · rintro ⟨m, hm, rfl, hgroup⟩
    have hi := (lt_length_of_matchInside (advances_reverseBody _ _) hm).le
    obtain ⟨key', e, c, d, -, hstart, hstop, hc, hd, hbody, hgroup'⟩ := entry_of_reverse hi hm
    obtain rfl : key' = key := Option.some.inj (hgroup'.symm.trans hgroup)
    exact ⟨e, c, d, hstart, hstop, hc, hd, hbody⟩
  · rintro ⟨e, c, d, rfl, rfl, hc, hd, hbody⟩
    obtain ⟨m, hm⟩ := e.exists_reverse hkey hc hd hbody
    have hi := (lt_length_of_matchInside (advances_reverseBody _ _) hm).le
    obtain ⟨key', e', c', d', hkey', hstart, hstop, hc', hd', hbody', hgroup⟩ :=
      entry_of_reverse hi hm
    -- the match may not be of this entry, but it is of one at the same place
    obtain ⟨-, rfl, -, hstop'⟩ := e.eq_of_overlap e' hkey hkey'
      (fun p hp => hbody ▸ notMem_body hc hsymbol hd hp)
      (hbody' ▸ notMem_body hc' hsymbol hd' (by simp)) hstart.ge (hstart ▸ e.start_lt_stop)
    exact ⟨m, hm, hstop.symm.trans hstop', hgroup⟩

/-- What the pattern for a key captures inside of a registration is that registration. -/
theorem Registered.eq_of_captures (h : Registered w.name.toList key symbol content i stop)
    (hkey : KeyText key) (hsymbol : BareName symbol) (hkey' : KeyText key')
    (hcaptures : Captures (w'.template.forward key') "ref" content i' stop' text) (hle : i ≤ i')
    (hlt : i' < stop) : w' = w ∧ key' = key ∧ text = symbol ∧ stop' = stop := by
  obtain ⟨e, c, d, rfl, rfl, hc, hd, hbody⟩ := h
  obtain ⟨m, hm, rfl, hgroup⟩ := captures_forward.1 hcaptures
  have hi := (lt_length_of_matchInside (advances_forwardBody _ _) hm).le
  obtain ⟨e', c', r, d', rfl, hstop, hc', hr, hd', hbody', -⟩ := entry_of_forward hi hm
  have hblank : ∀ {b : List Char}, Blanks b → ')' ∉ b := fun hb hmem => absurd (hb _ hmem) (by decide)
  obtain ⟨rfl, rfl, hsame, hstop'⟩ := e.eq_of_overlap e' hkey hkey'
    (fun p hp => hbody ▸ notMem_body hc hsymbol hd hp)
    (by simp [hbody', hblank hc', hr.notMem, hblank hd']) hle hlt
  refine ⟨rfl, rfl, ?_, hstop.symm.trans hstop'⟩
  -- the other entry has the same body, so its group holds the same name
  obtain ⟨m', hm', -, hgroup'⟩ := e'.forward_match hkey' hc hsymbol hd (hsame.trans hbody)
  obtain rfl : m' = m := Option.some.inj (hm'.symm.trans hm)
  exact Option.some.inj (hgroup.symm.trans hgroup')

end

/-- **The patterns of a built-in template are two views of one relation.**  Both can be read.  The
pattern for a symbol matches between two offsets and captures a key if and only if the pattern for the
key matches there and captures the symbol.  And whatever any of the built-in patterns for a key
captures from a place inside of that registration is the same registration, so a place bears at most
one of them, and no key stands for a longer one. -/
theorem captures_agree {t : Template} (ht : t ∈ builtin) {key symbol : List Char} (hkey : KeyText key)
    (hsymbol : BareName symbol) (content : List Char) (i stop : Nat) :
    (∃ p, t.forward key = .ok p) ∧ (∃ p, t.reverse symbol = .ok p) ∧
    (Captures (t.reverse symbol) "key" content i stop key ↔
      Captures (t.forward key) "ref" content i stop symbol) ∧
    ∀ t' ∈ builtin, ∀ key' text i' stop', KeyText key' →
      Captures (t.forward key) "ref" content i stop symbol →
      Captures (t'.forward key') "ref" content i' stop' text → i ≤ i' → i' < stop →
      t' = t ∧ key' = key ∧ text = symbol ∧ stop' = stop := by
  obtain ⟨w, rfl⟩ := mem_builtin_iff.1 ht
  refine ⟨⟨_, forward_wrapped w.name_plain key⟩, ⟨_, reverse_wrapped w.name_plain symbol⟩, ?_, ?_⟩
  · rw [captures_reverse_iff hkey hsymbol, captures_forward_iff hkey hsymbol]
  · intro t' ht' key' text i' stop' hkey' hcaptures hcaptures' hle hlt
    obtain ⟨w', rfl⟩ := mem_builtin_iff.1 ht'
    have hregistered := (captures_forward_iff hkey hsymbol).1 hcaptures
    obtain ⟨rfl, hrest⟩ := hregistered.eq_of_captures hkey hsymbol hkey' hcaptures' hle hlt
    exact ⟨rfl, hrest⟩

/-- A key whose last part is registered as well. -/
def sampleContent : List Char :=
  "\x7b 'billing.charge' : asFunction( charge ), charge: asClass(Charge) \x7d".toList

/-- A registration with blanks in all places that may have them. -/
def sampleEntry : Entry "asFunction".toList "billing.charge".toList sampleContent where
  front := "\x7b ".toList
  lead := ['\x27']
  link := "' : asFunction".toList
  body := " charge ".toList
  rest := ", charge: asClass(Charge) \x7d".toList
  quoted := Or.inr ⟨'\x27', by simp, rfl⟩
  linked := ⟨['\x27'], [' '], [' '], Or.inr ⟨'\x27', by simp, rfl⟩, by simp [Blanks]; decide,
    by simp [Blanks]; decide, rfl⟩
  whole := by
    intro c hc
    obtain rfl : '\x27' = c := by simpa using hc
    decide
  content_eq := by decide

theorem captures_agree_sample :
    KeyText "billing.charge".toList ∧ KeyText "charge".toList ∧ BareName "charge".toList ∧
    Captures (Wrapper.asFunction.template.reverse "charge".toList) "key" sampleContent
      2 41 "billing.charge".toList ∧
    ∀ t ∈ builtin, ∀ text stop, ¬ Captures (t.forward "charge".toList) "ref" sampleContent 11
      stop text := by
  have hkey : KeyText "billing.charge".toList :=
    ⟨'b', by decide, Or.inr ⟨"illing.charg".toList, 'e', by decide, by decide, rfl⟩⟩
  have hkey' : KeyText "charge".toList :=
    ⟨'c', by decide, Or.inr ⟨"harg".toList, 'e', by decide, by decide, rfl⟩⟩
  have hsymbol : BareName "charge".toList := ⟨'c', "harge".toList, rfl, by decide, by decide⟩
  have hblank : Blanks [' '] := by simp [Blanks]; decide
  have hforward : Captures (Wrapper.asFunction.template.forward "billing.charge".toList) "ref" _ 2 41
      "charge".toList :=
    (captures_forward_iff hkey hsymbol).2
      ⟨sampleEntry, [' '], [' '], by decide, by decide, hblank, hblank, by decide⟩
  obtain ⟨-, -, hviews, honly⟩ := captures_agree (mem_builtin_iff.2 ⟨.asFunction, rfl⟩) hkey hsymbol
    sampleContent 2 41
  refine ⟨hkey, hkey', hsymbol, hviews.2 hforward, ?_⟩
  intro t ht text stop hcaptures
  have hsame := (honly t ht _ text 11 stop hkey' hforward hcaptures (by decide) (by decide)).2.1
  exact absurd hsame (by decide)

end ServiceKeys.Registration
