import ServiceKeys.Proofs.Registration.Entry
import ServiceKeys.Proofs.Lookup.Outcome

/-!
# The two directions of a registration

What the two extractions of wrapped templates return, and how they go together.  Neither fails, and
what they return is read off the matches in the text (`exists_forward`, `exists_reverse`).  Then:

* if a key is registered with a bare identifier, looking that identifier up finds the key, whatever
  else stands in the text (`mem_reverse_of_forward`);
* if looking symbols up finds a key whose only registration is a bare identifier, that identifier is
  one of the symbols (`reference_mem_of_reverse`).

In both, the match that is looked for exists at the place of the entry; the search may report another
one that covers the place, but that one has the same key and the same body.
-/

namespace ServiceKeys.Registration

open Text Regex Template

/-! ## What the extractions return -/

/-- A template that wraps its reference in a plain word. -/
def Wrapped (t : Template) : Prop :=
  ∃ wrapper kind, t = wrapped wrapper kind ∧ ∀ c ∈ wrapper.toList, isSpecial c = false

theorem wrapped_of_mem_builtin {t : Template} (h : t ∈ builtin) : Wrapped t := by
  simp only [builtin, List.mem_cons, List.not_mem_nil, or_false] at h
  rcases h with rfl | rfl | rfl
  · exact ⟨_, _, rfl, by decide⟩
  · exact ⟨_, _, rfl, by decide⟩
  · exact ⟨_, _, rfl, by decide⟩

section Wrapper

variable {wrapper : String} {content : List Char}

theorem trim_refText_ne_nil {cs : List Char} (h : RefText cs) : trim cs ≠ [] := by
  obtain ⟨c, name, more, hc, -, -, rfl⟩ := h
  exact trim_ne_nil List.mem_cons_self (not_blank_of_continue (isIdentifierContinue_of_start hc))

/-- What a reported match for a key says. -/
theorem refText_of_mem_forward {wrapper key : List Char} {m : Match}
    (h : m ∈ findAll (forwardBody wrapper key) content) :
    ∃ r, RefText r ∧ m.group? 1 = some r := by
  obtain ⟨j, hj, hm⟩ := matchInside_of_mem_findAll (advances_forwardBody _ _) h
  obtain ⟨-, -, r, -, -, -, -, hr, -, -, hgroup⟩ := entry_of_forward hj hm
  exact ⟨r, hr, hgroup⟩

/-- What a reported match for a symbol says. -/
theorem keyText_of_mem_reverse {wrapper symbol : List Char} {m : Match}
    (h : m ∈ findAll (reverseBody wrapper symbol) content) :
    ∃ key, KeyText key ∧ m.group? 1 = some key := by
  obtain ⟨j, hj, hm⟩ := matchInside_of_mem_findAll (advances_reverseBody _ _) h
  obtain ⟨key, -, -, -, hkey, -, -, -, -, -, hgroup⟩ := entry_of_reverse hj hm
  exact ⟨key, hkey, hgroup⟩

/-- The registrations of a key by a wrapped template, one for each match. -/
theorem forwardWith_wrapped (hwrapper : ∀ c ∈ wrapper.toList, isSpecial c = false)
    (kind : String) (content : List Char) (key : String) :
    forwardWith (wrapped wrapper kind) content key =
      .ok ((findAll (forwardBody wrapper.toList key.toList) content).map fun m =>
        ⟨key, String.ofList (trim ((m.group? 1).getD [])), kind⟩) := by
  have hmatch : (findAll (forwardBody wrapper.toList key.toList) content).mapM
      (ofMatch (wrapped wrapper kind) key ⟨forwardBody wrapper.toList key.toList, [("ref", 1)]⟩) =
      .ok ((findAll (forwardBody wrapper.toList key.toList) content).map fun m =>
        some ⟨key, String.ofList (trim ((m.group? 1).getD [])), kind⟩) := by
    refine mapM_eq_ok_iff.2 (List.forall₂_map_right_iff.2 (List.forall₂_same.2 ?_))
    intro m hm
    obtain ⟨text, htext, hgroup⟩ := refText_of_mem_forward hm
    have hindex : groupNamed ⟨forwardBody wrapper.toList key.toList, [("ref", 1)]⟩ m "ref" =
        .ok (m.group? 1) := rfl
    have hne : (trim text).isEmpty = false :=
      List.isEmpty_eq_false_iff.2 (trim_refText_ne_nil htext)
    simp only [ofMatch, hindex, hgroup]
    show Except.ok (if (trim text).isEmpty then none else some _) = _
    rw [hne]
    rfl
  rw [forwardWith, forward_wrapped hwrapper]
  show ((findAll (forwardBody wrapper.toList key.toList) content).mapM _ >>= fun found =>
    .ok (found.filterMap id) : Extraction (List Registration)) = _
  rw [hmatch]
  refine congrArg Except.ok ?_
  rw [List.filterMap_map, ← List.filterMap_eq_map]
  rfl

/-- The registrations of a key by the built-in templates, by template and then by place. -/
theorem forward_builtin (content : List Char) (key : String) :
    forward builtin content key =
      .ok ([("asFunction", "function"), ("asClass", "class"), ("asValue", "value")].flatMap
        fun (wrapper, kind) => (findAll (forwardBody wrapper.toList key.toList) content).map fun m =>
          ⟨key, String.ofList (trim ((m.group? 1).getD [])), kind⟩) := by
  have hfunction : ∀ c ∈ "asFunction".toList, isSpecial c = false := by decide
  have hclass : ∀ c ∈ "asClass".toList, isSpecial c = false := by decide
  have hvalue : ∀ c ∈ "asValue".toList, isSpecial c = false := by decide
  rw [forward, builtin, List.mapM_cons, List.mapM_cons, List.mapM_cons, List.mapM_nil,
    forwardWith_wrapped hfunction, forwardWith_wrapped hclass, forwardWith_wrapped hvalue]
  rfl

/-- The keys of a symbol by a wrapped template, one for each match. -/
theorem reverseWith_wrapped (hwrapper : ∀ c ∈ wrapper.toList, isSpecial c = false)
    (kind : String) (content : List Char) (symbol : String) :
    reverseWith (wrapped wrapper kind) content symbol =
      .ok ((findAll (reverseBody wrapper.toList symbol.toList) content).map fun m =>
        (m.group? 1).map String.ofList) := by
  rw [reverseWith, reverse_wrapped hwrapper]
  exact mapM_eq_ok_iff.2 (List.forall₂_map_right_iff.2 (List.forall₂_same.2 fun _ _ => rfl))

end Wrapper

/-- A template finds a registration of a key in a text: it has a match whose group holds the
reference, but for blanks around it. -/
def FindsReference (t : Template) (content : List Char) (key : String) (r : Registration) : Prop :=
  ∃ wrapper kind, t = wrapped wrapper kind ∧ (∀ c ∈ wrapper.toList, isSpecial c = false) ∧
    ∃ m ∈ findAll (forwardBody wrapper.toList key.toList) content,
      ∃ text, m.group? 1 = some text ∧ r = ⟨key, String.ofList (trim text), kind⟩

/-- A template finds a key of a symbol in a text: it has a match whose group holds the key. -/
def FindsKey (t : Template) (content : List Char) (symbol : String) (o : Option String) : Prop :=
  ∃ wrapper kind, t = wrapped wrapper kind ∧ (∀ c ∈ wrapper.toList, isSpecial c = false) ∧
    ∃ m ∈ findAll (reverseBody wrapper.toList symbol.toList) content,
      ∃ key, m.group? 1 = some key ∧ o = some (String.ofList key)

/-- What a wrapped template reads off its matches.  One template may be wrapped in two ways, but what it
finds is the same. -/
theorem exists_found {α : Type} (read : Template → Extraction (List α))
    (value : String → Option (List Char) → α) {hits : String → List Match}
    (hread : ∀ wrapper kind, (∀ c ∈ wrapper.toList, isSpecial c = false) →
      read (wrapped wrapper kind) = .ok ((hits wrapper).map fun m => value kind (m.group? 1)))
    (hgroup : ∀ wrapper, ∀ m ∈ hits wrapper, ∃ text, m.group? 1 = some text)
    {t : Template} (h : Wrapped t) :
    ∃ found, read t = .ok found ∧ ∀ r, r ∈ found ↔ ∃ wrapper kind, t = wrapped wrapper kind ∧
      (∀ c ∈ wrapper.toList, isSpecial c = false) ∧
      ∃ m ∈ hits wrapper, ∃ text, m.group? 1 = some text ∧ r = value kind (some text) := by
  obtain ⟨wrapper, kind, rfl, hwrapper⟩ := h
  have hfound := hread wrapper kind hwrapper
  refine ⟨_, hfound, fun r => ⟨?_, ?_⟩⟩
  · intro hr
    obtain ⟨m, hm, rfl⟩ := List.mem_map.1 hr
    obtain ⟨text, htext⟩ := hgroup wrapper m hm
    exact ⟨wrapper, kind, rfl, hwrapper, m, hm, text, htext, by rw [htext]⟩
  · rintro ⟨wrapper', kind', heq, hwrapper', m, hm, text, htext, rfl⟩
    rw [heq, hread wrapper' kind' hwrapper'] at hfound
    rw [← Except.ok.inj hfound]
    exact List.mem_map.2 ⟨m, hm, by rw [htext]⟩

theorem exists_forwardWith {t : Template} (h : Wrapped t) (content : List Char) (key : String) :
    ∃ found, forwardWith t content key = .ok found ∧
      ∀ r, r ∈ found ↔ FindsReference t content key r := by
  refine exists_found (forwardWith · content key)
    (fun kind text => ⟨key, String.ofList (trim (text.getD [])), kind⟩)
    (fun wrapper kind hwrapper => forwardWith_wrapped hwrapper kind content key) (fun wrapper m hm => ?_) h
  obtain ⟨text, -, hgroup⟩ := refText_of_mem_forward hm
  exact ⟨text, hgroup⟩

theorem exists_reverseWith {t : Template} (h : Wrapped t) (content : List Char) (symbol : String) :
    ∃ found, reverseWith t content symbol = .ok found ∧
      ∀ o, o ∈ found ↔ FindsKey t content symbol o := by
  refine exists_found (reverseWith · content symbol) (fun _ key => key.map String.ofList)
    (fun wrapper kind hwrapper => reverseWith_wrapped hwrapper kind content symbol) (fun wrapper m hm => ?_) h
  obtain ⟨key, -, hgroup⟩ := keyText_of_mem_reverse hm
  exact ⟨key, hgroup⟩

theorem noParen_of_plain {cs : List Char} (h : ∀ c ∈ cs, isSpecial c = false) :
    '(' ∉ cs ∧ ')' ∉ cs :=
  ⟨fun hmem => absurd (h _ hmem) (by decide), fun hmem => absurd (h _ hmem) (by decide)⟩

section Templates

variable {templates : List Template} {content : List Char}

/-- **The registrations of a key** by wrapped templates: there is always a list of them, and it holds
what the templates find. -/
theorem exists_forward (h : ∀ t ∈ templates, Wrapped t) (content : List Char) (key : String) :
    ∃ found, forward templates content key = .ok found ∧
      ∀ r, r ∈ found ↔ ∃ t ∈ templates, FindsReference t content key r := by
  obtain ⟨found, hfound, hmem⟩ :=
    exists_mapM_flatten fun t ht => exists_forwardWith (h t ht) content key
  exact ⟨found.flatten, by rw [forward, hfound]; rfl, hmem⟩

/-- **The keys of symbols** by wrapped templates: there is always a list of them, and it holds what
the templates find for any of the symbols. -/
theorem exists_reverse (h : ∀ t ∈ templates, Wrapped t) (content : List Char)
    (symbols : List String) :
    ∃ found, reverse templates content symbols = .ok found ∧
      ∀ o, o ∈ found ↔ ∃ t ∈ templates, ∃ s ∈ symbols, FindsKey t content s o := by
  -- the keys that one template finds, symbol by symbol
  have htemplate : ∀ t ∈ templates, ∃ keys, (do
      return (← (distinct symbols).mapM fun s => reverseWith t content s).flatten :
        Extraction (List (Option String))) = .ok keys ∧
      ∀ o, o ∈ keys ↔ ∃ s ∈ symbols, FindsKey t content s o := by
    intro t ht
    have hsymbol : ∀ s ∈ distinct symbols, ∃ keys, reverseWith t content s = .ok keys ∧ _ :=
      fun s _ => exists_reverseWith (h t ht) content s
    obtain ⟨keys, hkeys, hmem⟩ := exists_mapM_flatten hsymbol
    refine ⟨keys.flatten, by rw [hkeys]; rfl, ?_⟩
    intro o
    rw [hmem]
    simp only [mem_distinct]
  obtain ⟨found, hfound, hmem⟩ := exists_mapM_flatten htemplate
  refine ⟨distinct found.flatten, ?_, ?_⟩
  · show (templates.mapM _ >>= _) = _
    rw [hfound]
    rfl
  · intro o
    rw [mem_distinct, hmem]

/-! ## From one direction to the other -/

theorem notMem_body {c s d : List Char} (hc : Blanks c) (hs : BareName s) (hd : Blanks d) {p : Char}
    (hp : p ∈ ['(', ')']) : p ∉ c ++ (s ++ d) := by
  have hnot : isBlank p = false ∧ isIdentifierContinue p = false := by
    rcases List.mem_pair.1 hp with rfl | rfl <;> decide
  simp only [List.mem_append, not_or]
  refine ⟨?_, ?_, ?_⟩
  · intro h
    simp [hc p h] at hnot
  · intro h
    simp [hs.isIdentifierContinue p h] at hnot
  · intro h
    simp [hd p h] at hnot

/-- A bare name between blanks can be read in one way only. -/
theorem bareName_unique {c s d c' s' d' : List Char} (hc : Blanks c) (hs : BareName s)
    (hd : Blanks d) (hc' : Blanks c') (hs' : BareName s') (hd' : Blanks d')
    (h : c ++ (s ++ d) = c' ++ (s' ++ d')) : s = s' := by
  have hlast : ∀ {s : List Char}, BareName s → ∀ x ∈ s.getLast?, isBlank x = false :=
    fun hs x hx => not_blank_of_continue (hs.isIdentifierContinue x (List.mem_of_getLast? hx))
  have hfirst : ∀ {x : Char}, isIdentifierStart x = true → isBlank x = false :=
    fun hx => not_blank_of_continue (isIdentifierContinue_of_start hx)
  obtain ⟨x, rest, hx, hstart, -⟩ := id hs
  obtain ⟨x', rest', hx', hstart', -⟩ := id hs'
  have hcut : s ++ d = s' ++ d' := by
    rw [hx, hx', List.cons_append, List.cons_append] at h ⊢
    obtain ⟨-, rfl, hrest⟩ := append_cons_unique hc hc' (hfirst hstart) (hfirst hstart') h
    rw [hrest]
  exact (append_run_unique hd hd' (hlast hs) (hlast hs') hcut).1

/-- What is in front of a trimmed text and behind it is more blanks. -/
theorem exists_blanks_around_trim {c r d : List Char} (hc : Blanks c) (hd : Blanks d) :
    ∃ a b, Blanks a ∧ Blanks b ∧ c ++ (r ++ d) = a ++ (trim r ++ b) := by
  obtain ⟨a, b, ha, hb, htrim⟩ := trim_append r
  refine ⟨c ++ a, b ++ d, hc.append ha, hb.append hd, ?_⟩
  conv_lhs => rw [htrim]
  simp

/-- **Looking the reference of a key up finds the key.**  If a key is registered with a bare
identifier, then it is among the keys of that identifier. -/
theorem mem_reverse_of_forward (h : ∀ t ∈ templates, Wrapped t) {key : String}
    (hkey : KeyText key.toList) {found : List Registration} {r : Registration}
    (hfound : forward templates content key = .ok found) (hr : r ∈ found)
    (hreference : isIdentifier r.reference.toList = true) {symbols : List String}
    (hsymbol : r.reference ∈ symbols) {keys : List (Option String)}
    (hkeys : reverse templates content symbols = .ok keys) : some key ∈ keys := by
  obtain ⟨found', hfound', hmem⟩ := exists_forward h content key
  obtain ⟨keys', hkeys', hmem'⟩ := exists_reverse h content symbols
  obtain rfl : found' = found := Except.ok.inj (hfound'.symm.trans hfound)
  obtain rfl : keys' = keys := Except.ok.inj (hkeys'.symm.trans hkeys)
  obtain ⟨t, ht, wrapper, kind, rfl, hwrapper, m, hm, text, hgroup, rfl⟩ := (hmem r).1 hr
  obtain ⟨j, hj, hmatch⟩ := matchInside_of_mem_findAll (advances_forwardBody _ _) hm
  obtain ⟨e, c, text', d, rfl, -, hc, -, hd, hbody, hgroup'⟩ := entry_of_forward hj hmatch
  obtain rfl : text' = text := Option.some.inj (hgroup'.symm.trans hgroup)
  -- the body is the reference between blanks, so the pattern for the reference matches here as well
  have hname : BareName (trim text') := bareName_trim (by simpa using hreference)
  obtain ⟨a, b, ha, hb, hbody'⟩ := exists_blanks_around_trim (r := text') hc hd
  obtain ⟨m', hm'⟩ := e.exists_reverse hkey ha hb (hbody.trans hbody')
  -- what is reported may begin earlier, but then it is an entry that this one begins inside of
  obtain ⟨m₀, hm₀, i, hij, hmatch₀, hstop⟩ :=
    exists_mem_findAll_around (advances_reverseBody _ _) hj hm'
  obtain ⟨key₀, e₀, c₀, d₀, hkey₀, hstart₀, hstop₀, hc₀, hd₀, hbody₀, hgroup₀⟩ :=
    entry_of_reverse (hij.trans hj) hmatch₀
  have hparen : '(' ∉ e₀.body := hbody₀ ▸ notMem_body hc₀ hname hd₀ (by simp)
  obtain ⟨rfl, -⟩ := e₀.same_key e hkey₀ hkey (noParen_of_plain hwrapper) hparen (hstart₀ ▸ hij)
    (hstop₀ ▸ hstop)
  refine (hmem' _).2 ⟨_, ht, _, hsymbol, wrapper, kind, rfl, hwrapper, m₀, ?_, _, hgroup₀, by simp⟩
  simpa using hm₀

/-- **A key of a symbol that is registered once is registered with the symbol.**  If symbols are bare
names, a key is among their keys, and its only registration is a bare name, then that name is one of
the symbols. -/
theorem reference_mem_of_reverse (h : ∀ t ∈ templates, Wrapped t) {symbols : List String}
    (hsymbols : ∀ s ∈ symbols, BareName s.toList) {keys : List (Option String)} {key : String}
    (hkeys : reverse templates content symbols = .ok keys) (hkey : some key ∈ keys)
    {r : Registration} (hfound : forward templates content key = .ok [r])
    (hreference : BareName r.reference.toList) : r.reference ∈ symbols := by
  obtain ⟨found', hfound', hmem⟩ := exists_forward h content key
  obtain ⟨keys', hkeys', hmem'⟩ := exists_reverse h content symbols
  obtain rfl : found' = [r] := Except.ok.inj (hfound'.symm.trans hfound)
  obtain rfl : keys' = keys := Except.ok.inj (hkeys'.symm.trans hkeys)
  obtain ⟨t, ht, s, hs, wrapper, kind, rfl, hwrapper, m, hm, k, hgroup, hk⟩ := (hmem' _).1 hkey
  obtain rfl : key = String.ofList k := Option.some.inj hk
  obtain ⟨j, hj, hmatch⟩ := matchInside_of_mem_findAll (advances_reverseBody _ _) hm
  obtain ⟨k', e, c, d, hkeyText, rfl, -, hc, hd, hbody, hgroup'⟩ := entry_of_reverse hj hmatch
  obtain rfl : k' = k := Option.some.inj (hgroup'.symm.trans hgroup)
  obtain ⟨m', hm'⟩ := e.exists_forward hc (refText_of_bareName (hsymbols s hs)) hd hbody
  obtain ⟨m₀, hm₀, i, hij, hmatch₀, hstop⟩ :=
    exists_mem_findAll_around (advances_forwardBody _ _) hj hm'
  obtain ⟨e₀, c₀, r₀, d₀, hstart₀, hstop₀, hc₀, -, hd₀, hbody₀, hgroup₀⟩ :=
    entry_of_forward (hij.trans hj) hmatch₀
  -- the match that is reported is the only registration
  obtain rfl : ⟨String.ofList k', String.ofList (trim r₀), kind⟩ = r := by
    refine List.mem_singleton.1 ((hmem _).2 ⟨_, ht, wrapper, kind, rfl, hwrapper, m₀, ?_, r₀, hgroup₀,
      rfl⟩)
    simpa using hm₀
  have hname : BareName (trim r₀) := by simpa using hreference
  obtain ⟨a, b, ha, hb, hcut⟩ := exists_blanks_around_trim (r := r₀) hc₀ hd₀
  have hbody₀' : e₀.body = a ++ (trim r₀ ++ b) := hbody₀.trans hcut
  have hparens : ∀ p ∈ ['(', ')'], p ∉ e₀.body := by
    intro p hp
    rw [hbody₀']
    exact notMem_body ha hname hb hp
  obtain ⟨-, hrest⟩ := e₀.same_key e hkeyText hkeyText (noParen_of_plain hwrapper)
    (hparens '(' (by simp)) (hstart₀ ▸ hij) (hstop₀ ▸ hstop)
  -- both bodies end at the first closing parenthesis
  have hclose : ')' ∉ e.body := hbody ▸ notMem_body hc (hsymbols s hs) hd (by simp)
  obtain ⟨hsame, -⟩ := cut_unique (hparens ')' (by simp)) hclose hrest
  have heq : trim r₀ = s.toList :=
    bareName_unique ha hname hb hc (hsymbols s hs) hd (hbody₀'.symm.trans (hsame.trans hbody))
  simpa [heq] using hs

end Templates

end ServiceKeys.Registration
