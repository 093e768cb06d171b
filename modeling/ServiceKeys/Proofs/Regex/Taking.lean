import ServiceKeys.Proofs.Regex.Reading

/-!
# Looking no further

A part of the reader takes some tokens and leaves everything else that is known alone.  What it gives
is decided by the tokens that it takes, and at most by the token that comes next: `Local` says so, and
says it in a form that two parts in a row inherit.  Two kinds of parts are told apart.  A part that is
`Blind` does not look beyond what it takes; a part that is `Peeking` may look at the next token, and
then it never ends in a closing parenthesis.
-/

namespace ServiceKeys.Regex

open Reader

section

variable {α β : Type} {st st' st₂ : Progress} {t : Token} {used ts : List Token} {a : α} {b : β}

/-! ## The reader monad, backwards -/

theorem bind_eq_ok {r : Reader α} {f : α → Reader β} :
    (r >>= f) st = .ok (b, st') ↔ ∃ a mid, r st = .ok (a, mid) ∧ f a mid = .ok (b, st') := by
  show Except.bind (r st) _ = _ ↔ _
  cases r st with
  | error e => simp [Except.bind]
  | ok p => exact ⟨fun h => ⟨p.1, p.2, rfl, h⟩, fun ⟨a, mid, hp, h⟩ => by cases hp; exact h⟩

theorem pure_eq_ok {a b : α} : (pure a : Reader α) st = .ok (b, st') ↔ a = b ∧ st = st' := by
  show Except.ok (a, st) = .ok (b, st') ↔ _
  simp

theorem peek_self : peek st = .ok (st.rest.head?, st) := rfl

theorem take_nil (h : st.rest = []) : take st = .ok (none, st) := by
  obtain ⟨rest, o⟩ := st
  obtain rfl : rest = [] := h
  rfl

theorem take_eq_ok {o : Option Token} (h : take st = .ok (o, st')) :
    (o = none ∧ st.rest = [] ∧ st' = st) ∨
    ∃ t ts, o = some t ∧ st.rest = t :: ts ∧ Whole ts ∧ st' = st.facing ts (st.offset + t.width) := by
  cases hrest : st.rest with
  | nil =>
      rw [take_nil hrest] at h
      cases h
      exact Or.inl ⟨rfl, rfl, rfl⟩
  | cons t ts =>
      have hst : st = st.facing (t :: ts) st.offset := by rw [← hrest]; rfl
      rw [hst] at h
      by_cases hts : Whole ts
      · rw [take_facing hts] at h
        cases h
        exact Or.inr ⟨t, ts, rfl, rfl, hts, rfl⟩
      · have hhead : (ts.head? == some .dangling) = true := by simpa [Whole] using hts
        have hthrow : take (st.facing (t :: ts) st.offset) =
            .error ⟨.danglingEscape, some (st.offset + t.width)⟩ := by
          show (if ts.head? == some .dangling then (throw _ : Reader (Option Token)) else _) _ = _
          rw [hhead]
          rfl
        rw [hthrow] at h
        cases h

theorem accept_eq_ok {c : Char} {b : Bool} (h : accept c st = .ok (b, st')) :
    (b = true ∧ ∃ ts, st.rest = .plain c :: ts ∧ Whole ts ∧ st' = st.facing ts (st.offset + 1)) ∨
    (b = false ∧ st.rest.head? ≠ some (.plain c) ∧ st' = st) := by
  rw [accept, bind_of_ok peek_self] at h
  split at h
  · rename_i hhead
    obtain ⟨o, mid, htake, h⟩ := bind_eq_ok.1 h
    obtain ⟨rfl, rfl⟩ := pure_eq_ok.1 h
    rcases take_eq_ok htake with ⟨-, hnil, -⟩ | ⟨t, ts, -, hrest, hts, rfl⟩
    · simp [hnil] at hhead
    · obtain rfl : t = .plain c := by simpa [hrest] using hhead
      exact Or.inl ⟨rfl, ts, hrest, hts, rfl⟩
  · rename_i hhead
    obtain ⟨rfl, rfl⟩ := pure_eq_ok.1 h
    exact Or.inr ⟨rfl, by simpa using hhead, rfl⟩

/-! ## Taking -/

/-- A stray backslash comes, but not next. -/
structure Stray (ts : List Token) : Prop where
  whole : Whole ts
  comes : .dangling ∈ ts

theorem Stray.of_cons (h : Stray (t :: ts)) (hts : Whole ts) : Stray ts := by
  refine ⟨hts, (List.mem_cons.1 h.comes).resolve_left ?_⟩
  rintro rfl
  exact h.whole rfl

/-- Some tokens have been taken and nothing else is changed.  A stray backslash is never taken. -/
structure Took (st : Progress) (used : List Token) (st' : Progress) : Prop where
  rest : st.rest = used ++ st'.rest
  frame : st' = st.facing st'.rest st'.offset
  stray : Stray st.rest → Stray st'.rest

theorem Took.refl (st : Progress) : Took st [] st := ⟨rfl, rfl, id⟩

theorem took_cons {o : Nat} (hts : Whole ts) (h : st.rest = t :: ts) : Took st [t] (st.facing ts o) :=
  ⟨h, rfl, fun hstray => (h ▸ hstray).of_cons hts⟩

theorem Took.trans {mid : Progress} {more : List Token} (h : Took st used mid) (h' : Took mid more st') :
    Took st (used ++ more) st' := by
  refine ⟨by rw [h.rest, h'.rest, List.append_assoc], ?_, fun hstray => h'.stray (h.stray hstray)⟩
  rw [h'.frame, h.frame]
  rfl

/-- Where the tokens `used ++ ts` come next, a reader takes `used` and gives `a`. -/
def Takes (r : Reader α) (st : Progress) (used ts : List Token) (a : α) : Prop :=
  ∀ o, ∃ o', r (st.facing (used ++ ts) o) = .ok (a, st.facing ts o')

theorem takes_pure (a : α) : Takes (pure a) st [] ts a := fun o => ⟨o, rfl⟩

theorem Takes.bind {r : Reader α} {f : α → Reader β} {more : List Token}
    (h : Takes r st used (more ++ ts) a) (h' : Takes (f a) st more ts b) :
    Takes (r >>= f) st (used ++ more) ts b := by
  intro o
  obtain ⟨mid, hr⟩ := h o
  obtain ⟨o', hf⟩ := h' mid
  exact ⟨o', by rw [List.append_assoc, bind_of_ok hr, hf]⟩

/-- What is done with the result takes nothing. -/
theorem Takes.bind_pure {r : Reader α} (h : Takes r st used ts a) (g : α → β) :
    Takes (r >>= fun a => pure (g a)) st used ts (g a) := by
  intro o
  obtain ⟨o', hr⟩ := h o
  exact ⟨o', by rw [bind_of_ok hr]; rfl⟩

theorem takes_take (hts : Whole ts) : Takes take st [t] ts (some t) := fun _ => ⟨_, take_facing hts⟩

theorem takes_accept {c : Char} (hts : Whole ts) : Takes (accept c) st [.plain c] ts true :=
  fun _ => ⟨_, accept_facing hts⟩

theorem takes_accept_ne {c : Char} (h : ts.head? ≠ some (.plain c)) : Takes (accept c) st [] ts false :=
  fun o => ⟨o, accept_facing_ne h⟩

/-! ## Looking no further -/

/-- The same token comes next. -/
def SameHead (ts ts' : List Token) : Prop := ts.head? = ts'.head?

/-- Nothing is asked of what comes next, except that it is no stray backslash. -/
def Blindly (ts ts' : List Token) : Prop := Whole ts → Whole ts'

theorem SameHead.blindly {ts' : List Token} (h : SameHead ts ts') : Blindly ts ts' := by
  intro hts
  rw [Whole, ← h]
  exact hts

theorem SameHead.prepend {ts' : List Token} (h : SameHead ts ts') (us : List Token) :
    SameHead (us ++ ts) (us ++ ts') := by
  cases us with
  | nil => exact h
  | cons u us => rfl

theorem sameHead_append {us : List Token} (h : us ≠ []) (ts ts' : List Token) :
    SameHead (us ++ ts) (us ++ ts') := by
  cases us with
  | nil => exact absurd rfl h
  | cons u us => rfl

theorem Blindly.prepend {ts' : List Token} (h : Blindly ts ts') (us : List Token) :
    Blindly (us ++ ts) (us ++ ts') := by
  cases us with
  | nil => exact h
  | cons u us => exact (sameHead_append (List.cons_ne_nil u us) ts ts').blindly

/-- What a reader does is decided by the tokens that it takes, which are `ok`, and by as much of what
comes after them as `same` compares.  The second reader is the first one with other fuel: any amount
does that is above the number of tokens taken. -/
def Local (ok : Token → Prop) (same : List Token → List Token → Prop) (r : Reader α)
    (r' : Nat → Reader α) : Prop :=
  ∀ ⦃st a st'⦄, r st = .ok (a, st') → ∃ used, Took st used st' ∧ (∀ t ∈ used, ok t) ∧
    ∀ ⦃m ts st₂⦄, used.length < m → same st'.rest ts → Takes (r' m) st₂ used ts a

/-- A reader that looks at the next token at most, and takes no closing parenthesis. -/
abbrev Peeking (r : Reader α) (r' : Nat → Reader α) : Prop := Local (· ≠ .plain ')') SameHead r r'

/-- A reader that does not look at anything that it does not take. -/
abbrev Blind (r : Reader α) (r' : Nat → Reader α) : Prop := Local (fun _ => True) Blindly r r'

section Rules

variable {ok : Token → Prop} {same same' : List Token → List Token → Prop} {r : Reader α}
  {r' : Nat → Reader α} {f : α → Reader β} {f' : α → Nat → Reader β}

theorem local_pure (a : α) : Local ok same (pure a) fun _ => pure a := by
  intro st b st' h
  obtain ⟨rfl, rfl⟩ := pure_eq_ok.1 h
  exact ⟨[], .refl _, by simp, fun _ _ _ _ _ => takes_pure _⟩

/-- A reader that never succeeds. -/
theorem local_of_ne (h : ∀ st x, r st ≠ .ok x) : Local ok same r r' :=
  fun _ _ _ hr => absurd hr (h _ _)

theorem local_fail (fault : Fault) (back : Nat) : Local ok same (fail fault back : Reader α) r' :=
  local_of_ne fun _ _ h => nomatch h

theorem local_failAt (fault : Fault) (o : Nat) : Local ok same (failAt fault o : Reader α) r' :=
  local_of_ne fun _ _ h => nomatch h

/-- A reader that fails after a fault is not asked what it takes. -/
theorem local_fail_bind {γ : Type} (fault : Fault) (back : Nat) (f : γ → Reader α) :
    Local ok same (fail fault back >>= f) r' := local_of_ne fun _ _ h => nomatch h

/-- One reader after the other.  What the first one may look at is what the second one takes, and what
comes after that. -/
theorem Local.bind_of (hr : Local ok same' r r') (hf : ∀ a, Local ok same (f a) (f' a))
    (hsame : ∀ a st b st' used ts, f a st = .ok (b, st') → Took st used st' → same st'.rest ts →
      same' (used ++ st'.rest) (used ++ ts)) :
    Local ok same (r >>= f) fun m => r' m >>= fun a => f' a m := by
  intro st b st' h
  obtain ⟨a, mid, hra, hfb⟩ := bind_eq_ok.1 h
  obtain ⟨used, htook, hused, htakes⟩ := hr hra
  obtain ⟨more, htook', hmore, htakes'⟩ := hf a hfb
  refine ⟨used ++ more, htook.trans htook', ?_, ?_⟩
  · intro t ht
    exact (List.mem_append.1 ht).elim (hused t) (hmore t)
  · intro m ts st₂ hm hts
    rw [List.length_append] at hm
    have hahead := hsame a mid b st' more ts hfb htook' hts
    rw [← htook'.rest] at hahead
    exact (htakes (by omega) hahead).bind (htakes' (by omega) hts)

theorem Local.bind (hr : Local ok SameHead r r') (hf : ∀ a, Local ok SameHead (f a) (f' a)) :
    Local ok SameHead (r >>= f) fun m => r' m >>= fun a => f' a m :=
  hr.bind_of hf fun _ _ _ _ used _ _ _ h => h.prepend used

theorem Local.bind_blind (hr : Local ok Blindly r r') (hf : ∀ a, Local ok Blindly (f a) (f' a)) :
    Local ok Blindly (r >>= f) fun m => r' m >>= fun a => f' a m :=
  hr.bind_of hf fun _ _ _ _ used _ _ _ h => h.prepend used

/-- A reader that takes at least one token. -/
def Consumes (r : Reader α) : Prop := ∀ ⦃st a st'⦄, r st = .ok (a, st') → st'.rest.length < st.rest.length

/-- What a reader looks at without taking it is taken by the one after it. -/
theorem Local.peek_bind_blind (hr : Local ok SameHead r r') (hf : ∀ a, Local ok Blindly (f a) (f' a))
    (hmore : ∀ a, Consumes (f a)) : Local ok Blindly (r >>= f) fun m => r' m >>= fun a => f' a m := by
  refine hr.bind_of hf fun a st b st' used ts h htook _ => sameHead_append ?_ _ _
  rintro rfl
  have hlt := hmore a h
  rw [htook.rest] at hlt
  simp at hlt

theorem Local.congr {g g' : Nat → Reader α} (h : Local ok same r g) (heq : ∀ m, g (m + 1) = g' (m + 1)) :
    Local ok same r g' := by
  intro st a st' hr
  obtain ⟨used, htook, hused, htakes⟩ := h hr
  refine ⟨used, htook, hused, ?_⟩
  intro m ts st₂ hm hts
  obtain ⟨m, rfl⟩ : ∃ l, m = l + 1 := ⟨m - 1, by omega⟩
  rw [← heq]
  exact htakes hm hts

theorem Local.mono {ok' : Token → Prop} (h : Local ok same r r') (hok : ∀ t, ok t → ok' t) :
    Local ok' same r r' := by
  intro st a st' hr
  obtain ⟨used, htook, hused, htakes⟩ := h hr
  exact ⟨used, htook, fun t ht => hok t (hused t ht), htakes⟩

theorem Took.unique {more : List Token} (h : Took st used st') (h' : Took st more st') : more = used :=
  List.append_cancel_right (h'.rest.symm.trans h.rest)

/-- A reader that uses its offset to report faults only. -/
theorem local_offset_bind {f g : Nat → Reader β} (h : ∀ o o', Local ok same (f o) fun _ => g o') :
    Local ok same (offset >>= f) fun _ => offset >>= g := by
  intro st b st' hr
  obtain ⟨used, htook, hused, -⟩ := h st.offset 0 (show f st.offset st = _ from hr)
  refine ⟨used, htook, hused, ?_⟩
  intro m ts st₂ hm hts o
  obtain ⟨more, htook', -, htakes⟩ := h st.offset o (show f st.offset st = _ from hr)
  obtain rfl := htook.unique htook'
  exact htakes hm hts o

/-- A reader with more fuel than there are tokens. -/
theorem local_fuel_bind {f g : Nat → Reader β} (h : ∀ n, Local ok same (f n) g) :
    Local ok same (get >>= fun st => f (st.rest.length + 1)) fun _ =>
      get >>= fun st => g (st.rest.length + 1) := by
  intro st b st' hr
  obtain ⟨used, htook, hused, htakes⟩ := h _ (show f (st.rest.length + 1) st = _ from hr)
  refine ⟨used, htook, hused, ?_⟩
  intro m ts st₂ hm hts o
  have hfuel : used.length < (used ++ ts).length + 1 := by
    rw [List.length_append]
    omega
  exact htakes hfuel hts o

/-- More fuel does as well. -/
theorem Local.later (h : Local ok same r r') : Local ok same r fun m => r' (m + 1) := by
  intro st a st' hr
  obtain ⟨used, htook, hused, htakes⟩ := h hr
  exact ⟨used, htook, hused, fun _ _ _ hm hts => htakes (by omega) hts⟩

/-- Taking a token that has to be there, with one round of fuel for it. -/
theorem blind_take_bind {f : Option Token → Reader β} {g : Option Token → Nat → Reader β}
    (hnone : ∀ st x, f none st ≠ .ok x) (hsome : ∀ t, Blind (f (some t)) (g (some t))) :
    Blind (take >>= f) fun m => take >>= fun o => g o (m - 1) := by
  intro st b st' h
  obtain ⟨o, mid, htake, hf⟩ := bind_eq_ok.1 h
  rcases take_eq_ok htake with ⟨rfl, -, -⟩ | ⟨t, ts, rfl, hrest, hts, rfl⟩
  · exact absurd hf (hnone _ _)
  · obtain ⟨used, htook, hused, htakes⟩ := hsome t hf
    refine ⟨t :: used, (took_cons hts hrest).trans htook, fun _ _ => trivial, ?_⟩
    intro m ts' st₂ hm hts'
    rw [List.length_cons] at hm
    have hwhole : Whole (used ++ ts') := hts'.prepend used (htook.rest ▸ hts)
    exact (takes_take hwhole).bind (htakes (by omega) hts')

/-- Taking a token that has to be there. -/
theorem blind_take_bind_same {f : Option Token → Reader β} {g : Option Token → Nat → Reader β}
    (hnone : ∀ st x, f none st ≠ .ok x) (hsome : ∀ t, Blind (f (some t)) (g (some t))) :
    Blind (take >>= f) fun m => take >>= fun o => g o m :=
  Local.congr (blind_take_bind (g := fun o m => g o (m + 1)) hnone fun t => (hsome t).later)
    fun _ => rfl

theorem consumes_take_bind {f : Option Token → Reader β} (hnone : ∀ st x, f none st ≠ .ok x)
    (hsome : ∀ t st b st', f (some t) st = .ok (b, st') → st'.rest.length ≤ st.rest.length) :
    Consumes (take >>= f) := by
  intro st b st' h
  obtain ⟨o, mid, htake, hf⟩ := bind_eq_ok.1 h
  rcases take_eq_ok htake with ⟨rfl, -, -⟩ | ⟨t, ts, rfl, hrest, -, rfl⟩
  · exact absurd hf (hnone _ _)
  · have hle := hsome t _ _ _ hf
    rw [hrest]
    exact Nat.lt_succ_of_le hle

theorem Took.length_le (h : Took st used st') : st'.rest.length ≤ st.rest.length := by
  rw [h.rest, List.length_append]
  omega

end Rules

end

end ServiceKeys.Regex
