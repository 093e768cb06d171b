import ServiceKeys.Proofs.Regex.Parts

/-!
# References to groups

Escapes, recalls by name and conditions look up what is known about a group.  Two states are `Akin` if
they give the same answers but for one group, which the second state does not have: there the groups
behind it are numbered one lower (`renumber`).  A reference by name follows its group.  A reference by
number does not, so it is read from both states in the same way only if its group is in front of the
missing one (`escapeItem_eq_ok`, `opening_eq_ok`).
-/

namespace ServiceKeys.Regex

open Reader

section Referring

variable {st st' st₂ : Progress} {ts : List Token}

/-! ## Numbers of groups -/

/-- The number of a group when the group `k` is missing. -/
def renumber (k i : Nat) : Nat := if k < i then i - 1 else i

theorem renumber_of_lt {k i : Nat} (h : i < k) : renumber k i = i := if_neg (Nat.lt_asymm h)

/-- The second digit of a number behind a backslash, if there is one. -/
def secondDigit : List Token → List Char
  | .plain d :: _ => if d.isDigit then [d] else []
  | _ => []

/-- The number that tokens begin with as a reference to a group: behind a backslash, or in a condition.  Digits
that write a character by its code are counted as well. -/
def numberAt? : List Token → Option Nat
  | .escaped c :: ts => if c.isDigit && c != '0' then some (valueOf 10 (c :: secondDigit ts)) else none
  | .plain '(' :: .plain '?' :: .plain '(' :: ts =>
    match Text.integer? ((ts.takeWhile (· != .plain ')')).flatMap Token.chars) with
    | some (.ofNat i) => some i
    | _ => none
  | _ => none

/-- The numbers that are written as references to groups. -/
def numbersIn : List Token → List Nat
  | [] => []
  | t :: ts => (numberAt? (t :: ts)).toList ++ numbersIn ts

theorem numberAt?_subset {ns : List Nat} (h : numbersIn ts ⊆ ns) : (numberAt? ts).toList ⊆ ns := by
  cases ts with
  | nil => simp [numberAt?]
  | cons t ts => exact fun i hi => h (List.mem_append_left _ hi)

/-- What is left to read has no other numbers. -/
theorem numbersIn_subset {us : List Token} {ns : List Nat} (hsuffix : ts <:+ us) (h : numbersIn us ⊆ ns) :
    numbersIn ts ⊆ ns := by
  obtain ⟨front, rfl⟩ := hsuffix
  induction front with
  | nil => exact h
  | cons t front ih => exact ih fun i hi => h (List.mem_append_right _ hi)

/-- A reference to the group `i` that does not suffer when the group `k` is missing: it is to another group,
and to one in front of `k` if its number is one of `ns`. -/
def Kept (k : Nat) (ns : List Nat) (i : Nat) : Prop := i ≠ k ∧ (i ∈ ns → i < k)

instance (k : Nat) (ns : List Nat) : DecidablePred (Kept k ns) := fun i =>
  inferInstanceAs (Decidable (i ≠ k ∧ (i ∈ ns → i < k)))

theorem Kept.mono {k i : Nat} {ns ns' : List Nat} (h : Kept k ns' i) (hns : ns ⊆ ns') : Kept k ns i :=
  ⟨h.1, fun hi => h.2 (hns hi)⟩

/-! ## Escapes and references -/

/-- Two states give the same answers, but for the group `k`, which the second one does not have. -/
structure Akin (k : Nat) (st st₂ : Progress) : Prop where
  opened : ∀ i < k, i < st.nextGroup → i < st₂.nextGroup
  closed : ∀ i ≠ k, (st.widths.lookup i).isSome = true → (st₂.widths.lookup (renumber k i)).isSome = true
  named : ∀ name, ∀ i ≠ k, st.names.lookup name = some i → st₂.names.lookup name = some (renumber k i)
  ahead : st.behindFrom = none → st₂.behindFrom = none
  behind : ∀ f, st.behindFrom = some f → ∃ f₂, st₂.behindFrom = some f₂ ∧ ∀ i ≠ k, f₂ ≤ renumber k i → f ≤ i
  asked : st.asked.map Prod.fst = st₂.asked.map Prod.fst

theorem Akin.facing {k : Nat} (h : Akin k st st₂) (ts ts₂ : List Token) (o o₂ : Nat) :
    Akin k (st.facing ts o) (st₂.facing ts₂ o₂) :=
  ⟨h.opened, h.closed, h.named, h.ahead, h.behind, h.asked⟩

/-- When nothing has been read, nothing is known. -/
theorem akin_start (k : Nat) (ts ts₂ : List Token) : Akin k { rest := ts } { rest := ts₂ } where
  opened _ _ := id
  closed _ _ h := nomatch h
  named _ _ _ h := nomatch h
  ahead := id
  behind _ h := nomatch h
  asked := rfl

theorem Took.akin {k : Nat} {used : List Token} (h : Took st used st') (hakin : Akin k st st₂)
    (ts : List Token) (o : Nat) : Akin k st' (st₂.facing ts o) := by
  rw [h.frame]
  exact hakin.facing _ _ _ _

theorem Took.akin_left {k : Nat} {used : List Token} (h : Took st used st') (hakin : Akin k st st₂) :
    Akin k st' st₂ := h.akin hakin st₂.rest st₂.offset

theorem isClosed_self (i : Nat) : isClosed i st = .ok ((st.widths.lookup i).isSome, st) := rfl

section

variable {k i : Nat} {flags : Flags}

/-- A group may be referred to from a state if it may be from one that is akin. -/
theorem checkBehind_eq_ok (hi : i ≠ k) (h : checkBehind i st = .ok ((), st')) :
    st' = st ∧ ∀ st₂, Akin k st st₂ → checkBehind (renumber k i) st₂ = .ok ((), st₂) := by
  rw [checkBehind, bind_of_ok get_self] at h
  cases hbehind : st.behindFrom with
  | none =>
      simp only [hbehind] at h
      cases h
      refine ⟨rfl, fun st₂ hakin => ?_⟩
      rw [checkBehind, bind_of_ok get_self]
      simp only [hakin.ahead hbehind]
      rfl
  | some f =>
      simp only [hbehind] at h
      rw [bind_of_ok (isClosed_self i)] at h
      split at h
      · cases h
      rename_i hclosed
      split at h
      · cases h
      rename_i hinside
      cases h
      refine ⟨rfl, fun st₂ hakin => ?_⟩
      obtain ⟨f₂, hbehind₂, hf₂⟩ := hakin.behind f hbehind
      have hclosed₂ := hakin.closed i hi (by simpa using hclosed)
      rw [checkBehind, bind_of_ok get_self]
      simp only [hbehind₂]
      rw [bind_of_ok (isClosed_self _), hclosed₂]
      simp only [Bool.not_true, Bool.false_eq_true, if_false]
      rw [if_neg fun hle => hinside (hf₂ i hi hle)]
      rfl

/-- The item that digits behind a backslash stand for: a character, or what a group remembers. -/
def spelledItem (flags : Flags) (ds : List Char) (octal : Bool) : Reader Item := do
  if octal then
    if 0o377 < valueOf 8 ds then
      fail (.octalOutOfRange (String.ofList ('\\' :: ds))) (ds.length + 1)
    return codeItem flags (valueOf 8 ds)
  let index := valueOf 10 ds
  if index < (← get).nextGroup then
    if !(← isClosed index) then fail .openGroup (ds.length + 1)
    checkBehind index
    return recallItem flags index
  fail (.invalidGroup index) ds.length

theorem spelledItem_eq_ok {ds : List Char} {octal : Bool} {item : Item}
    (h : spelledItem flags ds octal st = .ok (item, st'))
    (hitem : ∀ i rule, item.node = .recall i rule → i < k) :
    st' = st ∧ ∀ st₂, Akin k st st₂ → spelledItem flags ds octal st₂ = .ok (item, st₂) := by
  unfold spelledItem at h ⊢
  cases octal with
  | true =>
      simp only [if_true] at h ⊢
      split at h
      · cases h
      rename_i hrange
      obtain ⟨rfl, rfl⟩ := pure_eq_ok.1 h
      refine ⟨rfl, fun st₂ _ => ?_⟩
      rw [if_neg hrange]
      rfl
  | false =>
      simp only [Bool.false_eq_true, if_false] at h ⊢
      rw [bind_of_ok get_self] at h
      split at h
      · rename_i hopened
        rw [bind_of_ok (isClosed_self _)] at h
        split at h
        · cases h
        rename_i hclosed
        obtain ⟨_, mid, hbehind, hlast⟩ := bind_eq_ok.1 h
        obtain ⟨rfl, rfl⟩ := pure_eq_ok.1 hlast
        have hi := hitem _ _ rfl
        obtain ⟨rfl, hcheck⟩ := checkBehind_eq_ok (Nat.ne_of_lt hi) hbehind
        refine ⟨rfl, fun st₂ hakin => ?_⟩
        have hclosed₂ := hakin.closed _ (Nat.ne_of_lt hi) (by simpa using hclosed)
        rw [renumber_of_lt hi] at hclosed₂ hcheck
        rw [bind_of_ok get_self, if_pos (hakin.opened _ hi hopened), bind_of_ok (isClosed_self _), hclosed₂]
        simp only [Bool.not_true, Bool.false_eq_true, if_false]
        rw [bind_of_ok (hcheck st₂ hakin)]
        rfl
      · cases h

theorem digitEscape_eq (flags : Flags) (c : Char) : digitEscape flags c = (do
    let second ← takeWhile Char.isDigit 1
    let third ← if second.all isOctal && !second.isEmpty && isOctal c then takeWhile isOctal 1
      else pure []
    spelledItem flags (c :: second ++ third) (!third.isEmpty)) := rfl

theorem digitEscape_eq_ok {c : Char} {item : Item} (h : digitEscape flags c st = .ok (item, st'))
    (hitem : ∀ i rule, item.node = .recall i rule → i < k) :
    ∃ used, Took st used st' ∧ .plain ')' ∉ used ∧
      ∀ ts st₂, SameHead st'.rest ts → Akin k st st₂ → Takes (digitEscape flags c) st₂ used ts item := by
  rw [digitEscape_eq] at h
  obtain ⟨second, st₁, hsecond, h₁⟩ := bind_eq_ok.1 h
  obtain ⟨digit, htook₁, hdigit, htakes₁⟩ := local_takeWhile (by decide) 1 hsecond
  generalize hoctal : (second.all isOctal && !second.isEmpty && isOctal c) = octal at h₁
  -- the third digit, if there may be one
  have hthird : ∃ third mid more, Took st₁ more mid ∧ (∀ t ∈ more, t ≠ .plain ')') ∧
      spelledItem flags (c :: second ++ third) (!third.isEmpty) mid = .ok (item, st') ∧
      ∀ ts st, SameHead mid.rest ts →
        Takes (if octal then takeWhile isOctal 1 else pure []) st more ts third := by
    cases octal with
    | true =>
        obtain ⟨third, mid, hthird, h₂⟩ := bind_eq_ok.1 h₁
        obtain ⟨more, htook₂, hmore, htakes₂⟩ := local_takeWhile (by decide) 1 hthird
        exact ⟨third, mid, more, htook₂, hmore, h₂, fun ts st hsame => htakes₂ (Nat.lt_succ_self _) hsame⟩
    | false => exact ⟨[], st₁, [], .refl _, by simp, h₁, fun _ _ _ => takes_pure _⟩
  obtain ⟨third, mid, more, htook₂, hmore, h₂, htakes₂⟩ := hthird
  obtain ⟨rfl, hspelled⟩ := spelledItem_eq_ok h₂ hitem
  have htook := htook₁.trans htook₂
  refine ⟨digit ++ more, htook, ?_, fun ts st₂ hsame hakin => ?_⟩
  · intro ht
    exact (List.mem_append.1 ht).elim (fun ht => hdigit _ ht rfl) fun ht => hmore _ ht rfl
  · have hahead : SameHead st₁.rest (more ++ ts) := htook₂.rest ▸ hsame.prepend more
    have hlast : Takes (spelledItem flags (c :: second ++ third) (!third.isEmpty)) st₂ [] ts item :=
      fun o => ⟨o, hspelled _ (htook.akin hakin ts o)⟩
    have htail : Takes (do
        let third ← if octal then takeWhile isOctal 1 else pure []
        spelledItem flags (c :: second ++ third) (!third.isEmpty)) st₂ (more ++ []) ts item := by
      have hnumber := htakes₂ ts st₂ hsame
      cases octal with
      | true => exact hnumber.bind hlast
      | false => exact hnumber.bind hlast
    rw [List.append_nil, ← hoctal] at htail
    rw [digitEscape_eq]
    exact (htakes₁ (Nat.lt_succ_self _) hahead).bind htail

theorem escapeItem_digit {c : Char} (hc : c.isDigit = true) (h0 : c ≠ '0') :
    escapeItem flags c = digitEscape flags c := by
  have hrange : 48 ≤ c.toNat ∧ c.toNat ≤ 57 := by
    simpa [Char.isDigit, UInt32.le_iff_toNat_le] using hc
  have hne : c.toNat ≠ 48 := fun h => h0 (Char.toNat_inj.1 h)
  have hcases : c.toNat = 49 ∨ c.toNat = 50 ∨ c.toNat = 51 ∨ c.toNat = 52 ∨ c.toNat = 53 ∨ c.toNat = 54 ∨
      c.toNat = 55 ∨ c.toNat = 56 ∨ c.toNat = 57 := by omega
  rcases hcases with h | h | h | h | h | h | h | h | h <;> rw [← Char.ofNat_toNat c, h] <;> rfl

theorem local_escapeItem {c : Char} (hc : c.isDigit = true → c = '0') :
    Peeking (escapeItem flags c) fun _ => escapeItem flags c := by
  unfold escapeItem
  iterate 4
    split
    · exact local_pure _
  cases categoryEscape? c with
  | some k => exact local_pure _
  | none =>
  cases controlEscape? c with
  | some n => exact local_pure _
  | none =>
  refine (local_codeEscape? c).bind fun code => ?_
  cases code with
  | some n => exact local_pure _
  | none =>
  dsimp only
  split
  · exact (local_takeWhile (by decide) 2).bind fun ds => local_pure _
  rename_i h0
  split
  · rename_i hdigit
    simp [hc hdigit] at h0
  · exact (local_plainEscape c).bind fun n => local_pure _

/-- **An escape is read up to its end.**  What comes next may be looked at, since more digits could
belong to it. -/
theorem escapeItem_eq_ok {c : Char} {item : Item} (h : escapeItem flags c st = .ok (item, st'))
    (hitem : ∀ i rule, item.node = .recall i rule → i < k) :
    ∃ used, Took st used st' ∧ .plain ')' ∉ used ∧
      ∀ ts st₂, SameHead st'.rest ts → Akin k st st₂ → Takes (escapeItem flags c) st₂ used ts item := by
  by_cases hc : c.isDigit = true ∧ c ≠ '0'
  · rw [escapeItem_digit hc.1 hc.2] at h ⊢
    exact digitEscape_eq_ok h hitem
  · have hlocal : Peeking (escapeItem flags c) fun _ => escapeItem flags c :=
      local_escapeItem fun hdigit => Decidable.not_not.1 fun h0 => hc ⟨hdigit, h0⟩
    obtain ⟨used, htook, hused, htakes⟩ := hlocal h
    exact ⟨used, htook, fun ht => hused _ ht rfl, fun ts st₂ hsame _ => htakes (Nat.lt_succ_self _) hsame⟩

theorem secondDigit_of_takeWhile {ds : List Char} (h : takeWhile Char.isDigit 1 st = .ok (ds, st')) :
    secondDigit st.rest = ds := by
  obtain ⟨htook, hall, -, hstop⟩ := takeWhile_eq_ok h
  rw [htook.rest]
  cases ds with
  | cons d ds =>
      obtain rfl : ds = [] := by
        rcases hstop with hlength | ⟨hlength, -⟩
        · exact List.length_eq_zero_iff.1 (Nat.succ.inj hlength)
        · simp at hlength
      simp [secondDigit, hall]
  | nil =>
      have hend := (hstop.resolve_left (by simp)).2
      cases hrest : st'.rest with
      | nil => rfl
      | cons t ts =>
          cases t with
          | plain d => simp [secondDigit, hend d (by rw [hrest]; rfl)]
          | _ => rfl

/-- Only digits behind a backslash recall a group. -/
theorem node_of_escapeItem {c : Char} {item : Item} (hc : ¬ (c.isDigit = true ∧ c ≠ '0'))
    (h : escapeItem flags c st = .ok (item, st')) (i : Nat) (rule : CaseRule) : item.node ≠ .recall i rule := by
  unfold escapeItem at h
  iterate 4
    split at h
    · obtain ⟨rfl, -⟩ := pure_eq_ok.1 h
      exact Regex.noConfusion
  cases hcategory : categoryEscape? c with
  | some k =>
      simp only [hcategory] at h
      obtain ⟨rfl, -⟩ := pure_eq_ok.1 h
      exact Regex.noConfusion
  | none =>
  simp only [hcategory] at h
  cases hcontrol : controlEscape? c with
  | some n =>
      simp only [hcontrol] at h
      obtain ⟨rfl, -⟩ := pure_eq_ok.1 h
      exact Regex.noConfusion
  | none =>
  simp only [hcontrol] at h
  obtain ⟨code, mid, -, h₁⟩ := bind_eq_ok.1 h
  cases code with
  | some n =>
      obtain ⟨rfl, -⟩ := pure_eq_ok.1 h₁
      exact Regex.noConfusion
  | none =>
  dsimp only at h₁
  split at h₁
  · obtain ⟨ds, mid', -, h₂⟩ := bind_eq_ok.1 h₁
    obtain ⟨rfl, -⟩ := pure_eq_ok.1 h₂
    exact Regex.noConfusion
  rename_i h0
  split at h₁
  · rename_i hdigit
    exact absurd ⟨hdigit, by simpa using h0⟩ hc
  · obtain ⟨n, mid', -, h₂⟩ := bind_eq_ok.1 h₁
    obtain ⟨rfl, -⟩ := pure_eq_ok.1 h₂
    exact Regex.noConfusion

/-- What an escape recalls has the number that is written. -/
theorem numberAt?_of_escapeItem {c : Char} {item : Item} {rule : CaseRule}
    (h : escapeItem flags c st = .ok (item, st')) (hnode : item.node = .recall i rule) :
    numberAt? (.escaped c :: st.rest) = some i := by
  by_cases hc : c.isDigit = true ∧ c ≠ '0'
  · rw [escapeItem_digit hc.1 hc.2, digitEscape_eq] at h
    obtain ⟨second, mid, hsecond, h₁⟩ := bind_eq_ok.1 h
    obtain ⟨third, mid', h₂⟩ : ∃ third mid', spelledItem flags (c :: second ++ third) (!third.isEmpty) mid' =
        .ok (item, st') := by
      split at h₁
      · obtain ⟨third, mid', -, h₂⟩ := bind_eq_ok.1 h₁
        exact ⟨third, mid', h₂⟩
      · exact ⟨[], mid, h₁⟩
    unfold spelledItem at h₂
    split at h₂
    · split at h₂
      · cases h₂
      · obtain ⟨rfl, -⟩ := pure_eq_ok.1 h₂
        cases hnode
    · rename_i hthird
      obtain rfl : third = [] := by simpa using hthird
      rw [bind_of_ok get_self] at h₂
      split at h₂
      · rw [bind_of_ok (isClosed_self _)] at h₂
        split at h₂
        · cases h₂
        obtain ⟨_, _, -, hlast⟩ := bind_eq_ok.1 h₂
        obtain ⟨rfl, -⟩ := pure_eq_ok.1 hlast
        cases hnode
        simp [numberAt?, hc, secondDigit_of_takeWhile hsecond]
      · cases h₂
  · exact absurd hnode (node_of_escapeItem hc h i rule)

/-! ## What an opening parenthesis begins -/

/-- The state that faces the given tokens and has asked about the given groups. -/
def Progress.asking (st : Progress) (ts : List Token) (o : Nat) (asked : List (Nat × Nat)) : Progress :=
  { st.facing ts o with asked }

/-- Some tokens have been taken and nothing else is changed, but that one more group below `k` may have
been asked about. -/
structure TookAsking (k : Nat) (st : Progress) (used : List Token) (st' : Progress) : Prop where
  rest : st.rest = used ++ st'.rest
  frame : st' = st.asking st'.rest st'.offset st'.asked
  below : ∀ p ∈ st'.asked, p ∈ st.asked ∨ p.1 < k
  stray : Stray st.rest → Stray st'.rest

/-- Where the tokens `used ++ ts` come next, a reader takes `used` and gives `a`, and then the groups
asked about are the given ones. -/
def TakesAsking {α : Type} (r : Reader α) (st : Progress) (used ts : List Token) (a : α) (asked : List Nat) :
    Prop :=
  ∀ o, ∃ o' asked', asked'.map Prod.fst = asked ∧
    r (st.facing (used ++ ts) o) = .ok (a, st.asking ts o' asked')

theorem Took.asking {used : List Token} (h : Took st used st') : TookAsking k st used st' := by
  refine ⟨h.rest, ?_, fun p hp => Or.inl ?_, h.stray⟩
  · have hasked : st'.asked = st.asked := by rw [h.frame]; rfl
    rw [hasked]
    exact h.frame
  · rw [h.frame] at hp
    exact hp

theorem Took.trans_asking {used more : List Token} {mid : Progress} (h : Took st used mid)
    (h' : TookAsking k mid more st') : TookAsking k st (used ++ more) st' := by
  have hasked : mid.asked = st.asked := by rw [h.frame]; rfl
  refine ⟨by rw [h.rest, h'.rest, List.append_assoc], ?_, hasked ▸ h'.below, fun hstray => h'.stray (h.stray hstray)⟩
  rw [h'.frame, h.frame]
  rfl

theorem Takes.asking {α : Type} {r : Reader α} {used : List Token} {a : α} (h : Takes r st₂ used ts a)
    (hakin : Akin k st st₂) : TakesAsking r st₂ used ts a (st.asked.map Prod.fst) := by
  intro o
  obtain ⟨o', heq⟩ := h o
  exact ⟨o', st₂.asked, hakin.asked.symm, heq⟩

/-- Where some tokens are taken in front of all that is fit to follow, and no group is asked about, the
groups asked about are the ones from before. -/
theorem Took.takesAsking {α : Type} {a : α} {used : List Token} {r : Nat → Reader α} {P : List Token → Prop}
    (h : Took st used st')
    (htakes : ∀ ts st₂ start', P ts → Akin k st st₂ → Takes (r start') st₂ used ts a) :
    ∀ ts st₂ start', P ts → Akin k st st₂ →
      TakesAsking (r start') st₂ used ts a (st'.asked.map Prod.fst) := by
  intro ts st₂ start' hts hakin
  have hasked : st'.asked = st.asked := by rw [h.frame]; rfl
  rw [hasked]
  exact (htakes ts st₂ start' hts hakin).asking hakin

/-- A recall by name is read up to its closing parenthesis, and no further. -/
theorem namedRecall_eq_ok {item : Item} (h : namedRecall flags st = .ok (item, st'))
    (hitem : ∀ i rule, item.node = .recall i rule → i ≠ k) :
    ∃ used i, item = recallItem flags i ∧ Took st used st' ∧ ∀ ts st₂, Blindly st'.rest ts → Akin k st st₂ →
      Takes (namedRecall flags) st₂ used ts (recallItem flags (renumber k i)) := by
  obtain ⟨name, mid, hname, h₁⟩ := bind_eq_ok.1 h
  obtain ⟨used, htook, -, htakes⟩ := blind_groupName ')' hname
  rw [bind_of_ok get_self] at h₁
  dsimp only at h₁
  cases hindex : mid.names.lookup (String.ofList name) with
  | none => simp only [hindex] at h₁; cases h₁
  | some i =>
      simp only [hindex] at h₁
      rw [bind_of_ok (isClosed_self i)] at h₁
      split at h₁
      · cases h₁
      rename_i hclosed
      obtain ⟨_, mid', hbehind, hlast⟩ := bind_eq_ok.1 h₁
      obtain ⟨rfl, rfl⟩ := pure_eq_ok.1 hlast
      have hi := hitem _ _ rfl
      obtain ⟨rfl, hcheck⟩ := checkBehind_eq_ok hi hbehind
      refine ⟨used, i, rfl, htook, fun ts st₂ hts hakin o => ?_⟩
      obtain ⟨o', hread⟩ := htakes (Nat.lt_succ_self _) hts o
      have hakin' := htook.akin hakin ts o'
      have hclosed' := hakin'.closed i hi (by simpa using hclosed)
      refine ⟨o', ?_⟩
      rw [namedRecall, bind_of_ok hread, bind_of_ok get_self]
      dsimp only
      rw [hakin'.named _ i hi hindex]
      dsimp only
      rw [bind_of_ok (isClosed_self _), hclosed']
      simp only [Bool.not_true, Bool.false_eq_true, if_false]
      rw [bind_of_ok (hcheck _ hakin')]
      rfl

theorem lookup_isNone_iff {l : List (Nat × Nat)} {i : Nat} :
    (l.lookup i).isNone = true ↔ i ∉ l.map Prod.fst := by
  rw [Option.isNone_iff_eq_none, List.lookup_eq_none_iff, List.mem_map]
  constructor
  · rintro h ⟨p, hp, rfl⟩
    simpa using h p hp
  · intro h p hp
    simpa using fun hi : i = p.1 => h ⟨p, hp, hi.symm⟩

theorem TookAsking.akin {used : List Token} {asked' : List (Nat × Nat)} (h : TookAsking k st used st')
    (hakin : Akin k st st₂) (hasked : asked'.map Prod.fst = st'.asked.map Prod.fst) (ts : List Token) (o : Nat) :
    Akin k st' (st₂.asking ts o asked') := by
  rw [h.frame]
  exact ⟨hakin.opened, hakin.closed, hakin.named, hakin.ahead, hakin.behind, hasked.symm⟩

/-- Asks about a group whose number was written at an offset. -/
def ask (i back : Nat) : Reader Nat := do
  let st ← get
  if (st.asked.lookup i).isNone then
    set { st with asked := st.asked ++ [(i, st.offset - back - 1)] }
  return i

theorem ask_known {back : Nat} (h : i ∈ st.asked.map Prod.fst) : ask i back st = .ok (i, st) := by
  have hsome : ¬ (st.asked.lookup i).isNone = true := fun hnone => lookup_isNone_iff.1 hnone h
  rw [ask, bind_of_ok get_self]
  dsimp only
  rw [if_neg hsome]
  rfl

theorem ask_new {back : Nat} (h : i ∉ st.asked.map Prod.fst) : ask i back st =
    .ok (i, st.asking st.rest st.offset (st.asked ++ [(i, st.offset - back - 1)])) := by
  rw [ask, bind_of_ok get_self]
  dsimp only
  rw [if_pos (lookup_isNone_iff.2 h)]
  rfl

theorem ask_eq_ok {back j : Nat} (h : ask i back st = .ok (j, st')) :
    j = i ∧ (i < k → TookAsking k st [] st' ∧ ∀ ts st₂, Akin k st st₂ →
      TakesAsking (ask i back) st₂ [] ts i (st'.asked.map Prod.fst)) := by
  by_cases hknown : i ∈ st.asked.map Prod.fst
  · rw [ask_known hknown] at h
    cases h
    refine ⟨rfl, fun _ => ⟨(Took.refl st).asking, fun ts st₂ hakin o => ⟨o, st₂.asked, hakin.asked.symm, ?_⟩⟩⟩
    exact ask_known (hakin.asked ▸ hknown)
  · rw [ask_new hknown] at h
    cases h
    refine ⟨rfl, fun hi => ⟨⟨rfl, rfl, ?_, id⟩, fun ts st₂ hakin o => ⟨o, st₂.asked ++ [(i, o - back - 1)], ?_, ?_⟩⟩⟩
    · intro p hp
      rcases List.mem_append.1 hp with hp | hp
      · exact Or.inl hp
      · obtain rfl := List.mem_singleton.1 hp
        exact Or.inr hi
    · simp [Progress.asking, hakin.asked]
    · exact ask_new (hakin.asked ▸ hknown)

theorem conditionGroup_eq : conditionGroup = (do
    let name ← takeUntil ')' "group name"
    let written := String.ofList name
    if Text.isName name then
      match (← get).names.lookup written with
      | none => fail (.unknownGroupName written) (name.length + 1)
      | some index => return index
    else
      match Text.integer? name with
      | some (.ofNat index) =>
        if index = 0 then fail .badGroupNumber (name.length + 1)
        if Nat.pow 2 30 - 1 ≤ index then fail (.invalidGroup index) (name.length + 1)
        ask index name.length
      | _ => fail (.badGroupName written) (name.length + 1)) := rfl

theorem numberAt?_condition {name : List Char} {what : String} {n : Nat}
    (h : takeUntil ')' what st = .ok (name, st')) (hnumber : Text.integer? name = some (.ofNat n)) :
    numberAt? (.plain '(' :: .plain '?' :: .plain '(' :: st.rest) = some n := by
  obtain ⟨used, hrest, hnone, rfl⟩ := takeUntil_eq_ok h
  have hname : st.rest.takeWhile (· != .plain ')') = used := by
    rw [hrest, List.takeWhile_append_of_pos]
    · simp
    · intro t ht
      simpa using fun heq : t = .plain ')' => hnone (heq ▸ ht)
  simp [numberAt?, hname, hnumber]

/-- The group of a condition is read up to the closing parenthesis, and no further. -/
theorem conditionGroup_eq_ok (h : conditionGroup st = .ok (i, st'))
    (hi : Kept k (numberAt? (.plain '(' :: .plain '?' :: .plain '(' :: st.rest)).toList i) :
    ∃ used, TookAsking k st used st' ∧ ∀ ts st₂, Blindly st'.rest ts → Akin k st st₂ →
      TakesAsking conditionGroup st₂ used ts (renumber k i) (st'.asked.map Prod.fst) := by
  rw [conditionGroup_eq] at h ⊢
  obtain ⟨name, mid, hname, h₁⟩ := bind_eq_ok.1 h
  obtain ⟨used, htook, -, htakes⟩ := blind_takeUntil ')' "group name" hname
  split at h₁
  · rename_i hvalid
    rw [bind_of_ok get_self] at h₁
    cases hindex : mid.names.lookup (String.ofList name) with
    | none => simp only [hindex] at h₁; cases h₁
    | some j =>
        simp only [hindex] at h₁
        cases h₁
        refine ⟨used, htook.asking, fun ts st₂ hts hakin o => ?_⟩
        obtain ⟨o', hread⟩ := htakes (Nat.lt_succ_self _) hts o
        have hakin' := htook.akin hakin ts o'
        refine ⟨o', st₂.asked, hakin'.asked.symm, ?_⟩
        rw [bind_of_ok hread]
        dsimp only
        rw [if_pos hvalid, bind_of_ok get_self]
        rw [hakin'.named _ i hi.1 hindex]
        rfl
  · rename_i hvalid
    cases hnumber : Text.integer? name with
    | none => simp only [hnumber] at h₁; cases h₁
    | some number =>
        cases number with
        | negSucc n => simp only [hnumber] at h₁; cases h₁
        | ofNat index =>
            simp only [hnumber] at h₁
            split at h₁
            · cases h₁
            rename_i hzero
            split at h₁
            · cases h₁
            rename_i hhuge
            -- the number is written, so the group stands in front of the missing one
            obtain ⟨rfl, hknown⟩ := ask_eq_ok h₁
            have hlt : i < k := hi.2 (by rw [numberAt?_condition hname hnumber]; simp)
            obtain ⟨hasking, hask⟩ := hknown hlt
            rw [renumber_of_lt hlt]
            refine ⟨used, List.append_nil used ▸ htook.trans_asking hasking, fun ts st₂ hts hakin o => ?_⟩
            have hmid : mid.rest = st'.rest := hasking.rest
            obtain ⟨o₁, hread⟩ := htakes (Nat.lt_succ_self _) (hmid ▸ hts) o
            obtain ⟨o₂, asked', hasked, hagain⟩ := hask ts st₂ (htook.akin_left hakin) o₁
            refine ⟨o₂, asked', hasked, ?_⟩
            rw [bind_of_ok hread]
            dsimp only
            rw [if_neg hvalid, hnumber]
            dsimp only
            rw [if_neg hzero, if_neg hhuge]
            exact hagain

/-- What an opening parenthesis begins whose question mark has the given token behind it. -/
def behindMark (flags : Flags) (start : Nat) : Token → Reader Opening
  | .plain 'P' => do
    if ← accept '<' then return .capture (some (← groupName '>'))
    if ← accept '=' then return .item (← namedRecall flags)
    let u ← takeSome
    fail (.unknownExtension ("P" ++ u.written)) (u.width + 2)
  | .plain ':' => return .plain [] []
  | .plain '#' => do
    skipComment start ((← get).rest.length + 1)
    return .comment
  | .plain '=' => return .look false true
  | .plain '!' => return .look false false
  | .plain '<' => do
    let u ← takeSome
    if u == .plain '=' then return .look true true
    if u == .plain '!' then return .look true false
    fail (.unknownExtension ("<" ++ u.written)) (u.width + 2)
  | .plain '(' => do
    let index ← conditionGroup
    checkBehind index
    return .condition index
  | .plain '>' => return .atomic
  | t => do
    if t == .plain '-' || (Flag.ofToken? t).isSome then
      match ← flagGroup t with
      | .whole on => return .flags on
      | .scoped on off => return .plain on off
    else fail (.unknownExtension t.written) (t.width + 1)

theorem opening_eq (flags : Flags) (start : Nat) : opening flags start = (do
    if !(← accept '?') then return .capture none
    behindMark flags start (← takeSome)) := rfl

theorem takeSome_eq_ok {t : Token} (h : takeSome st = .ok (t, st')) : st.rest = t :: st'.rest := by
  obtain ⟨o, mid, htake, h₁⟩ := bind_eq_ok.1 h
  cases o with
  | none => cases h₁
  | some u =>
      cases h₁
      rcases take_eq_ok htake with ⟨hnone, -⟩ | ⟨t, ts, heq, hrest, -, rfl⟩
      · cases hnone
      · cases heq
        exact hrest

theorem blind_behindMark {t : Token} (hname : t ≠ .plain 'P') (hcondition : t ≠ .plain '(') (start start' : Nat) :
    Blind (behindMark flags start t) fun _ => behindMark flags start' t := by
  unfold behindMark
  split
  · exact absurd rfl hname
  · exact local_pure _
  · exact local_fuel_bind (f := fun n => skipComment start n >>= fun _ => pure Opening.comment)
      (g := fun n => skipComment start' n >>= fun _ => pure Opening.comment)
      fun n => (blind_skipComment start start' n).bind_blind fun _ => local_pure _
  · exact local_pure _
  · exact local_pure _
  · refine blind_takeSome.bind_blind fun u => ?_
    split
    · exact local_pure _
    split
    · exact local_pure _
    · exact local_fail _ _
  · exact absurd rfl hcondition
  · exact local_pure _
  · split
    · refine (blind_flagGroup t).bind_blind fun group => ?_
      cases group <;> exact local_pure _
    · exact local_fail _ _

/-- An item that does not suffer when the group `k` is missing. -/
def Item.Kept (k : Nat) (ns : List Nat) (i : Item) : Prop :=
  ∀ j rule, i.node = .recall j rule → Regex.Kept k ns j

/-- A beginning that does not suffer when the group `k` is missing. -/
def Opening.Kept (k : Nat) (ns : List Nat) : Opening → Prop
  | .item i => i.Kept k ns
  | .condition i => Regex.Kept k ns i
  | _ => True

/-- The same item, or a recall of another group. -/
def Item.Like (i i₂ : Item) : Prop := i₂ = i ∨ ∃ flags j j₂, i = recallItem flags j ∧ i₂ = recallItem flags j₂

/-- The same beginning, up to the group that it refers to. -/
inductive Opening.Like : Opening → Opening → Prop
  | same (o : Opening) : Like o o
  | item {i i₂ : Item} (h : i.Like i₂) : Like (.item i) (.item i₂)
  | condition (i i₂ : Nat) : Like (.condition i) (.condition i₂)

theorem behindName_eq_ok {start : Nat} {o : Opening} (h : behindMark flags start (.plain 'P') st = .ok (o, st'))
    {ns : List Nat} (ho : o.Kept k ns) :
    ∃ used o₂, Took st used st' ∧ o.Like o₂ ∧ ∀ ts st₂ start', Blindly st'.rest ts → Akin k st st₂ →
      Takes (behindMark flags start' (.plain 'P')) st₂ used ts o₂ := by
  obtain ⟨opened, mid, hopened, h₁⟩ := bind_eq_ok.1 h
  rcases accept_eq_ok hopened with ⟨rfl, more, hrest, hmore, rfl⟩ | ⟨rfl, hhead, rfl⟩
  · obtain ⟨name, last, hname, h₂⟩ := bind_eq_ok.1 h₁
    obtain ⟨rfl, rfl⟩ := pure_eq_ok.1 h₂
    obtain ⟨used, htook, -, htakes⟩ := blind_groupName '>' hname
    refine ⟨_, _, (took_cons hmore hrest).trans htook, .same _, fun ts st₂ start' hts _ => ?_⟩
    have hwhole : Whole (used ++ ts) := hts.prepend used (htook.rest ▸ hmore)
    exact (takes_accept hwhole).bind ((htakes (Nat.lt_succ_self _) hts).bind_pure (Opening.capture ∘ some))
  · obtain ⟨recalled, mid, hrecalled, h₂⟩ := bind_eq_ok.1 h₁
    rcases accept_eq_ok hrecalled with ⟨rfl, more, hrest, hmore, rfl⟩ | ⟨rfl, -, rfl⟩
    · obtain ⟨item, last, hitem, h₃⟩ := bind_eq_ok.1 h₂
      obtain ⟨rfl, rfl⟩ := pure_eq_ok.1 h₃
      obtain ⟨used, i, rfl, htook, htakes⟩ := namedRecall_eq_ok hitem fun j rule hnode => (ho j rule hnode).1
      refine ⟨_, _, (took_cons hmore hrest).trans htook, .item (Or.inr ⟨flags, i, renumber k i, rfl, rfl⟩),
        fun ts st₂ start' hts hakin => ?_⟩
      have hwhole : Whole (used ++ ts) := hts.prepend used (htook.rest ▸ hmore)
      have hread := (htakes ts st₂ hts (hakin.facing _ _ _ _)).bind_pure Opening.item
      have hequals : Takes (accept '=') st₂ [.plain '='] (used ++ ts) true := takes_accept hwhole
      have htail := hequals.bind (f := fun recalled =>
        if recalled then namedRecall flags >>= fun item => pure (Opening.item item)
        else takeSome >>= fun u => fail (.unknownExtension ("P" ++ u.written)) (u.width + 2)) hread
      exact (takes_accept_ne (c := '<') (by simp)).bind htail
    · obtain ⟨u, last, -, h₃⟩ := bind_eq_ok.1 h₂
      cases h₃

/-- The group that a condition asks about is read up to the closing parenthesis, and no further. -/
theorem behindCondition_eq_ok {start : Nat} {o : Opening}
    (h : behindMark flags start (.plain '(') st = .ok (o, st'))
    (ho : o.Kept k (numberAt? (.plain '(' :: .plain '?' :: .plain '(' :: st.rest)).toList) :
    ∃ used o₂, TookAsking k st used st' ∧ o.Like o₂ ∧ ∀ ts st₂ start', Blindly st'.rest ts → Akin k st st₂ →
      TakesAsking (behindMark flags start' (.plain '(')) st₂ used ts o₂ (st'.asked.map Prod.fst) := by
  obtain ⟨index, mid, hindex, h₁⟩ := bind_eq_ok.1 h
  obtain ⟨_, mid', hbehind, h₂⟩ := bind_eq_ok.1 h₁
  obtain ⟨rfl, rfl⟩ := pure_eq_ok.1 h₂
  obtain ⟨used, htook, htakes⟩ := conditionGroup_eq_ok hindex ho
  obtain ⟨rfl, hcheck⟩ := checkBehind_eq_ok ho.1 hbehind
  refine ⟨used, _, htook, .condition index (renumber k index), fun ts st₂ start' hts hakin o => ?_⟩
  obtain ⟨o', asked', hasked, hread⟩ := htakes ts st₂ hts hakin o
  refine ⟨o', asked', hasked, ?_⟩
  show (conditionGroup >>= fun index => checkBehind index >>= fun _ =>
    (pure (Opening.condition index) : Reader Opening)) _ = _
  rw [bind_of_ok hread, bind_of_ok (hcheck _ (htook.akin hakin hasked ts o'))]
  rfl

/-- What is behind the question mark is read up to its end, and no further. -/
theorem behindMark_eq_ok {start : Nat} {t : Token} {o : Opening} (h : behindMark flags start t st = .ok (o, st'))
    (ho : o.Kept k (numberAt? (.plain '(' :: .plain '?' :: t :: st.rest)).toList) :
    ∃ used o₂, TookAsking k st used st' ∧ o.Like o₂ ∧ ∀ ts st₂ start', Blindly st'.rest ts → Akin k st st₂ →
      TakesAsking (behindMark flags start' t) st₂ used ts o₂ (st'.asked.map Prod.fst) := by
  by_cases hname : t = .plain 'P'
  · subst hname
    obtain ⟨used, o₂, htook, hlike, htakes⟩ := behindName_eq_ok h ho
    exact ⟨used, o₂, htook.asking, hlike, htook.takesAsking htakes⟩
  by_cases hcondition : t = .plain '('
  · subst hcondition
    exact behindCondition_eq_ok h ho
  · obtain ⟨used, htook, -⟩ := blind_behindMark hname hcondition start start h
    refine ⟨used, o, htook.asking, .same o, htook.takesAsking fun ts st₂ start' hts _ => ?_⟩
    obtain ⟨used', htook', -, htakes⟩ := blind_behindMark hname hcondition start start' h
    obtain rfl := htook.unique htook'
    exact htakes (Nat.lt_succ_self _) hts

/-- **What an opening parenthesis begins** is read up to the content of its group, and no further; only a
parenthesis with no question mark behind it depends on what comes next. -/
theorem opening_eq_ok {start : Nat} {o : Opening} (h : opening flags start st = .ok (o, st'))
    (ho : o.Kept k (numberAt? (.plain '(' :: st.rest)).toList) :
    ∃ used o₂, TookAsking k st used st' ∧ o.Like o₂ ∧ ∀ ts st₂ start', (used = [] → SameHead st'.rest ts) →
      Blindly st'.rest ts → Akin k st st₂ →
        TakesAsking (opening flags start') st₂ used ts o₂ (st'.asked.map Prod.fst) := by
  rw [opening_eq] at h
  obtain ⟨marked, mid, hmarked, h₁⟩ := bind_eq_ok.1 h
  rcases accept_eq_ok hmarked with ⟨rfl, more, hrest, hmore, rfl⟩ | ⟨rfl, hhead, rfl⟩
  · obtain ⟨t, mid, ht, h₂⟩ := bind_eq_ok.1 h₁
    obtain ⟨seen, htook₁, -, htakes₁⟩ := blind_takeSome ht
    have hmid : more = t :: mid.rest := takeSome_eq_ok ht
    rw [hrest, hmid] at ho
    obtain ⟨used, o₂, htook₂, hlike, htakes₂⟩ := behindMark_eq_ok h₂ ho
    have htook := ((took_cons (o := st.offset + 1) hmore hrest).trans htook₁).trans_asking htook₂
    refine ⟨_, o₂, htook, hlike, fun ts st₂ start' _ hts hakin o => ?_⟩
    have hseen : Blindly mid.rest (used ++ ts) := htook₂.rest ▸ hts.prepend used
    have hwhole : Whole (seen ++ (used ++ ts)) := hseen.prepend seen (htook₁.rest ▸ hmore)
    have hseenTakes : Takes takeSome st₂ seen (used ++ ts) t := htakes₁ (Nat.lt_succ_self _) hseen
    obtain ⟨o₁, hread₁⟩ := hseenTakes (o + 1)
    obtain ⟨o₂, asked', hasked, hread₂⟩ := htakes₂ ts st₂ start' hts
      (htook₁.akin_left (hakin.facing _ _ _ _)) o₁
    refine ⟨o₂, asked', hasked, ?_⟩
    rw [opening_eq, List.append_assoc, List.append_assoc, List.singleton_append,
      bind_of_ok (accept_facing hwhole), if_neg (by simp), bind_of_ok hread₁]
    exact hread₂
  · obtain ⟨rfl, rfl⟩ := pure_eq_ok.1 h₁
    refine ⟨[], _, (Took.refl _).asking, .same _, fun ts st₂ start' hsame _ hakin => ?_⟩
    refine Takes.asking (fun o => ⟨o, ?_⟩) hakin
    rw [opening_eq, List.nil_append, bind_of_ok (accept_facing_ne ((hsame rfl) ▸ hhead))]
    rfl

end

end Referring

end ServiceKeys.Regex
