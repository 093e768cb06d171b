import ServiceKeys.Proofs.Regex.Steady

/-!
# Putting something else in the place of a named group

Two written patterns that differ in one place: where the first has a group with a name, the second has
something that opens no group.  The second has one group less, so every group behind the place is
numbered one lower there.  What is read up to the place is the same (`Place.before`); what is read behind
it is the same but for the numbers of groups (`Place.behind`).  If the pattern refers neither to the group
at the place nor by number to a group behind it, and its looks back have neither that group nor recalls,
then the second pattern can be read whenever the first one can, unless the name is lost in a set or a
comment: main statement `exists_parse_of_hole`.

This is not all that can be read.  A number behind the place comes to mean the next group, which is there
or not, and a look back over a recall has a width that may be fixed all the same.
-/

namespace ServiceKeys.Regex

open Reader

/-! ## The place -/

/-- In front of the tokens `B`, the tokens `G` are a group with a name, and the tokens `W` are something
that can be read in its stead. -/
structure Hole (name : List Char) (G W B : List Token) : Prop where
  plain : '\\' ∉ name
  unclosed : '>' ∉ name
  valid : Text.isName name = true
  group : ∃ inner, G = nameMark name ++ (inner ++ [.plain ')']) ∧ Whole (inner ++ .plain ')' :: B) ∧
    ∀ flags st o, ∃ items o', Parses { flags } [] [] (Progress.facing st (inner ++ .plain ')' :: B) o) [items] (st.facing (.plain ')' :: B) o')
  filled : ∀ scope st o done items, ∃ pieces o', (pieces.head?.map Item.kind = some .other) ∧
    ∀ out st', Parses scope done (pieces ++ items) (Progress.facing st B o') out st' →
      Parses scope done items (st.facing (W ++ B) o) out st'
  whole : Whole (W ++ B)

section

variable {name : List Char} {G W B : List Token} {k : Nat}

/-- The last token in front of the place, or the first one in it, is a parenthesis, so that the bounds of
a repetition are not read across. -/
def Seam (W a : List Token) : Prop :=
  a.getLast? = some (.plain ')') ∨ W.head? = some (.plain '(')

/-- Where the two patterns stand. -/
inductive Place (name : List Char) (G W B : List Token) (k : Nat) (st st₂ : Progress) : Prop
  | before (a : List Token) (rest : st.rest = a ++ (G ++ B)) (rest₂ : st₂.rest = a ++ (W ++ B))
      (next : st₂.nextGroup = st.nextGroup) (early : st.nextGroup ≤ k) (absent : st.names.lookup (String.ofList name) = none)
      (seam : a = [] ∨ Seam W a)
      (only : ∀ more, nameMark name ++ more <:+ a ++ (G ++ B) → nameMark name ++ more = G ++ B)
  | behind (rest : st₂.rest = st.rest) (short : st.rest <:+ B) (next : st.nextGroup = st₂.nextGroup + 1)
      (late : k ≤ st₂.nextGroup)

/-- What is known in the two patterns agrees, up to the numbers of the groups behind the place. -/
structure Sim (name : List Char) (G W B : List Token) (k : Nat) (st st₂ : Progress) : Prop where
  akin : Akin k st st₂
  global : st₂.global = st.global
  pending : st.pending = none → st₂.pending = none
  names : ∀ nm, st.names.lookup nm = none → st₂.names.lookup nm = none
  asked : ∀ p ∈ st.asked, p.1 < k
  place : Place name G W B k st st₂

/-- The items read in the two patterns: free ones have the same widths. -/
structure Linked (k : Nat) (done : List (List Item)) (items : List Item) (done₂ : List (List Item))
    (items₂ : List Item) : Prop where
  same : AllItems (freeAt k) (items :: done) → SameWidths (items :: done) (items₂ :: done₂)
  kind : items₂.head?.map Item.kind = items.head?.map Item.kind
  first : done = [] → done₂ = []

variable {st st₂ mid last : Progress} {t : Token} {used a : List Token}

theorem Hole.ne_nil (h : Hole name G W B) : G ++ B ≠ [] := by
  obtain ⟨inner, hG, -⟩ := h.group
  simp [hG, nameMark]

theorem Hole.head (h : Hole name G W B) : (G ++ B).head? = some (.plain '(') := by
  obtain ⟨inner, hG, -⟩ := h.group
  simp [hG, nameMark]

theorem Hole.blindly (h : Hole name G W B) (us : List Token) : Blindly (us ++ (G ++ B)) (us ++ (W ++ B)) :=
  Blindly.prepend (fun _ => h.whole) us

theorem Seam.of_append {us : List Token} (h : Seam W (us ++ a)) : a = [] ∨ Seam W a := by
  cases a with
  | nil => exact Or.inl rfl
  | cons u a =>
      refine Or.inr (h.imp_left fun hlast => ?_)
      simpa [List.getLast?_append, List.getLast?_cons] using hlast

/-- A seam hides what is behind it from the bounds of a repetition. -/
theorem Seam.alike (h : Seam W a) (hhole : Hole name G W B) : Alike (a ++ (G ++ B)) (a ++ (W ++ B)) := by
  rcases h with hlast | hhead
  · obtain ⟨init, rfl⟩ := List.getLast?_eq_some_iff.1 hlast
    exact Or.inr ⟨init, .plain ')', G ++ B, W ++ B, by simp, by simp, by simp⟩
  · obtain ⟨g, hg⟩ := List.head?_eq_some_iff.1 hhole.head
    obtain ⟨w, rfl⟩ := List.head?_eq_some_iff.1 hhead
    exact Or.inr ⟨a, .plain '(', g, w ++ B, by simp, by rw [hg], by simp⟩

theorem Place.next_eq (h : Place name G W B k st st₂) :
    st₂.nextGroup = st.nextGroup ∧ st.nextGroup ≤ k ∨ st.nextGroup = st₂.nextGroup + 1 ∧ k ≤ st₂.nextGroup := by
  cases h with
  | before a rest rest₂ next early => exact Or.inl ⟨next, early⟩
  | behind rest short next late => exact Or.inr ⟨next, late⟩

/-- The next group has the number in the second pattern that it should have. -/
theorem Place.renumber_next (h : Place name G W B k st st₂) (hne : st.nextGroup ≠ k) :
    renumber k st.nextGroup = st₂.nextGroup := by
  rcases h.next_eq with ⟨heq, hle⟩ | ⟨heq, hle⟩
  · rw [heq, renumber_of_lt (Nat.lt_of_le_of_ne hle hne)]
  · rw [renumber, if_pos (by omega), heq, Nat.add_sub_cancel]

/-- Where the two patterns stand depends on what is left to read, the number of the next group and the
names, and on nothing else. -/
theorem Place.congr (h : Place name G W B k st st₂) (hrest : mid.rest = st.rest)
    (hnext : mid.nextGroup = st.nextGroup) (hnames : mid.names = st.names) {mid₂ : Progress}
    (hrest₂ : mid₂.rest = st₂.rest) (hnext₂ : mid₂.nextGroup = st₂.nextGroup) :
    Place name G W B k mid mid₂ := by
  cases h with
  | before a rest rest₂ next early absent seam only =>
      exact .before a (hrest.trans rest) (hrest₂.trans rest₂) (hnext₂.trans (next.trans hnext.symm)) (hnext ▸ early)
        (hnames ▸ absent) seam only
  | behind rest short next late =>
      exact .behind (hrest₂.trans (rest.trans hrest.symm)) (hrest ▸ short) (by rw [hnext, hnext₂, next])
        (hnext₂ ▸ late)

/-- A place that has been passed without reading its group is lost. -/
theorem unnamed_of_passed {us : List Token}
    (only : ∀ more, nameMark name ++ more <:+ a ++ (G ++ B) → nameMark name ++ more = G ++ B)
    (hus : us ≠ []) (hrest : G ++ B = us ++ last.rest) (habsent : last.names.lookup (String.ofList name) = none) :
    Unnamed name last := by
  refine ⟨habsent, fun more hmore => ?_⟩
  have hsuffix : last.rest <:+ G ++ B := ⟨us, hrest.symm⟩
  have heq := only more ((hmore.trans hsuffix).trans (List.suffix_append a (G ++ B)))
  have hle := hmore.length_le
  have hlength : (G ++ B).length = us.length + last.rest.length := by rw [hrest, List.length_append]
  rw [heq] at hle
  exact hus (List.length_eq_zero_iff.1 (by omega))

theorem take_of_rest {ts : List Token} (hrest : st.rest = t :: ts) (hts : Whole ts) :
    take st = .ok (some t, st.facing ts (st.offset + t.width)) := by
  have hst : st = st.facing (t :: ts) st.offset := by rw [← hrest]; rfl
  rw [hst]
  exact take_facing hts

/-- What is left to read, of which a seam hides the place. -/
theorem Seam.exchange (h : Seam W ((t :: used) ++ a)) (hhole : Hole name G W B) :
    Exchange (t :: used) (a ++ (G ++ B)) (a ++ (W ++ B)) where
  whole := hhole.blindly a
  stop hnil := absurd (List.append_eq_nil_iff.1 hnil).2 hhole.ne_nil
  alike hclose := by
    rcases h.of_append with rfl | hseam
    · refine Seam.alike (a := []) (Or.inr (h.resolve_left ?_)) hhole
      simpa using hclose
    · exact hseam.alike hhole

/-- The tokens that were taken in the first pattern can be taken in the second one, and both stay
together. -/
def Together (name : List Char) (G W B : List Token) (k : Nat) (st₂ mid last : Progress) (t : Token)
    (used : List Token) : Prop :=
  ∃ mid₂ ts, take st₂ = .ok (some t, mid₂) ∧ mid₂.rest = used ++ ts ∧ Akin k mid mid₂ ∧
    Exchange (t :: used) last.rest ts ∧ ∀ o asked', asked'.map Prod.fst = last.asked.map Prod.fst →
      Sim name G W B k last (mid₂.asking ts o asked')

/-- All but the place is what it was. -/
theorem Sim.together (hsim : Sim name G W B k st st₂) (htake : take st = .ok (some t, mid))
    (htook : TookAsking k mid used last) {ts : List Token} (hused : st₂.rest = t :: (used ++ ts))
    (hwhole : Whole (used ++ ts)) (hexchange : Exchange (t :: used) last.rest ts)
    (hplace : Place name G W B k last (st₂.facing ts 0)) : Together name G W B k st₂ mid last t used := by
  obtain ⟨-, -, hmid⟩ := rest_of_take htake
  have hakin : ∀ o, Akin k mid (st₂.facing (used ++ ts) o) := by
    intro o
    rw [hmid]
    exact hsim.akin.facing _ _ _ _
  refine ⟨_, ts, take_of_rest hused hwhole, rfl, hakin _, hexchange, fun o asked' hasked => ?_⟩
  refine ⟨htook.akin (hakin _) hasked ts o, ?_, ?_, ?_, ?_, ?_⟩
  · rw [htook.frame, hmid]
    exact hsim.global
  · rw [htook.frame, hmid]
    exact hsim.pending
  · rw [htook.frame, hmid]
    exact hsim.names
  · intro p hp
    rcases htook.below p hp with hp | hp
    · rw [hmid] at hp
      exact hsim.asked p hp
    · exact hp
  · apply hplace.congr <;> rfl

/-- **Taking the same tokens** in both patterns: either they stay together, or the group has been passed
over in the first one. -/
theorem Sim.advance (hhole : Hole name G W B) (hsim : Sim name G W B k st st₂)
    (htake : take st = .ok (some t, mid)) (htook : TookAsking k mid used last) (hat : st.rest ≠ G ++ B) :
    Together name G W B k st₂ mid last t used ∨ Unnamed name last ∧ ¬ st.rest <:+ B := by
  obtain ⟨hrest, hwhole, hmid⟩ := rest_of_take htake
  have hnames : last.names = st.names := by rw [htook.frame, hmid]; rfl
  have hnext : last.nextGroup = st.nextGroup := by rw [htook.frame, hmid]; rfl
  cases hsim.place with
  | behind rest short next late =>
      have hused : st₂.rest = t :: (used ++ last.rest) := by rw [rest, hrest, htook.rest]
      have hshort : last.rest <:+ B := by
        refine List.IsSuffix.trans ⟨t :: used, ?_⟩ short
        rw [hrest, htook.rest]
        rfl
      exact Or.inl (hsim.together htake htook hused (htook.rest ▸ hwhole) ⟨id, id, fun _ => .refl _⟩
        (.behind rfl hshort (hnext.trans next) late))
  | before a rest rest₂ next early absent seam only =>
      cases a with
      | nil => exact absurd rest hat
      | cons u a =>
          obtain ⟨rfl, hafter⟩ : u = t ∧ mid.rest = a ++ (G ++ B) := by
            rw [rest] at hrest
            obtain ⟨rfl, h⟩ := List.cons.inj hrest
            exact ⟨rfl, h.symm⟩
          have hstay : ∀ bs, a = used ++ bs → last.rest = bs ++ (G ++ B) →
              Together name G W B k st₂ mid last u used := by
            rintro bs rfl hlast
            have hseam : Seam W ((u :: used) ++ bs) := seam.resolve_left (by simp)
            have hused : st₂.rest = u :: (used ++ (bs ++ (W ++ B))) := by simp [rest₂]
            have hahead : Whole (used ++ (bs ++ (W ++ B))) := by
              have hblind := hhole.blindly (used ++ bs)
              simp only [List.append_assoc] at hblind hafter
              exact hblind (hafter ▸ hwhole)
            refine hsim.together htake htook hused hahead (hlast ▸ hseam.exchange hhole) ?_
            refine .before bs hlast rfl (next.trans hnext.symm) (hnext ▸ early) (hnames ▸ absent) hseam.of_append
              fun more hmore => ?_
            exact only more (hmore.trans ⟨u :: used, by simp⟩)
          -- what was taken ends in front of the place, or it goes into the place
          rcases List.append_eq_append_iff.1 (htook.rest.symm.trans hafter).symm with
            ⟨as, hused, hGB⟩ | ⟨bs, ha, hlast⟩
          · by_cases has : as = []
            · subst has
              rw [List.append_nil] at hused
              exact Or.inl (hstay [] (by simp [hused]) (by simpa using hGB.symm))
            · refine Or.inr ⟨unnamed_of_passed only has hGB (hnames ▸ absent), fun hshort => ?_⟩
              have hle := hshort.length_le
              rw [rest] at hle
              simp at hle
              omega
          · exact Or.inl (hstay bs ha hlast)

/-- Taking one token. -/
theorem Sim.one (hhole : Hole name G W B) (hsim : Sim name G W B k st st₂)
    (htake : take st = .ok (some t, mid)) (ht : t ≠ .plain '(') :
    (∃ mid₂, take st₂ = .ok (some t, mid₂) ∧ Sim name G W B k mid mid₂) ∨ Unnamed name mid := by
  have hat : st.rest ≠ G ++ B := by
    intro hat
    have hhead := hhole.head
    rw [← hat, (rest_of_take htake).1] at hhead
    exact ht (by simpa using hhead)
  rcases hsim.advance hhole htake (Took.refl mid).asking hat with
    ⟨mid₂, ts, htake₂, hrest, hakin, -, hsim'⟩ | ⟨hlost, -⟩
  · refine Or.inl ⟨mid₂, htake₂, ?_⟩
    have h := hsim' mid₂.offset mid₂.asked hakin.asked.symm
    rwa [show ts = mid₂.rest from hrest.symm] at h
  · exact Or.inr hlost

theorem closeParen_iff_take {start : Nat} :
    closeParen start st = .ok ((), mid) ↔ take st = .ok (some (.plain ')'), mid) := by
  rw [closeParen_eq_ok]
  constructor
  · rintro ⟨ts, hrest, hts, rfl⟩
    exact take_of_rest hrest hts
  · intro h
    obtain ⟨hrest, hts, hframe⟩ := rest_of_take h
    exact ⟨mid.rest, hrest, hts, hframe⟩

theorem bar_iff_take : accept '|' st = .ok (true, mid) ↔ take st = .ok (some (.plain '|'), mid) := by
  constructor
  · intro h
    rcases accept_eq_ok h with ⟨-, ts, hrest, hts, rfl⟩ | ⟨hfalse, -⟩
    · exact take_of_rest hrest hts
    · cases hfalse
  · intro h
    obtain ⟨hrest, hts, hframe⟩ := rest_of_take h
    have hst : st = st.facing (.plain '|' :: mid.rest) st.offset := by rw [← hrest]; rfl
    rw [hst, accept_facing hts, hframe]
    rfl

variable {start : Nat} {o : Opening}

/-- Opening a group in both patterns. -/
theorem Sim.akin_opened (hsim : Sim name G W B k st st₂) (given : Option (List Char)) :
    Akin k (st.opened given) (st₂.opened given) := by
  have h := hsim.akin
  refine ⟨fun i hi hopened => ?_, h.closed, fun nm i hi hname => ?_, h.ahead, h.behind, h.asked⟩
  · have hnext := hsim.place.next_eq
    change i < st.nextGroup + 1 at hopened
    show i < st₂.nextGroup + 1
    omega
  · rw [lookup_opened] at hname ⊢
    cases hold : st.names.lookup nm with
    | some j =>
        rw [hold, Option.some_or] at hname
        rw [h.named nm i hi (hold.trans hname), Option.some_or]
    | none =>
        rw [hold, Option.none_or] at hname
        rw [hsim.names nm hold, Option.none_or]
        split at hname
        · rename_i hgiven
          cases hname
          rw [if_pos hgiven, hsim.place.renumber_next hi]
        · cases hname

/-- Taking a closing parenthesis. -/
theorem Sim.close (hhole : Hole name G W B) (hsim : Sim name G W B k st st₂)
    (h : closeParen start st = .ok ((), mid)) (start₂ : Nat) :
    (∃ mid₂, closeParen start₂ st₂ = .ok ((), mid₂) ∧ Sim name G W B k mid mid₂) ∨ Unnamed name mid := by
  refine (hsim.one hhole (closeParen_iff_take.1 h) (by simp)).imp_left ?_
  rintro ⟨mid₂, htake, hsim'⟩
  exact ⟨mid₂, closeParen_iff_take.2 htake, hsim'⟩

/-- Setting flags for the whole pattern. -/
theorem Sim.flagged (hsim : Sim name G W B k st st₂) (flags : Flags) :
    Sim name G W B k { st with global := flags } { st₂ with global := flags } := by
  refine ⟨⟨hsim.akin.opened, hsim.akin.closed, hsim.akin.named, hsim.akin.ahead, hsim.akin.behind,
    hsim.akin.asked⟩, rfl, hsim.pending, hsim.names, hsim.asked, ?_⟩
  apply hsim.place.congr <;> rfl

/-- The name has the number `k`, or may still get it. -/
def Awaits (name : List Char) (k : Nat) (st : Progress) : Prop :=
  st.names.lookup (String.ofList name) = some k ∨
    st.names.lookup (String.ofList name) = none ∧ st.nextGroup ≤ k

theorem Awaits.of_later (h : Awaits name k mid) (hlater : Later st mid) : Awaits name k st := by
  cases hold : st.names.lookup (String.ofList name) with
  | some j =>
      have hkept := hlater.kept _ j hold
      rcases h with hk | ⟨hnone, -⟩
      · exact Or.inl (hold.trans (hkept.symm.trans hk))
      · cases hkept.symm.trans hnone
  | none =>
      refine Or.inr ⟨hold, ?_⟩
      rcases h with hk | ⟨-, hle⟩
      · rcases hlater.new _ k hk with hkept | ⟨hle, -⟩
        · cases hold.symm.trans hkept
        · exact hle
      · exact Nat.le_trans hlater.next hle

/-- The name is not given in front of the place. -/
theorem Hole.absent_opened (hhole : Hole name G W B) {given : Option (List Char)} (hrest : st.rest = a ++ (G ++ B))
    (habsent : st.names.lookup (String.ofList name) = none) (hgiven : given = some name → st.rest <:+ B) :
    (st.opened given).names.lookup (String.ofList name) = none := by
  rw [lookup_opened, habsent, Option.none_or, if_neg]
  intro hname
  obtain ⟨cs, rfl, hcs⟩ := Option.map_eq_some_iff.1 hname
  obtain rfl : cs = name := String.ofList_injective hcs
  have hle := (hgiven rfl).length_le
  obtain ⟨inner, hG, -⟩ := hhole.group
  rw [hrest, hG] at hle
  simp [nameMark] at hle
  omega

/-- The number of the name is left to the group at the place. -/
theorem Sim.number_ne (hhole : Hole name G W B) (hsim : Sim name G W B k st st₂) {given : Option (List Char)}
    (hgiven : given = some name → st.rest <:+ B) (hk : Awaits name k (st.opened given)) : st.nextGroup ≠ k := by
  cases hsim.place with
  | before a rest rest₂ next early absent =>
      have hnone := hhole.absent_opened rest absent hgiven
      rcases hk with hk | ⟨-, hle⟩
      · cases hnone.symm.trans hk
      · exact Nat.ne_of_lt hle
  | behind rest short next late => omega

/-- Entering a group in both patterns. -/
theorem Sim.enter (hhole : Hole name G W B) (hsim : Sim name G W B k st st₂)
    (h : o.enter st = .ok ((), mid)) (hgiven : o = .capture (some name) → st.rest <:+ B)
    (hk : Awaits name k mid) :
    (∃ mid₂, o.enter st₂ = .ok ((), mid₂) ∧ Sim name G W B k mid mid₂) ∧
      ∀ given, o = .capture given → st.nextGroup ≠ k := by
  cases o with
  | capture given =>
      obtain ⟨i, mid', hopened, h₁⟩ := bind_eq_ok.1 h
      cases h₁
      obtain ⟨-, hnew, rfl⟩ := openGroup_eq_ok.1 hopened
      replace hgiven : given = some name → st.rest <:+ B := fun heq => hgiven (heq ▸ rfl)
      have hne := hsim.number_ne hhole hgiven hk
      refine ⟨⟨st₂.opened given, ?_, hsim.akin_opened given, hsim.global, hsim.pending, fun nm hname => ?_,
        hsim.asked, ?_⟩, fun _ _ => hne⟩
      · exact bind_of_ok (openGroup_eq_ok.2 ⟨rfl, fun cs hcs => hsim.names _ (hnew cs hcs), rfl⟩)
      · rw [lookup_opened, Option.or_eq_none_iff] at hname ⊢
        refine ⟨hsim.names nm hname.1, ?_⟩
        split
        · rename_i hgiven
          rw [if_pos hgiven] at hname
          cases hname.2
        · rfl
      · cases hsim.place with
        | before a rest rest₂ next early absent seam only =>
            exact .before a rest rest₂ (congrArg (· + 1) next) (Nat.lt_of_le_of_ne early hne)
              (hhole.absent_opened rest absent hgiven) seam only
        | behind rest short next late =>
            exact .behind rest short (congrArg (· + 1) next) (Nat.le_succ_of_le late)
  | look behind positive =>
      refine ⟨?_, fun _ heq => by cases heq⟩
      cases behind with
      | false => cases h; exact ⟨st₂, rfl, hsim⟩
      | true =>
          cases h
          refine ⟨_, rfl, ⟨hsim.akin.opened, hsim.akin.closed, hsim.akin.named, ?_, ?_, hsim.akin.asked⟩,
            hsim.global, hsim.pending, hsim.names, hsim.asked, ?_⟩
          · intro hnone
            cases (Option.or_eq_none_iff.1 hnone).2
          · intro f hf
            cases hbehind : st.behindFrom with
            | some g =>
                obtain ⟨f₂, hf₂, hle⟩ := hsim.akin.behind g hbehind
                simp only [hbehind, Option.some_or, Option.some.injEq] at hf
                exact ⟨f₂, by simp [hf₂], hf ▸ hle⟩
            | none =>
                simp only [hbehind, Option.none_or, Option.some.injEq] at hf
                refine ⟨st₂.nextGroup, by simp [hsim.akin.ahead hbehind], fun i hi hle => ?_⟩
                have hnext := hsim.place.next_eq
                unfold renumber at hle
                split at hle <;> omega
          · apply hsim.place.congr <;> rfl
  | _ => cases h; exact ⟨⟨st₂, rfl, hsim⟩, fun _ heq => by cases heq⟩

/-- A condition that holds all over the item of a group holds all over its body. -/
theorem all_of_leave {P : Regex → Prop} {before : Progress} {body : Regex} {item : Item}
    (h : o.leave before body st = .ok (item, mid)) (hitem : All P item.node) : All P body := by
  rcases node_of_leave h with ⟨name, rfl, hnode⟩ | ⟨back, positive, hnode⟩ | hnode | hnode
  · exact (hnode ▸ hitem : All P (.group _ body)).2
  · exact (hnode ▸ hitem : All P (.look back positive body)).2
  · exact (hnode ▸ hitem : All P (.atomic body))
  · exact hnode ▸ hitem

variable {before before₂ : Progress} {body body₂ : Regex} {item : Item} {ns : List Nat}

/-- A state whose widths, pending fault or notes have changed alike. -/
theorem Sim.closed (hsim : Sim name G W B k st st₂) {i : Nat} {w w₂ : Width} :
    Sim name G W B k { st with widths := (i, w) :: st.widths }
      { st₂ with widths := (renumber k i, w₂) :: st₂.widths } := by
  refine ⟨⟨hsim.akin.opened, fun j hj hclosed => ?_, hsim.akin.named, hsim.akin.ahead, hsim.akin.behind,
    hsim.akin.asked⟩, hsim.global, hsim.pending, hsim.names, hsim.asked, ?_⟩
  · rw [List.lookup_cons] at hclosed ⊢
    by_cases hij : j = i
    · rw [beq_iff_eq.2 (congrArg (renumber k) hij)]
      rfl
    · rw [beq_eq_false_iff_ne.2 hij] at hclosed
      split
      · rfl
      · exact hsim.akin.closed j hj hclosed
  · apply hsim.place.congr <;> rfl

theorem Sim.noted (hsim : Sim name G W B k st st₂) (hbefore : Sim name G W B k before before₂)
    (fault : Option Fault) : Sim name G W B k
      { st with behindFrom := before.behindFrom, pending := st.pending.or fault }
      { st₂ with behindFrom := before₂.behindFrom, pending := st₂.pending.or fault } := by
  refine ⟨⟨hsim.akin.opened, hsim.akin.closed, hsim.akin.named, hbefore.akin.ahead, hbefore.akin.behind,
    hsim.akin.asked⟩, hsim.global, fun hnone => ?_, hsim.names, hsim.asked, ?_⟩
  · obtain ⟨hpending, hfault⟩ := Option.or_eq_none_iff.1 hnone
    exact Option.or_eq_none_iff.2 ⟨hsim.pending hpending, hfault⟩
  · apply hsim.place.congr <;> rfl

/-- Leaving a group in both patterns. -/
theorem Sim.leave (hbefore : Sim name G W B k before before₂) (hsim : Sim name G W B k st st₂)
    (hne : ∀ given, o = .capture given → before.nextGroup ≠ k)
    (h : o.leave before body st = .ok (item, mid)) (hsteady : Steady k ns item.node)
    (hbody : Free k body → SameWidth body body₂) :
    ∃ item₂ mid₂, o.leave before₂ body₂ st₂ = .ok (item₂, mid₂) ∧ Sim name G W B k mid mid₂ ∧
      item₂.kind = item.kind ∧ (Free k item.node → SameWidth item.node item₂.node) := by
  cases o with
  | capture given =>
      cases h
      refine ⟨_, _, rfl, ?_, rfl, fun hfree => hbody hfree.2⟩
      rw [← hbefore.place.renumber_next (hne given rfl)]
      exact hsim.closed
  | plain on off =>
      cases h
      exact ⟨_, _, rfl, hsim, rfl, hbody⟩
  | atomic =>
      cases h
      exact ⟨_, _, rfl, hsim, rfl, hbody⟩
  | look behind positive =>
      cases behind with
      | false =>
          cases h
          exact ⟨_, _, rfl, hsim, rfl, fun _ _ _ => rfl⟩
      | true =>
          rw [leave_lookBehind] at h
          cases h
          -- the width of the body is the same, whatever is known about groups
          have hwidth := hbody hsteady.1 (groupWidth st) (groupWidth st₂)
          refine ⟨_, _, leave_lookBehind before₂ body₂ st₂ positive, ?_, rfl, fun _ _ _ => rfl⟩
          rw [hwidth]
          exact hsim.noted hbefore _
  | _ => cases h

/-! ## At the place -/

/-- At the place, an opening parenthesis begins the group with the name. -/
theorem Hole.opening_eq (h : Hole name G W B) (hat : st.rest = G ++ B)
    (htake : take st = .ok (some (.plain '('), mid)) (flags : Flags) (start : Nat) :
    ∃ inner o', G = nameMark name ++ (inner ++ [.plain ')']) ∧
      opening flags start mid = .ok (.capture (some name), mid.facing (inner ++ .plain ')' :: B) o') := by
  obtain ⟨inner, rfl, hwhole, -⟩ := h.group
  obtain ⟨hrest, -, -⟩ := rest_of_take htake
  rw [hat] at hrest
  have hmid : mid = mid.facing (.plain '?' :: .plain 'P' :: .plain '<' ::
      (name.map .plain ++ .plain '>' :: (inner ++ .plain ')' :: B))) mid.offset := by
    have hafter : mid.rest = .plain '?' :: .plain 'P' :: .plain '<' ::
        (name.map .plain ++ .plain '>' :: (inner ++ .plain ')' :: B)) := by
      simpa [nameMark] using hrest.symm
    rw [← hafter]
    rfl
  rw [hmid]
  exact ⟨inner, _, rfl, opening_named h.unclosed h.valid hwhole⟩

/-- The group at the place is read, and what stands in its stead is left to read in the second pattern. -/
theorem Sim.at_place (hhole : Hole name G W B) (hsim : Sim name G W B k st st₂) (hat : st.rest = G ++ B)
    {flags inner : Flags} {st₁ st₃ st₄ st₅ st₆ : Progress} {bodies : List (List Item)} (o₂ : Nat)
    (htake : take st = .ok (some (.plain '('), st₁)) (hopen : opening flags st.offset st₁ = .ok (o, mid))
    (hinner : o.inner? flags = some inner) (henter : o.enter mid = .ok ((), st₃))
    (hbody : Parses { flags := inner } [] [] st₃ bodies st₄) (hclose : closeParen st.offset st₄ = .ok ((), st₅))
    (hleave : o.leave mid (assemble bodies) st₅ = .ok (item, st₆)) (hnumber : st.nextGroup = k) :
    st₂.rest = W ++ B ∧ item.kind = .other ∧ ¬ Free k item.node ∧ Sim name G W B k st₆ (st₂.facing B o₂) := by
  obtain ⟨inside, o', hG, hopening⟩ := hhole.opening_eq hat htake flags st.offset
  cases hopening.symm.trans hopen
  cases hinner
  obtain ⟨_, _, hopened, h₁⟩ := bind_eq_ok.1 henter
  cases h₁
  obtain ⟨-, -, rfl⟩ := openGroup_eq_ok.1 hopened
  -- what the group holds is known
  obtain ⟨inside', hG', -, hread⟩ := hhole.group
  obtain rfl : inside' = inside := by
    have hsame := List.append_cancel_left (hG'.symm.trans hG)
    exact List.append_cancel_right hsame
  obtain ⟨items, o'', hparses⟩ := hread flags ((st₁.facing (inside' ++ .plain ')' :: B) o').opened (some name)) o'
  obtain ⟨rfl, rfl⟩ := hparses.unique hbody
  obtain ⟨ts, hts, -, rfl⟩ := closeParen_eq_ok.1 hclose
  cases hts
  cases hleave
  obtain ⟨-, -, hst₁⟩ := rest_of_take htake
  cases hsim.place with
  | behind rest short next late =>
      have hle := short.length_le
      rw [hat, hG] at hle
      simp [nameMark] at hle
      omega
  | before a rest rest₂ next early absent seam only =>
      obtain rfl : a = [] := by
        rw [hat] at rest
        simpa using rest
      have hakin : Akin k st₁ st₂ := by
        rw [hst₁]
        exact hsim.akin.facing _ st₂.rest _ st₂.offset
      have hk : st₁.nextGroup = k := by rw [hst₁]; exact hnumber
      have hk₂ : st₂.nextGroup = k := next.trans hnumber
      have hnames : st₁.names = st.names := by rw [hst₁]; rfl
      refine ⟨rest₂, rfl, fun hfree => hfree.1 hk, ⟨fun i hi _ => hk₂.symm ▸ hi, fun i hi hclosed => ?_,
        fun nm i hi hname => ?_, hakin.ahead, hakin.behind, hakin.asked⟩, ?_, ?_, fun nm hname => ?_, ?_,
        .behind rfl List.suffix_rfl (congrArg (· + 1) (hk.trans hk₂.symm)) (Nat.le_of_eq hk₂.symm)⟩
      · refine hakin.closed i hi ?_
        have hne : (i == st₁.nextGroup) = false := beq_eq_false_iff_ne.2 (by omega)
        change (List.lookup i ((st₁.nextGroup, _) :: st₁.widths)).isSome = true at hclosed
        rwa [List.lookup_cons, hne] at hclosed
      · replace hname : ((st₁.facing (inside' ++ .plain ')' :: B) o').opened (some name)).names.lookup nm =
          some i := hname
        rw [lookup_opened, show (st₁.facing _ o').names = st.names from hnames] at hname
        refine hsim.akin.named nm i hi ?_
        cases hold : st.names.lookup nm with
        | some j => rwa [hold, Option.some_or] at hname
        | none =>
            rw [hold, Option.none_or] at hname
            split at hname
            · cases hname
              exact absurd hk hi
            · cases hname
      · rw [hst₁]
        exact hsim.global
      · rw [hst₁]
        exact hsim.pending
      · replace hname : ((st₁.facing (inside' ++ .plain ')' :: B) o').opened (some name)).names.lookup nm =
          none := hname
        rw [lookup_opened, show (st₁.facing _ o').names = st.names from hnames, Option.or_eq_none_iff] at hname
        exact hsim.names nm hname.1
      · rw [hst₁]
        exact hsim.asked

/-! ## Items -/

variable {done done₂ done' : List (List Item)} {items items₂ items' : List Item} {p : Piece}

theorem Linked.cons (h : Linked k done items done₂ items₂) {i i₂ : Item} (hkind : i₂.kind = i.kind)
    (hsame : Free k i.node → SameWidth i.node i₂.node) : Linked k done (i :: items) done₂ (i₂ :: items₂) := by
  refine ⟨fun hall => ?_, congrArg some hkind, h.first⟩
  obtain ⟨hi, hall⟩ := allItems_cons_cons.1 hall
  cases h.same hall with
  | cons hitems hdone => exact .cons (.cons (hsame hi) hitems) hdone

/-- An item that is read in both patterns. -/
theorem Linked.like (h : Linked k done items done₂ items₂) {i i₂ : Item} (hlike : i.Like i₂) :
    Linked k done (i :: items) done₂ (i₂ :: items₂) := by
  rcases hlike with rfl | ⟨flags, j, j₂, rfl, rfl⟩
  · exact h.cons rfl Free.sameWidth
  · exact h.cons rfl False.elim

/-- A condition that is read in both patterns. -/
theorem Linked.branch (h : Linked k done items done₂ items₂) (i i₂ : Nat) {yes yes₂ no no₂ : Regex}
    (hyes : Free k yes → SameWidth yes yes₂) (hno : Free k no → SameWidth no no₂) :
    Linked k done ({ node := .branch i yes no } :: items) done₂ ({ node := .branch i₂ yes₂ no₂ } :: items₂) :=
  h.cons rfl fun hfree g g₂ => congrArg₂ Width.either (hyes hfree.2.1 g g₂) (hno hfree.2.2 g g₂)

/-- A piece is added in both patterns. -/
theorem Linked.add (h : Linked k done items done₂ items₂) (hadd : p.add done items = some (done', items'))
    {p₂ : Piece} (hlike : p.Like p₂) :
    ∃ done₂' items₂', p₂.add done₂ items₂ = some (done₂', items₂') ∧ Linked k done' items' done₂' items₂' := by
  cases hlike with
  | item hlike => cases hadd; exact ⟨_, _, rfl, h.like hlike⟩
  | same =>
  cases p with
  | nothing => cases hadd; exact ⟨done₂, items₂, rfl, h⟩
  | bar =>
      cases hadd
      exact ⟨_, _, rfl, fun hall => .cons .nil (h.same (allItems_cons.1 hall).2), rfl, fun hnil => by cases hnil⟩
  | item i => cases hadd; exact ⟨_, _, rfl, h.like (Or.inl rfl)⟩
  | mark b mode =>
      cases items with
      | nil => cases hadd
      | cons i items =>
          cases items₂ with
          | nil => cases h.kind
          | cons i₂ items₂ =>
              have hkind : i₂.kind = i.kind := Option.some.inj h.kind
              simp only [Piece.add] at hadd ⊢
              split at hadd
              · rename_i hother
                cases hadd
                refine ⟨_, _, if_pos (hkind.trans hother), fun hall => ?_, rfl, h.first⟩
                rw [allItems_cons_cons, all_repeated] at hall
                cases h.same (allItems_cons_cons.2 hall) with
                | cons hitems hdone =>
                    cases hitems with
                    | cons hi hitems => exact .cons (.cons (sameWidth_repeated hi b mode) hitems) hdone
              · cases hadd

theorem linked_nil : Linked k [] [] [] [] := ⟨fun _ => .cons .nil .nil, rfl, fun _ => rfl⟩

/-! ## Both patterns side by side -/

/-- The second pattern can be read as far as the first one, or the name is lost. -/
def Follows (name : List Char) (G W B : List Token) (k : Nat) (scope : Scope) (done₂ : List (List Item))
    (items₂ : List Item) (st₂ : Progress) (out : List (List Item)) (st' : Progress) : Prop :=
  (∃ out₂ st₂', Parses scope done₂ items₂ st₂ out₂ st₂' ∧ Sim name G W B k st' st₂' ∧
    (Free k (assemble out) → SameWidth (assemble out) (assemble out₂))) ∨ Unnamed name st'

theorem stops_congr {scope : Scope} {ts ts₂ : List Token} (h : ts.head? = ts₂.head?) :
    Stops scope ts ↔ Stops scope ts₂ := by
  unfold Stops
  rw [h]

/-- Alternatives end in both patterns. -/
theorem Sim.stops (hhole : Hole name G W B) (hsim : Sim name G W B k st st₂) {scope : Scope}
    (h : Stops scope st.rest) : Stops scope st₂.rest := by
  cases hsim.place with
  | behind rest => rw [rest]; exact h
  | before a rest rest₂ =>
      cases a with
      | nil =>
          rw [rest] at h
          have hparen := h (.plain '(') (by simpa using hhole.head)
          simp at hparen
      | cons u a => exact (stops_congr (by rw [rest, rest₂]; rfl)).1 h

/-- A state that faces what it faces. -/
theorem facing_of_rest {ts : List Token} (h : mid.rest = ts) : mid = mid.facing ts mid.offset := by
  rw [← h]
  rfl

/-- A piece is read in both patterns. -/
theorem Sim.piece (hhole : Hole name G W B) (hsim : Sim name G W B k st st₂) {flags : Flags}
    (htake : take st = .ok (some t, mid)) (hread : readPiece flags st.offset t mid = .ok (p, last))
    (hp : p.Kept k (numberAt? st.rest).toList) :
    (∃ p₂ mid₂ last₂, take st₂ = .ok (some t, mid₂) ∧ readPiece flags st₂.offset t mid₂ = .ok (p₂, last₂) ∧
      p.Like p₂ ∧ Sim name G W B k last last₂) ∨ Unnamed name last := by
  have hat : st.rest ≠ G ++ B := by
    intro hat
    obtain rfl : t = .plain '(' := by
      have hhead := hhole.head
      rw [← hat, (rest_of_take htake).1] at hhead
      simpa using hhead
    obtain ⟨inner, o', -, hopen⟩ := hhole.opening_eq hat htake flags st.offset
    rw [readPiece_paren, bind_of_ok hopen] at hread
    cases hread
  rw [(rest_of_take htake).1] at hp
  obtain ⟨used, p₂, htook, hlike, htakes⟩ := readPiece_eq_ok hread hp
  rcases hsim.advance hhole htake htook hat with ⟨mid₂, ts, htake₂, hrest, hakin, hexchange, hsim'⟩ | ⟨hlost, -⟩
  · obtain ⟨o', asked', hasked, hread₂⟩ := htakes ts mid₂ st₂.offset hexchange hakin mid₂.offset
    rw [← facing_of_rest hrest] at hread₂
    exact Or.inl ⟨p₂, mid₂, _, htake₂, hread₂, hlike, hsim' o' asked' hasked⟩
  · exact Or.inr hlost

/-- A parenthesis that is not the one of the place begins the same in both patterns.  In front of the
place, the name is not given. -/
theorem Sim.begins (hhole : Hole name G W B) (hsim : Sim name G W B k st st₂) {flags : Flags}
    (htake : take st = .ok (some (.plain '('), mid)) (hopen : opening flags st.offset mid = .ok (o, last))
    (ho : o.Kept k (numberAt? st.rest).toList) (hat : st.rest ≠ G ++ B) :
    (∃ o₂ mid₂ last₂, take st₂ = .ok (some (.plain '('), mid₂) ∧ opening flags st₂.offset mid₂ = .ok (o₂, last₂) ∧
      o.Like o₂ ∧ Sim name G W B k last last₂ ∧ (o = .capture (some name) → last.rest <:+ B)) ∨
    Unnamed name last ∧ o ≠ .capture (some name) := by
  have hgiven : o = .capture (some name) → st.rest <:+ B ∧ last.rest <:+ B := by
    rintro rfl
    have hwritten := rest_of_opening_capture hhole.plain hopen
    rw [← (rest_of_take htake).1] at hwritten
    cases hsim.place with
    | behind rest short next late => exact ⟨short, List.IsSuffix.trans ⟨nameMark name, hwritten.symm⟩ short⟩
    | before a rest rest₂ next early absent seam only =>
        have heq := only last.rest ⟨[], hwritten.symm.trans rest⟩
        exact absurd (hwritten.trans heq) hat
  rw [(rest_of_take htake).1] at ho
  obtain ⟨used, o₂, htook, hlike, htakes⟩ := opening_eq_ok hopen ho
  rcases hsim.advance hhole htake htook hat with
    ⟨mid₂, ts, htake₂, hrest, hakin, hexchange, hsim'⟩ | ⟨hlost, hfront⟩
  · have hhead : used = [] → SameHead last.rest ts := by
      rintro rfl
      exact (hexchange.alike (by simp)).sameHead
    obtain ⟨o', asked', hasked, hopen₂⟩ := htakes ts mid₂ st₂.offset hhead hexchange.whole hakin mid₂.offset
    rw [← facing_of_rest hrest] at hopen₂
    exact Or.inl ⟨o₂, mid₂, _, htake₂, hopen₂, hlike, hsim' o' asked' hasked, fun ho => (hgiven ho).2⟩
  · exact Or.inr ⟨hlost, fun ho => hfront (hgiven ho).1⟩

theorem Unnamed.enter (h : Unnamed name st) (henter : o.enter st = .ok ((), mid))
    (ho : o ≠ .capture (some name)) : Unnamed name mid := by
  rcases enter_eq_ok henter with ⟨given, rfl, -, rfl⟩ | ⟨-, hquiet⟩
  · refine ⟨?_, h.unwritten⟩
    rw [lookup_opened, h.absent, Option.none_or, if_neg]
    intro hname
    obtain ⟨cs, rfl, hcs⟩ := Option.map_eq_some_iff.1 hname
    obtain rfl : cs = name := String.ofList_injective hcs
    exact ho rfl
  · exact h.quiet hquiet

theorem Hole.not_at (hhole : Hole name G W B) {flags : Flags} (htake : take st = .ok (some (.plain '('), mid))
    (hopen : opening flags st.offset mid = .ok (o, last)) (ho : o ≠ .capture (some name)) :
    st.rest ≠ G ++ B := by
  intro hat
  obtain ⟨inner, o', -, hopen'⟩ := hhole.opening_eq hat htake flags st.offset
  cases hopen.symm.trans hopen'
  exact ho rfl

/-- The group at the place has the number that the name has in the end. -/
theorem Hole.number (hhole : Hole name G W B) (hat : st.rest = G ++ B)
    {flags : Flags} {entered final : Progress} (htake : take st = .ok (some (.plain '('), mid))
    (hopen : opening flags st.offset mid = .ok (o, last)) (henter : o.enter last = .ok ((), entered))
    (hlater : Later entered final) (hk : Awaits name k final) : st.nextGroup = k := by
  obtain ⟨inner, o', -, hopen'⟩ := hhole.opening_eq hat htake flags st.offset
  cases hopen'.symm.trans hopen
  obtain ⟨_, _, hopened, h₁⟩ := bind_eq_ok.1 henter
  cases h₁
  obtain ⟨-, hnew, rfl⟩ := openGroup_eq_ok.1 hopened
  have hname : ((mid.facing (inner ++ .plain ')' :: B) o').opened (some name)).names.lookup
      (String.ofList name) = some mid.nextGroup := by
    rw [lookup_opened, hnew name rfl, Option.none_or, Option.map_some, if_pos rfl]
    rfl
  have hnext : mid.nextGroup = st.nextGroup := (quiet_of_take htake).nextGroup
  rcases hk with hk | ⟨hnone, -⟩
  · exact hnext.symm.trans (Option.some.inj ((hlater.kept _ _ hname).symm.trans hk))
  · cases (hlater.kept _ _ hname).symm.trans hnone

/-- What is read in front of the rest of the second pattern is read with it. -/
theorem Follows.of_parses {scope : Scope} {out : List (List Item)} {st' mid₂ : Progress}
    (h : Follows name G W B k scope done' items' mid₂ out st')
    (hread : ∀ out₂ st₂', Parses scope done' items' mid₂ out₂ st₂' → Parses scope done₂ items₂ st₂ out₂ st₂') :
    Follows name G W B k scope done₂ items₂ st₂ out st' := by
  refine h.imp_left ?_
  rintro ⟨out₂, st₂', hparses, hsim, hsame⟩
  exact ⟨out₂, st₂', hread out₂ st₂' hparses, hsim, hsame⟩

/-- An item is read in the second pattern, and is added to those that were read. -/
def Adds (scope : Scope) (st₂ : Progress) (item : Item) (mid₂ : Progress) : Prop :=
  ∀ done items out st', Parses scope done (item :: items) mid₂ out st' → Parses scope done items st₂ out st'

/-- What begins a group with one body refers to nothing. -/
theorem Opening.Like.eq_of_inner {o₂ : Opening} {flags inner : Flags} (h : o.Like o₂)
    (hinner : o.inner? flags = some inner) : o₂ = o := by
  cases h with
  | same => rfl
  | item => cases hinner
  | condition => cases hinner

/-- A group that is not the one of the place is read in both patterns. -/
theorem Sim.enclosed (hhole : Hole name G W B) (hsim : Sim name G W B k st st₂) (hat : st.rest ≠ G ++ B)
    {scope : Scope} {flags : Flags} {bodies : List (List Item)} {st₁ st₃ st₄ st₅ st₆ : Progress}
    (htake : take st = .ok (some (.plain '('), st₁)) (hopen : opening scope.flags st.offset st₁ = .ok (o, mid))
    (hinner : o.inner? scope.flags = some flags) (henter : o.enter mid = .ok ((), st₃))
    (hbody : Parses { flags } [] [] st₃ bodies st₄) (hclose : closeParen st.offset st₄ = .ok ((), st₅))
    (hleave : o.leave mid (assemble bodies) st₅ = .ok (item, st₆)) (hitem : Steady k ns item.node)
    (hk : Awaits name k st₃)
    (hfollows : ∀ ⦃st₃'⦄, Sim name G W B k st₃ st₃' → Follows name G W B k { flags } [] [] st₃' bodies st₄) :
    (∃ item₂ st₆', Adds scope st₂ item₂ st₆' ∧ Sim name G W B k st₆ st₆' ∧ item₂.kind = item.kind ∧
      (Free k item.node → SameWidth item.node item₂.node)) ∨ Unnamed name st₆ := by
  have ho : o.Kept k (numberAt? st.rest).toList := by
    cases o with
    | item i => cases hinner
    | condition i => cases hinner
    | _ => trivial
  have hlost₄ : Unnamed name st₄ → Unnamed name st₆ := fun hlost =>
    hlost.quiet ((quiet_of_closeParen hclose).trans (quiet_of_leave hleave))
  rcases hsim.begins hhole htake hopen ho hat with
    ⟨o₂, mid₁, mid₂, htake₂, hopen₂, hlike, hsim₂, hgiven⟩ | ⟨hlost, hother⟩
  · obtain rfl : o₂ = o := hlike.eq_of_inner hinner
    obtain ⟨⟨st₃', henter₂, hsim₃⟩, hne⟩ := hsim₂.enter hhole henter hgiven hk
    rcases hfollows hsim₃ with ⟨bodies₂, st₄', hbody₂, hsim₄, hsame⟩ | hlost
    · rcases hsim₄.close hhole hclose st₂.offset with ⟨st₅', hclose₂, hsim₅⟩ | hlost
      · obtain ⟨item₂, st₆', hleave₂, hsim₆, hkind, hfree⟩ := hsim₂.leave hsim₅ hne hleave hitem hsame
        refine Or.inl ⟨item₂, st₆', fun done items out st' hmore => ?_, hsim₆, hkind, hfree⟩
        exact .enclosed htake₂ hopen₂ hinner henter₂ hbody₂ hclose₂ hleave₂ hmore
      · exact Or.inr (hlost.quiet (quiet_of_leave hleave))
    · exact Or.inr (hlost₄ hlost)
  · exact Or.inr (hlost₄ (hbody.unnamed hhole.plain (hlost.enter henter hother)))

/-- A condition and what holds under it are read in both patterns. -/
theorem Sim.underCondition (hhole : Hole name G W B) (hsim : Sim name G W B k st st₂) {i : Nat}
    (hi : Kept k (numberAt? st.rest).toList i) {scope inner : Scope} {yes : List (List Item)} {st₁ st₃ : Progress}
    (htake : take st = .ok (some (.plain '('), st₁))
    (hopen : opening scope.flags st.offset st₁ = .ok (.condition i, mid))
    (hyes : Parses inner [] [] mid yes st₃)
    (hfollows : ∀ ⦃mid₂⦄, Sim name G W B k mid mid₂ → Follows name G W B k inner [] [] mid₂ yes st₃) :
    (∃ i₂ mid₁ mid₂ yes₂ st₃', take st₂ = .ok (some (.plain '('), mid₁) ∧
      opening scope.flags st₂.offset mid₁ = .ok (.condition i₂, mid₂) ∧ Parses inner [] [] mid₂ yes₂ st₃' ∧
      Sim name G W B k st₃ st₃' ∧ (Free k (assemble yes) → SameWidth (assemble yes) (assemble yes₂))) ∨
    Unnamed name st₃ := by
  rcases hsim.begins hhole htake hopen hi (hhole.not_at htake hopen (by simp)) with
    ⟨o₂, mid₁, mid₂, htake₂, hopen₂, hlike, hsim₂, -⟩ | ⟨hlost, -⟩
  · obtain ⟨i₂, rfl⟩ : ∃ i₂, o₂ = .condition i₂ := by cases hlike <;> exact ⟨_, rfl⟩
    rcases hfollows hsim₂ with ⟨yes₂, st₃', hyes₂, hsim₃, hsame⟩ | hlost
    · exact Or.inl ⟨i₂, mid₁, mid₂, yes₂, st₃', htake₂, hopen₂, hyes₂, hsim₃, hsame⟩
    · exact Or.inr hlost
  · exact Or.inr (hyes.unnamed hhole.plain hlost)

/-- **Both patterns side by side**: what is read in the first one is read in the second one, unless the
name is lost. -/
theorem Parses.follows (hhole : Hole name G W B) {scope : Scope} {out : List (List Item)} {st' : Progress}
    (h : Parses scope done items st out st') (hout : AllItems (steadyAt k ns) out) (hk : Awaits name k st') :
    ∀ ⦃done₂ items₂ st₂⦄, numbersIn st.rest ⊆ ns → Sim name G W B k st st₂ → Linked k done items done₂ items₂ →
      Follows name G W B k scope done₂ items₂ st₂ out st' := by
  induction h with
  | stop hstop =>
      intro done₂ items₂ st₂ _ hsim hlinked
      exact Or.inl ⟨_, _, .stop (hsim.stops hhole hstop), hsim, fun hfree =>
        (hlinked.same (all_assemble.1 hfree)).assemble⟩
  | @piece scope done done' out items items' st mid mid' st' t p hgo htake hread hadd hmore ih =>
      intro done₂ items₂ st₂ hns hsim hlinked
      have hp : p.Kept k (numberAt? st.rest).toList := by
        cases p with
        | item i =>
            cases hadd
            have hi := (allItems_cons_cons.1 (hmore.all hout)).1
            intro j rule hnode
            rw [hnode] at hi
            exact Kept.mono hi (numberAt?_subset hns)
        | _ => trivial
      have hafter := numbersIn_subset ((quiet_of_take htake).trans (quiet_of_readPiece hread)).suffix hns
      rcases hsim.piece hhole htake hread hp with ⟨p₂, mid₂, last₂, htake₂, hread₂, hlike, hsim'⟩ | hlost
      · obtain ⟨done₂', items₂', hadd₂, hlinked'⟩ := hlinked.add hadd hlike
        have hhead : st.rest.head? = st₂.rest.head? := by
          rw [(rest_of_take htake).1, (rest_of_take htake₂).1]
          rfl
        have hgo₂ : ¬ Stops scope st₂.rest := fun hstop => hgo ((stops_congr hhead).2 hstop)
        exact (ih hout hk hafter hsim' hlinked').of_parses fun _ _ hmore₂ => .piece hgo₂ htake₂ hread₂ hadd₂ hmore₂
      · exact Or.inr (hmore.unnamed hhole.plain hlost)
  | flags htop htake hopen hmore ih =>
      intro done₂ items₂ st₂ hns hsim hlinked
      have hafter := numbersIn_subset (quiet_of_group htake hopen).suffix hns
      rcases hsim.begins hhole htake hopen trivial (hhole.not_at htake hopen (by simp)) with
        ⟨o₂, mid₂, last₂, htake₂, hopen₂, hlike, hsim', -⟩ | ⟨hlost, -⟩
      · cases hlike
        obtain rfl := hlinked.first rfl
        obtain rfl : items₂ = [] := by simpa using hlinked.kind
        rcases ih hout hk hafter (hsim'.flagged _) linked_nil with ⟨out₂, st₂', hparses, hsim'', hsame⟩ | hlost
        · exact Or.inl ⟨out₂, st₂', .flags htop htake₂ hopen₂ hparses, hsim'', hsame⟩
        · exact Or.inr hlost
      · exact Or.inr (hmore.unnamed hhole.plain (hlost.quiet ⟨List.suffix_rfl, id, rfl, rfl⟩))
  | @enclosed scope done bodies out items item st st₁ mid st₃ st₄ st₅ st₆ st' o flags htake hopen hinner henter
      hbody hclose hleave hmore ihbody ih =>
      intro done₂ items₂ st₂ hns hsim hlinked
      have hleft := (quiet_of_closeParen hclose).trans (quiet_of_leave hleave)
      have hbehind : Later st₄ st' := hleft.later.trans hmore.later
      have hinside : numbersIn st₃.rest ⊆ ns := by
        rw [rest_of_enter henter]
        exact numbersIn_subset (quiet_of_group htake hopen).suffix hns
      have hafter := numbersIn_subset (hleft.suffix.trans hbody.suffix) hinside
      by_cases hat : st.rest = G ++ B
      · -- the group at the place is the one with the name, so its number is `k`
        have hnumber : st.nextGroup = k :=
          hhole.number hat htake hopen henter (hbody.later.trans hbehind) hk
        obtain ⟨pieces, o', hkind, hfilled⟩ := hhole.filled scope st₂ st₂.offset done₂ items₂
        obtain ⟨hrest₂, hother, hbound, hsim₆⟩ :=
          hsim.at_place hhole hat o' htake hopen hinner henter hbody hclose hleave hnumber
        have hlinked₆ : Linked k done (item :: items) done₂ (pieces ++ items₂) := by
          refine ⟨fun hall => absurd (allItems_cons_cons.1 hall).1 hbound, ?_, hlinked.first⟩
          cases pieces with
          | nil => cases hkind
          | cons i pieces => exact hkind.trans (congrArg some hother.symm)
        refine (ih hout hk hafter hsim₆ hlinked₆).of_parses fun out₂ st₂' hmore₂ => ?_
        have hread := hfilled out₂ st₂' hmore₂
        rwa [← facing_of_rest hrest₂] at hread
      · have hitem := (allItems_cons_cons.1 (hmore.all hout)).1
        have hbodies : AllItems (steadyAt k ns) bodies := all_assemble.1 (all_of_leave hleave hitem)
        have hk₄ := hk.of_later hbehind
        rcases hsim.enclosed hhole hat htake hopen hinner henter hbody hclose hleave hitem
          (hk₄.of_later hbody.later) (fun _ hsim₃ => ihbody hbodies hk₄ hinside hsim₃ linked_nil) with
          ⟨item₂, st₆', hadds, hsim₆, hkind, hfree⟩ | hlost
        · exact (ih hout hk hafter hsim₆ (hlinked.cons hkind hfree)).of_parses fun _ _ hmore₂ => hadds _ _ _ _ hmore₂
        · exact Or.inr (hmore.unnamed hhole.plain hlost)
  | @condition scope done yes out items st st₁ mid st₃ st₄ st' i htake hopen hyes hclose hmore ihyes ih =>
      intro done₂ items₂ st₂ hns hsim hlinked
      have hitem := (allItems_cons_cons.1 (hmore.all hout)).1
      have hi := Kept.mono hitem.1 (numberAt?_subset hns)
      have hlater₃ : Later st₃ st' := (quiet_of_closeParen hclose).later.trans hmore.later
      have hinside := numbersIn_subset (quiet_of_group htake hopen).suffix hns
      have hafter := numbersIn_subset ((quiet_of_closeParen hclose).suffix.trans hyes.suffix) hinside
      -- a name that is lost stays lost
      have hlost₄ : Unnamed name st₄ → Follows name G W B k scope done₂ items₂ st₂ out st' := fun hlost =>
        Or.inr (hmore.unnamed hhole.plain hlost)
      rcases hsim.underCondition hhole hi htake hopen hyes
        (fun _ hsim₂ => ihyes (all_assemble.1 hitem.2.1) (hk.of_later hlater₃) hinside hsim₂ linked_nil) with
        ⟨i₂, mid₁, mid₂, yes₂, st₃', htake₂, hopen₂, hyes₂, hsim₃, hsame⟩ | hlost
      · rcases hsim₃.close hhole hclose st₂.offset with ⟨st₄', hclose₂, hsim₄⟩ | hlost
        · have hlinked₄ := hlinked.branch i i₂ hsame (Free.sameWidth (r := .empty))
          exact (ih hout hk hafter hsim₄ hlinked₄).of_parses fun _ _ hmore₂ =>
            .condition htake₂ hopen₂ hyes₂ hclose₂ hmore₂
        · exact hlost₄ hlost
      · exact hlost₄ (hlost.quiet (quiet_of_closeParen hclose))
  | @conditionElse scope done yes no out items st st₁ mid st₃ st₄ st₅ st₆ st' i htake hopen hyes hbar hno hclose
      hmore ihyes ihno ih =>
      intro done₂ items₂ st₂ hns hsim hlinked
      have hitem := (allItems_cons_cons.1 (hmore.all hout)).1
      have hi := Kept.mono hitem.1 (numberAt?_subset hns)
      have hlater₅ : Later st₅ st' := (quiet_of_closeParen hclose).later.trans hmore.later
      have hlater₃ : Later st₃ st' := (quiet_of_bar hbar).later.trans (hno.later.trans hlater₅)
      have hinside := numbersIn_subset (quiet_of_group htake hopen).suffix hns
      have helse := numbersIn_subset ((quiet_of_bar hbar).suffix.trans hyes.suffix) hinside
      have hafter := numbersIn_subset ((quiet_of_closeParen hclose).suffix.trans hno.suffix) helse
      -- a name that is lost stays lost
      have hlost₅ : Unnamed name st₅ → Follows name G W B k scope done₂ items₂ st₂ out st' := fun hlost =>
        Or.inr (hmore.unnamed hhole.plain (hlost.quiet (quiet_of_closeParen hclose)))
      rcases hsim.underCondition hhole hi htake hopen hyes
        (fun _ hsim₂ => ihyes (all_assemble.1 hitem.2.1) (hk.of_later hlater₃) hinside hsim₂ linked_nil) with
        ⟨i₂, mid₁, mid₂, yes₂, st₃', htake₂, hopen₂, hyes₂, hsim₃, hsameYes⟩ | hlost
      · rcases hsim₃.one hhole (bar_iff_take.1 hbar) (by simp) with ⟨st₄', hbar₂, hsim₄⟩ | hlost
        · rcases ihno (all_assemble.1 hitem.2.2) (hk.of_later hlater₅) helse hsim₄ linked_nil with
            ⟨no₂, st₅', hno₂, hsim₅, hsameNo⟩ | hlost
          · rcases hsim₅.close hhole hclose st₂.offset with ⟨st₆', hclose₂, hsim₆⟩ | hlost
            · have hlinked₆ := hlinked.branch i i₂ hsameYes hsameNo
              exact (ih hout hk hafter hsim₆ hlinked₆).of_parses fun _ _ hmore₂ =>
                .conditionElse htake₂ hopen₂ hyes₂ (bar_iff_take.2 hbar₂) hno₂ hclose₂ hmore₂
            · exact Or.inr (hmore.unnamed hhole.plain hlost)
          · exact hlost₅ hlost
        · exact hlost₅ (hno.unnamed hhole.plain hlost)
      · exact hlost₅ (hno.unnamed hhole.plain (hlost.quiet (quiet_of_bar hbar)))

/-- **What stands in the place of a named group can be read**, if the first pattern can, the name is given in
it, and it is steady when that group is missing. -/
theorem exists_parse_of_hole (hhole : Hole name G W B) {text text₂ : List Char} {A : List Token} {q : Pattern}
    (htext : tokens text = A ++ (G ++ B)) (htext₂ : tokens text₂ = A ++ (W ++ B)) (hseam : A = [] ∨ Seam W A)
    (honly : ∀ more, nameMark name ++ more <:+ A ++ (G ++ B) → nameMark name ++ more = G ++ B)
    (hparse : parse text = .ok q) (hname : q.names.lookup (String.ofList name) = some k)
    (hsteady : Steady k (numbersIn (tokens text)) q.body) : ∃ q₂, parse text₂ = .ok q₂ := by
  obtain ⟨hwhole, out, st, hparses, hsettles, rfl⟩ := parse_eq_ok.1 hparse
  -- the first group has the number one, so the name's number is not below
  have hfirst : 1 ≤ k := by
    rcases hparses.later.new _ k hname with hnone | ⟨hle, -⟩
    · cases hnone
    · exact hle
  have hstart : Sim name G W B k { rest := tokens text } { rest := tokens text₂ } :=
    ⟨akin_start k _ _, rfl, id, fun _ => id, by simp, .before A htext htext₂ rfl hfirst rfl hseam honly⟩
  rcases hparses.follows hhole (all_assemble.1 hsteady) (Or.inl hname) (List.Subset.refl _) hstart linked_nil with
    ⟨out₂, st₂, hparses₂, hsim, -⟩ | hlost
  · refine ⟨_, parse_eq_ok.2 ⟨?_, out₂, st₂, hparses₂, ?_, rfl⟩⟩
    · rw [htext] at hwhole
      rw [htext₂]
      exact hhole.blindly A hwhole
    · cases hsim.place with
      | before a rest =>
          rw [hsettles.rest] at rest
          exact absurd (List.append_eq_nil_iff.1 rest.symm).2 hhole.ne_nil
      | behind rest short next late =>
          refine ⟨rest.trans hsettles.rest, by rw [hsim.global]; exact hsettles.flags, fun p hp => ?_,
            hsim.pending hsettles.pending⟩
          have hasked : p.1 ∈ st.asked.map Prod.fst := hsim.akin.asked ▸ List.mem_map_of_mem hp
          obtain ⟨p', hp', heq⟩ := List.mem_map.1 hasked
          exact Nat.lt_of_lt_of_le (heq ▸ hsim.asked p' hp') late
  · cases hlost.absent.symm.trans hname

end

end ServiceKeys.Regex
