import ServiceKeys.Proofs.Regex.Referring

/-!
# Derivations of written patterns

The reader of alternatives carries fuel and a continuation through every construct.  `Parses` says what
it reads without either: alternatives are read token by token, and every rule is one construct.  The two
agree (`parses_of_alternatives`, `Parses.alternatives_eq`), so that a property of what is read is an
induction on a derivation, and what is read is unique (`Parses.unique`).

The rules are few because constructs are brought together.  Everything that begins no group adds one
`Piece`; every group that has one body is entered, read and left (`Opening.enter`, `Opening.leave`); a
condition has one body or two.
-/

namespace ServiceKeys.Regex

open Reader

/-! ## Pieces -/

/-- What a construct that is complete adds to a sequence. -/
inductive Piece where
  | nothing
  /-- Another alternative. -/
  | bar
  | item (i : Item)
  /-- A repetition of the last item. -/
  | mark (b : Bounds) (mode : Mode)

/-- The piece of a beginning that is complete; any other one, at offset `start`, opens a group. -/
def Opening.piece (start : Nat) : Opening → Reader Piece
  | .comment => return .nothing
  | .item i => return .item i
  | _ => failAt .unterminatedGroup start

/-- Reads a construct that is complete, the first token of which, at offset `start`, has been taken. -/
def readPiece (flags : Flags) (start : Nat) : Token → Reader Piece
  | .dangling => fail .danglingEscape 0
  | .escaped c => return .item (← escapeItem flags c)
  | .plain c => do
    if c == '|' then return .bar
    else if flags.verbose && Text.isAsciiBlank c then return .nothing
    else if flags.verbose && c == '#' then
      skipLine ((← get).rest.length + 1)
      return .nothing
    else if c == '[' then return .item (← setItem flags)
    else if c == '?' || c == '*' || c == '+' || c == '\x7b' then
      match ← bounds? c with
      | none => return .item (codeItem flags c.toNat)
      | some b => return .mark b (← repeatMode)
    else if c == '.' then
      return .item { node := .one (if flags.dotAll then .noneOf [] else .noneOf ['\n']) }
    else if c == '^' then return .item (anchorItem (if flags.multiline then .lineStart else .textStart))
    else if c == '$' then return .item (anchorItem (if flags.multiline then .lineEnd else .lastLineEnd))
    else if c == '(' then (← opening flags start).piece start
    else return .item (codeItem flags c.toNat)

/-- The alternatives read so far and the items of the present one, with a piece added. -/
def Piece.add : Piece → List (List Item) → List Item → Option (List (List Item) × List Item)
  | .nothing, done, items => some (done, items)
  | .bar, done, items => some (items :: done, [])
  | .item i, done, items => some (done, i :: items)
  | .mark b mode, done, i :: items =>
    if i.kind = .other then some (done, { node := repeated i.node b mode, kind := .repeated } :: items) else none
  | .mark _ _, _, [] => none

/-! ## Groups -/

/-- The flags inside of a group that has one body. -/
def Opening.inner? (flags : Flags) : Opening → Option Flags
  | .capture _ => some flags
  | .plain on off => some (flags.scoped on off)
  | .atomic => some flags
  | .look _ _ => some flags
  | _ => none

/-- What is noted before the body of a group is read. -/
def Opening.enter : Opening → Reader Unit
  | .capture name => do let _ ← openGroup name
  | .look true _ => modify fun st => { st with behindFrom := st.behindFrom.or (some st.nextGroup) }
  | _ => return ()

/-- The item of a group with the given body, from what was known `before` the group was entered. -/
def Opening.leave (before : Progress) (body : Regex) : Opening → Reader Item
  | .capture _ => do
    closeGroup before.nextGroup body
    return { node := .group before.nextGroup body }
  | .plain _ _ => return { node := body }
  | .atomic => return { node := .atomic body }
  | .look false positive => return { node := .look none positive body }
  | .look true positive => do
    modify fun st => { st with behindFrom := before.behindFrom }
    return { node := ← lookBehind positive body }
  | _ => fail .unexpectedEnd 0

/-- Whether alternatives end in front of the given tokens. -/
def Stops (scope : Scope) (ts : List Token) : Prop :=
  ∀ t ∈ ts.head?, t = .plain ')' ∨ scope.single = true ∧ t = .plain '|'

/-! ## Derivations -/

/-- Alternatives are read: in a scope, from the alternatives and items read so far and a state, up to
all alternatives and another state. -/
inductive Parses : Scope → List (List Item) → List Item → Progress → List (List Item) → Progress → Prop
  | stop {scope : Scope} {done : List (List Item)} {items : List Item} {st : Progress}
      (hstop : Stops scope st.rest) : Parses scope done items st (items :: done) st
  | piece {scope : Scope} {done done' out : List (List Item)} {items items' : List Item}
      {st mid mid' st' : Progress} {t : Token} {p : Piece} (hgo : ¬ Stops scope st.rest)
      (htake : take st = .ok (some t, mid)) (hread : readPiece scope.flags st.offset t mid = .ok (p, mid'))
      (hadd : p.add done items = some (done', items')) (hmore : Parses scope done' items' mid' out st') :
      Parses scope done items st out st'
  | flags {scope : Scope} {out : List (List Item)} {st mid mid' st' : Progress} {on : List Flag}
      (htop : scope.top = true) (htake : take st = .ok (some (.plain '('), mid))
      (hopen : opening scope.flags st.offset mid = .ok (.flags on, mid'))
      (hmore : Parses { scope with flags := on.foldl (Flags.switch true) scope.flags } [] []
        { mid' with global := on.foldl (Flags.switch true) scope.flags } out st') :
      Parses scope [] [] st out st'
  | enclosed {scope : Scope} {done body out : List (List Item)} {items : List Item} {item : Item}
      {st st₁ st₂ st₃ st₄ st₅ st₆ st' : Progress} {o : Opening} {flags : Flags}
      (htake : take st = .ok (some (.plain '('), st₁)) (hopen : opening scope.flags st.offset st₁ = .ok (o, st₂))
      (hinner : o.inner? scope.flags = some flags) (henter : o.enter st₂ = .ok ((), st₃))
      (hbody : Parses { flags } [] [] st₃ body st₄) (hclose : closeParen st.offset st₄ = .ok ((), st₅))
      (hleave : o.leave st₂ (assemble body) st₅ = .ok (item, st₆))
      (hmore : Parses scope done (item :: items) st₆ out st') : Parses scope done items st out st'
  | condition {scope : Scope} {done yes out : List (List Item)} {items : List Item}
      {st st₁ st₂ st₃ st₄ st' : Progress} {i : Nat}
      (htake : take st = .ok (some (.plain '('), st₁))
      (hopen : opening scope.flags st.offset st₁ = .ok (.condition i, st₂))
      (hyes : Parses { flags := scope.flags, single := true } [] [] st₂ yes st₃)
      (hclose : closeParen st.offset st₃ = .ok ((), st₄))
      (hmore : Parses scope done ({ node := .branch i (assemble yes) .empty } :: items) st₄ out st') :
      Parses scope done items st out st'
  | conditionElse {scope : Scope} {done yes no out : List (List Item)} {items : List Item}
      {st st₁ st₂ st₃ st₄ st₅ st₆ st' : Progress} {i : Nat}
      (htake : take st = .ok (some (.plain '('), st₁))
      (hopen : opening scope.flags st.offset st₁ = .ok (.condition i, st₂))
      (hyes : Parses { flags := scope.flags, single := true } [] [] st₂ yes st₃)
      (hbar : accept '|' st₃ = .ok (true, st₄))
      (hno : Parses { flags := scope.flags, single := true } [] [] st₄ no st₅)
      (hclose : closeParen st.offset st₅ = .ok ((), st₆))
      (hmore : Parses scope done ({ node := .branch i (assemble yes) (assemble no) } :: items) st₆ out st') :
      Parses scope done items st out st'

/-! ## From the reader to derivations -/

section

variable {next : Continuation} {scope : Scope} {start n : Nat} {t : Token} {c : Char}
  {done out : List (List Item)} {items : List Item} {st st' : Progress}

/-- A construct is read that is complete, and then what follows it. -/
def ReadsPiece (next : Continuation) (scope : Scope) (start : Nat) (t : Token) (done : List (List Item))
    (items : List Item) (st : Progress) (out : List (List Item)) (st' : Progress) : Prop :=
  ∃ p mid done' items', readPiece scope.flags start t st = .ok (p, mid) ∧
    p.add done items = some (done', items') ∧ next scope done' items' mid = .ok (out, st')

theorem readsPiece_pure {p : Piece} {done' : List (List Item)} {items' : List Item}
    (hread : readPiece scope.flags start t st = .ok (p, st)) (hadd : p.add done items = some (done', items')) :
    next scope done' items' st = .ok (out, st') ↔ ReadsPiece next scope start t done items st out st' := by
  constructor
  · exact fun h => ⟨p, st, done', items', hread, hadd, h⟩
  · rintro ⟨p₂, mid, done₂, items₂, hread₂, hadd₂, h⟩
    cases hread.symm.trans hread₂
    cases hadd.symm.trans hadd₂
    exact h

theorem readsPiece_item {r : Reader Item} (hread : readPiece scope.flags start t = r >>= fun i => pure (.item i)) :
    (r >>= fun i => next scope done (i :: items)) st = .ok (out, st') ↔
      ReadsPiece next scope start t done items st out st' := by
  constructor
  · intro h
    obtain ⟨i, mid, hi, h⟩ := bind_eq_ok.1 h
    exact ⟨.item i, mid, done, i :: items, by rw [hread, bind_of_ok hi]; rfl, rfl, h⟩
  · rintro ⟨p, mid, done', items', hp, hadd, h⟩
    rw [hread] at hp
    obtain ⟨i, mid', hi, hp⟩ := bind_eq_ok.1 hp
    obtain ⟨rfl, rfl⟩ := pure_eq_ok.1 hp
    cases hadd
    rw [bind_of_ok hi, h]

theorem repeatItem_eq_ok {b : Bounds} {items' : List Item} :
    repeatItem start b items st = .ok (items', st') ↔ ∃ mode, repeatMode st = .ok (mode, st') ∧
      (Piece.mark b mode).add done items = some (done, items') := by
  cases items with
  | nil => exact ⟨fun h => (nomatch h), fun ⟨_, _, h⟩ => (nomatch h)⟩
  | cons i items =>
      obtain ⟨node, kind⟩ := i
      cases kind with
      | anchor => exact ⟨fun h => (by cases h), fun ⟨_, _, h⟩ => (by cases h)⟩
      | repeated => exact ⟨fun h => (by cases h), fun ⟨_, _, h⟩ => (by cases h)⟩
      | other =>
          constructor
          · intro h
            obtain ⟨mode, mid, hmode, h⟩ := bind_eq_ok.1 h
            obtain ⟨rfl, rfl⟩ := pure_eq_ok.1 h
            exact ⟨mode, hmode, rfl⟩
          · rintro ⟨mode, hmode, hadd⟩
            cases hadd
            show (repeatMode >>= _) st = _
            rw [bind_of_ok hmode]
            rfl

/-- A repetition is read as a piece. -/
theorem readsPiece_bounds (hread : readPiece scope.flags start t = (do
      match ← bounds? c with
      | none => return .item (codeItem scope.flags c.toNat)
      | some b => return .mark b (← repeatMode))) :
    (do match ← bounds? c with
        | none => next scope done (codeItem scope.flags c.toNat :: items)
        | some b => next scope done (← repeatItem start b items)) st = .ok (out, st') ↔
      ReadsPiece next scope start t done items st out st' := by
  constructor
  · intro h
    obtain ⟨o, mid, hbounds, h⟩ := bind_eq_ok.1 h
    cases o with
    | none => exact ⟨_, mid, done, _, by rw [hread, bind_of_ok hbounds]; rfl, rfl, h⟩
    | some b =>
        obtain ⟨items', mid', hrepeat, h⟩ := bind_eq_ok.1 h
        obtain ⟨mode, hmode, hadd⟩ : ∃ mode, repeatMode mid = .ok (mode, mid') ∧
          (Piece.mark b mode).add done items = some (done, items') := repeatItem_eq_ok.1 hrepeat
        refine ⟨.mark b mode, mid', done, items', ?_, hadd, h⟩
        rw [hread, bind_of_ok hbounds]
        dsimp only
        rw [bind_of_ok hmode]
        rfl
  · rintro ⟨p, mid, done', items', hp, hadd, h⟩
    rw [hread] at hp
    obtain ⟨o, mid', hbounds, hp⟩ := bind_eq_ok.1 hp
    rw [bind_of_ok hbounds]
    cases o with
    | none =>
        obtain ⟨rfl, rfl⟩ := pure_eq_ok.1 hp
        cases hadd
        exact h
    | some b =>
        obtain ⟨mode, mid₂, hmode, hp⟩ := bind_eq_ok.1 hp
        obtain ⟨rfl, rfl⟩ := pure_eq_ok.1 hp
        have hdone : done' = done := by
          cases items with
          | nil => cases hadd
          | cons i items =>
              simp only [Piece.add] at hadd
              split at hadd
              · cases hadd
                rfl
              · cases hadd
        subst hdone
        dsimp only
        rw [bind_of_ok (repeatItem_eq_ok.2 ⟨mode, hmode, hadd⟩)]
        exact h

theorem readPlain_eq_ok (hc : c ≠ '(') :
    readPlain next scope start c done items st = .ok (out, st') ↔
      ReadsPiece next scope start (.plain c) done items st out st' := by
  unfold readPlain
  dsimp only
  split
  · rename_i h₁
    exact readsPiece_pure (p := .bar) (by simp only [readPiece, h₁]; rfl) rfl
  rename_i h₁
  split
  · rename_i h₂
    exact readsPiece_pure (p := .nothing) (by simp only [readPiece, h₁, h₂]; rfl) rfl
  rename_i h₂
  split
  · rename_i h₃
    have hread : readPiece scope.flags start (.plain c) =
        get >>= fun st => skipLine (st.rest.length + 1) >>= fun _ => pure .nothing := by
      simp only [readPiece, h₁, h₂, h₃]
      rfl
    rw [bind_of_ok get_self]
    constructor
    · intro h
      obtain ⟨_, mid, hskip, h⟩ := bind_eq_ok.1 h
      exact ⟨.nothing, mid, done, items, by rw [hread, bind_of_ok get_self, bind_of_ok hskip]; rfl, rfl, h⟩
    · rintro ⟨p, mid, done', items', hp, hadd, h⟩
      rw [hread, bind_of_ok get_self] at hp
      obtain ⟨_, mid', hskip, hp⟩ := bind_eq_ok.1 hp
      obtain ⟨rfl, rfl⟩ := pure_eq_ok.1 hp
      cases hadd
      rw [bind_of_ok hskip, h]
  rename_i h₃
  split
  · rename_i h₄
    refine readsPiece_item ?_
    simp only [readPiece, h₁, h₂, h₃, h₄]
    rfl
  rename_i h₄
  split
  · rename_i h₅
    refine readsPiece_bounds ?_
    simp only [readPiece, h₁, h₂, h₃, h₄, h₅]
    rfl
  rename_i h₅
  split
  · rename_i h₆
    exact readsPiece_pure (p := .item _) (by simp only [readPiece, h₁, h₂, h₃, h₄, h₅, h₆]; rfl) rfl
  rename_i h₆
  split
  · rename_i h₇
    exact readsPiece_pure (p := .item _) (by simp only [readPiece, h₁, h₂, h₃, h₄, h₅, h₆, h₇]; rfl) rfl
  rename_i h₇
  split
  · rename_i h₈
    exact readsPiece_pure (p := .item _) (by simp only [readPiece, h₁, h₂, h₃, h₄, h₅, h₆, h₇, h₈]; rfl) rfl
  rename_i h₈
  split
  · rename_i h₉
    exact absurd (beq_iff_eq.1 h₉) hc
  · rename_i h₉
    exact readsPiece_pure (p := .item _) (by simp only [readPiece, h₁, h₂, h₃, h₄, h₅, h₆, h₇, h₈, h₉]; rfl) rfl

/-- **A construct that begins no group** is read as a piece. -/
theorem readToken_eq_ok (ht : t ≠ .plain '(') :
    readToken next scope start t done items st = .ok (out, st') ↔
      ReadsPiece next scope start t done items st out st' := by
  cases t with
  | plain c => exact readPlain_eq_ok fun hc => ht (congrArg Token.plain hc)
  | escaped c => exact readsPiece_item rfl
  | dangling =>
      refine ⟨fun h => (by cases h), ?_⟩
      rintro ⟨p, mid, _, _, hp, _⟩
      cases hp

/-- What follows the opening of a group. -/
def behindOpening (next : Continuation) (scope : Scope) (start : Nat) (done : List (List Item))
    (items : List Item) (o : Opening) : Reader (List (List Item)) := do
  let flags := scope.flags
  let inner : Scope := { flags := flags }
  match o with
  | .comment => next scope done items
  | .item item => next scope done (item :: items)
  | .flags on =>
    if !scope.top || !done.isEmpty || !items.isEmpty then failAt .lateGlobalFlags start
    let flags := on.foldl (Flags.switch true) flags
    modify fun st => { st with global := flags }
    next { scope with flags := flags } done items
  | .capture name =>
    let index ← openGroup name
    let body := assemble (← next inner [] [])
    closeParen start
    closeGroup index body
    next scope done ({ node := .group index body } :: items)
  | .plain on off =>
    let body := assemble (← next { flags := flags.scoped on off } [] [])
    closeParen start
    next scope done ({ node := body } :: items)
  | .atomic =>
    let body := assemble (← next inner [] [])
    closeParen start
    next scope done ({ node := .atomic body } :: items)
  | .look false positive =>
    let body := assemble (← next inner [] [])
    closeParen start
    next scope done ({ node := .look none positive body } :: items)
  | .look true positive =>
    let outer := (← get).behindFrom
    modify fun st => { st with behindFrom := outer.or (some st.nextGroup) }
    let body := assemble (← next inner [] [])
    modify fun st => { st with behindFrom := outer }
    closeParen start
    let node ← lookBehind positive body
    next scope done ({ node } :: items)
  | .condition index =>
    let branchScope : Scope := { flags := flags, single := true }
    let yes := assemble (← next branchScope [] [])
    let no ← if ← accept '|' then
        let no := assemble (← next branchScope [] [])
        if (← peek) == some (.plain '|') then fail .tooManyBranches 0
        pure no
      else pure .empty
    closeParen start
    next scope done ({ node := .branch index yes no } :: items)

theorem readToken_paren_eq : readToken next scope start (.plain '(') done items =
    opening scope.flags start >>= behindOpening next scope start done items := by
  have hblank : (scope.flags.verbose && Text.isAsciiBlank '(') = false := Bool.and_false _
  have hremark : (scope.flags.verbose && '(' == '#') = false := Bool.and_false _
  simp only [readToken, readPlain, hblank, hremark]
  rfl

theorem closeParen_eq_ok : closeParen start st = .ok ((), st') ↔
    ∃ ts, st.rest = .plain ')' :: ts ∧ Whole ts ∧ st' = st.facing ts (st.offset + 1) := by
  constructor
  · intro h
    obtain ⟨closed, mid, hclosed, h⟩ := bind_eq_ok.1 h
    rcases accept_eq_ok hclosed with ⟨rfl, ts, hrest, hts, rfl⟩ | ⟨rfl, -, -⟩
    · cases h
      exact ⟨ts, hrest, hts, rfl⟩
    · cases h
  · rintro ⟨ts, hrest, hts, rfl⟩
    have hst : st = st.facing (.plain ')' :: ts) st.offset := by rw [← hrest]; rfl
    rw [hst]
    exact closeParen_facing hts

/-- The state behind the opening of a group that remembers its text. -/
def Progress.opened (st : Progress) (name : Option (List Char)) : Progress :=
  { st with nextGroup := st.nextGroup + 1
            names := st.names ++ (name.map fun cs => (String.ofList cs, st.nextGroup)).toList }

theorem openGroup_eq_ok {name : Option (List Char)} {i : Nat} : openGroup name st = .ok (i, st') ↔
    i = st.nextGroup ∧ (∀ cs ∈ name, st.names.lookup (String.ofList cs) = none) ∧ st' = st.opened name := by
  rw [openGroup, bind_of_ok get_self]
  cases name with
  | none =>
      constructor
      · intro h
        cases h
        exact ⟨rfl, by simp, by simp [Progress.opened]⟩
      · rintro ⟨rfl, -, rfl⟩
        simp [Progress.opened]
        rfl
  | some cs =>
      cases hname : st.names.lookup (String.ofList cs) with
      | some old =>
          simp only [hname]
          constructor
          · intro h
            cases h
          · rintro ⟨-, hnew, -⟩
            cases hname.symm.trans (hnew cs rfl)
      | none =>
          simp only [hname]
          constructor
          · intro h
            cases h
            exact ⟨rfl, by simpa using hname, rfl⟩
          · rintro ⟨rfl, -, rfl⟩
            rfl

/-- A group with one body is entered, read and left. -/
theorem enclosed_of_behindOpening {flags : Flags} {o : Opening} (hinner : o.inner? scope.flags = some flags)
    (h : behindOpening next scope start done items o st = .ok (out, st')) :
    ∃ st₁ body st₂ st₃ item st₄, o.enter st = .ok ((), st₁) ∧ next { flags } [] [] st₁ = .ok (body, st₂) ∧
      closeParen start st₂ = .ok ((), st₃) ∧ o.leave st (assemble body) st₃ = .ok (item, st₄) ∧
      next scope done (item :: items) st₄ = .ok (out, st') := by
  cases o with
  | capture name =>
      cases hinner
      obtain ⟨index, st₁, henter, h⟩ := bind_eq_ok.1 h
      obtain ⟨body, st₂, hbody, h⟩ := bind_eq_ok.1 h
      obtain ⟨_, st₃, hclose, h⟩ := bind_eq_ok.1 h
      obtain ⟨rfl, -⟩ := openGroup_eq_ok.1 henter
      exact ⟨st₁, body, st₂, st₃, _, _, (by show (openGroup name >>= _) st = _; rw [bind_of_ok henter]; rfl),
        hbody, hclose, rfl, h⟩
  | plain on off =>
      cases hinner
      obtain ⟨body, st₂, hbody, h⟩ := bind_eq_ok.1 h
      obtain ⟨_, st₃, hclose, h⟩ := bind_eq_ok.1 h
      exact ⟨st, body, st₂, st₃, _, _, rfl, hbody, hclose, rfl, h⟩
  | atomic =>
      cases hinner
      obtain ⟨body, st₂, hbody, h⟩ := bind_eq_ok.1 h
      obtain ⟨_, st₃, hclose, h⟩ := bind_eq_ok.1 h
      exact ⟨st, body, st₂, st₃, _, _, rfl, hbody, hclose, rfl, h⟩
  | look behind positive =>
      cases hinner
      cases behind with
      | false =>
          obtain ⟨body, st₂, hbody, h⟩ := bind_eq_ok.1 h
          obtain ⟨_, st₃, hclose, h⟩ := bind_eq_ok.1 h
          exact ⟨st, body, st₂, st₃, _, _, rfl, hbody, hclose, rfl, h⟩
      | true =>
          rw [show behindOpening next scope start done items (.look true positive) = get >>= _ from rfl,
            bind_of_ok get_self] at h
          dsimp only at h
          rw [bind_of_ok modify_self] at h
          obtain ⟨body, st₂, hbody, h⟩ := bind_eq_ok.1 h
          rw [bind_of_ok modify_self] at h
          obtain ⟨_, st₃, hclose, h⟩ := bind_eq_ok.1 h
          obtain ⟨node, st₄, hnode, hmore⟩ := bind_eq_ok.1 h
          -- the note is taken back before the parenthesis here, and after it when the group is left
          obtain ⟨ts, hrest, hts, rfl⟩ := closeParen_eq_ok.1 hclose
          refine ⟨_, body, st₂, _, ⟨node, .other⟩, st₄, rfl, hbody, closeParen_eq_ok.2 ⟨ts, hrest, hts, rfl⟩,
            ?_, hmore⟩
          rw [Opening.leave, bind_of_ok modify_self]
          exact bind_of_ok hnode
  | condition i => cases hinner
  | item i => cases hinner
  | comment => cases hinner
  | flags on => cases hinner

theorem readPiece_paren (flags : Flags) (start : Nat) :
    readPiece flags start (.plain '(') = opening flags start >>= Opening.piece start := by
  have hblank : (flags.verbose && Text.isAsciiBlank '(') = false := Bool.and_false _
  have hremark : (flags.verbose && '(' == '#') = false := Bool.and_false _
  simp only [readPiece, hblank, hremark]
  rfl

theorem not_stops_paren {ts : List Token} (h : st.rest = .plain '(' :: ts) : ¬ Stops scope st.rest := by
  intro hstop
  have hhead := hstop (.plain '(') (by simp [h])
  simp at hhead

theorem rest_of_take {mid : Progress} (h : take st = .ok (some t, mid)) :
    st.rest = t :: mid.rest ∧ Whole mid.rest ∧ mid = st.facing mid.rest (st.offset + t.width) := by
  rcases take_eq_ok h with ⟨hnone, -, -⟩ | ⟨u, us, hsome, hrest, hus, rfl⟩
  · cases hnone
  · cases hsome
    exact ⟨hrest, hus, rfl⟩

/-- A group with no body, or a condition, has a derivation if what follows it has. -/
theorem parses_of_behindOpening {o : Opening} {mid mid' : Progress}
    (hnext : ∀ {scope done items st out st'}, next scope done items st = .ok (out, st') →
      Parses scope done items st out st')
    (htake : take st = .ok (some (.plain '('), mid)) (hopen : opening scope.flags st.offset mid = .ok (o, mid'))
    (hinner : o.inner? scope.flags = none)
    (h : behindOpening next scope st.offset done items o mid' = .ok (out, st')) :
    Parses scope done items st out st' := by
  have hgo : ¬ Stops scope st.rest := not_stops_paren (rest_of_take htake).1
  have hread : readPiece scope.flags st.offset (.plain '(') mid = o.piece st.offset mid' := by
    rw [readPiece_paren, bind_of_ok hopen]
  cases o with
  | comment => exact .piece hgo htake hread rfl (hnext h)
  | item i => exact .piece hgo htake hread rfl (hnext h)
  | flags on =>
      unfold behindOpening at h
      dsimp only at h
      split at h
      · cases h
      rename_i hfirst
      simp only [Bool.or_eq_true, Bool.not_eq_true', not_or, Bool.not_eq_false, List.isEmpty_iff] at hfirst
      obtain ⟨⟨htop, rfl⟩, rfl⟩ := hfirst
      rw [bind_of_ok modify_self] at h
      exact .flags htop htake hopen (hnext h)
  | condition i =>
      obtain ⟨yes, st₃, hyes, h₁⟩ := bind_eq_ok.1 h
      obtain ⟨barred, st₄, hbarred, h₂⟩ := bind_eq_ok.1 h₁
      rcases accept_eq_ok hbarred with ⟨rfl, -⟩ | ⟨rfl, -, rfl⟩
      · obtain ⟨no, st₅, hno, h₃⟩ := bind_eq_ok.1 h₂
        rw [bind_of_ok peek_self] at h₃
        split at h₃
        · cases h₃
        · rw [pure_bind] at h₃
          obtain ⟨_, st₆, hclose, h₄⟩ := bind_eq_ok.1 h₃
          exact .conditionElse htake hopen (hnext hyes) hbarred (hnext hno) hclose (hnext h₄)
      · rw [if_neg Bool.false_ne_true, pure_bind] at h₂
        obtain ⟨_, st₆, hclose, h₃⟩ := bind_eq_ok.1 h₂
        exact .condition htake hopen (hnext hyes) hclose (hnext h₃)
  | capture name => cases hinner
  | plain on off => cases hinner
  | atomic => cases hinner
  | look behind positive => cases hinner

/-- **What the reader of alternatives reads has a derivation.** -/
theorem parses_of_alternatives (h : alternatives n scope done items st = .ok (out, st')) :
    Parses scope done items st out st' := by
  induction n generalizing scope done items st out st' with
  | zero => cases h
  | succ n ih =>
      rw [alternatives, bind_of_ok peek_self] at h
      cases hrest : st.rest with
      | nil =>
          rw [hrest] at h
          cases h
          exact .stop (by simp [Stops, hrest])
      | cons t ts =>
          simp only [hrest, List.head?_cons] at h
          split at h
          · rename_i hstop
            cases h
            refine .stop fun u hu => ?_
            simp only [hrest, List.head?_cons, Option.mem_def, Option.some.injEq] at hu
            simpa [hu] using hstop
          rename_i hgo
          have hgo' : ¬ Stops scope st.rest := by
            intro hstop
            have hhead := hstop t (by simp [hrest])
            simp [hhead] at hgo
          rw [bind_of_ok (show offset st = .ok (st.offset, st) from rfl)] at h
          obtain ⟨o, mid, htake, h⟩ := bind_eq_ok.1 h
          obtain rfl : o = some t := by
            rcases take_eq_ok htake with ⟨-, hnil, -⟩ | ⟨u, us, rfl, hcons, -, -⟩
            · simp [hnil] at hrest
            · rw [hcons] at hrest
              rw [(List.cons.inj hrest).1]
          by_cases ht : t = .plain '('
          · subst ht
            rw [readToken_paren_eq] at h
            obtain ⟨o, mid', hopen, h⟩ := bind_eq_ok.1 h
            cases hinner : o.inner? scope.flags with
            | some flags =>
                obtain ⟨_, body, _, _, item, _, henter, hbody, hclose, hleave, h⟩ :=
                  enclosed_of_behindOpening hinner h
                exact .enclosed htake hopen hinner henter (ih hbody) hclose hleave (ih h)
            | none => exact parses_of_behindOpening ih htake hopen hinner h
          · obtain ⟨p, mid', done', items', hread, hadd, h⟩ := (readToken_eq_ok ht).1 h
            exact .piece hgo' htake hread hadd (ih h)

end

/-! ## Pieces look no further -/

section

variable {scope : Scope} {flags : Flags} {start k n : Nat} {t : Token} {c : Char} {p : Piece} {o : Opening}
  {used ts : List Token} {st st' st₂ : Progress}

/-- Reads what comes behind the first character of a repetition, as a piece. -/
def readMark (flags : Flags) (c : Char) : Reader Piece := do
  match ← bounds? c with
  | none => return .item (codeItem flags c.toNat)
  | some b => return .mark b (← repeatMode)

/-- Skips a line, as a piece. -/
def readRemark : Reader Piece := do
  skipLine ((← get).rest.length + 1)
  return .nothing

/-- The forms of a piece that begins with a character. -/
theorem readPiece_plain (flags : Flags) (c : Char) :
    (∃ p, ∀ start, readPiece flags start (.plain c) = pure p) ∨
    (∀ start, readPiece flags start (.plain c) = readRemark) ∨
    (∀ start, readPiece flags start (.plain c) = setItem flags >>= fun i => pure (.item i)) ∨
    (c ≠ ')' ∧ ∀ start, readPiece flags start (.plain c) = readMark flags c) ∨
    (c = '(' ∧ ∀ start, readPiece flags start (.plain c) = opening flags start >>= Opening.piece start) := by
  by_cases h₁ : (c == '|') = true
  · exact Or.inl ⟨.bar, fun _ => by simp only [readPiece, h₁]; rfl⟩
  by_cases h₂ : (flags.verbose && Text.isAsciiBlank c) = true
  · exact Or.inl ⟨.nothing, fun _ => by simp only [readPiece, h₁, h₂]; rfl⟩
  by_cases h₃ : (flags.verbose && c == '#') = true
  · exact Or.inr (Or.inl fun _ => by simp only [readPiece, h₁, h₂, h₃]; rfl)
  by_cases h₄ : (c == '[') = true
  · exact Or.inr (Or.inr (Or.inl fun _ => by simp only [readPiece, h₁, h₂, h₃, h₄]; rfl))
  by_cases h₅ : (c == '?' || c == '*' || c == '+' || c == '\x7b') = true
  · refine Or.inr (Or.inr (Or.inr (Or.inl ⟨?_, fun _ => by simp only [readPiece, h₁, h₂, h₃, h₄, h₅]; rfl⟩)))
    rintro rfl
    exact absurd h₅ (by decide)
  by_cases h₆ : (c == '(') = true
  · obtain rfl := beq_iff_eq.1 h₆
    exact Or.inr (Or.inr (Or.inr (Or.inr ⟨rfl, fun _ => readPiece_paren flags _⟩)))
  · refine Or.inl ?_
    simp only [readPiece, h₁, h₂, h₃, h₄, h₅, h₆, if_false, Bool.false_eq_true]
    split
    · exact ⟨_, fun _ => rfl⟩
    split
    · exact ⟨_, fun _ => rfl⟩
    split
    · exact ⟨_, fun _ => rfl⟩
    · exact ⟨_, fun _ => rfl⟩

/-- What comes behind the tokens `used` may be exchanged: not for a stray backslash, nor for nothing
where there is something, and behind anything but a closing parenthesis only if the two are alike up to
a parenthesis. -/
structure Exchange (used rest ts : List Token) : Prop where
  whole : Blindly rest ts
  stop : rest = [] → ts = []
  alike : used.getLast? ≠ some (.plain ')') → Alike rest ts

/-- A piece that does not suffer when the group `k` is missing. -/
def Piece.Kept (k : Nat) (ns : List Nat) : Piece → Prop
  | .item i => i.Kept k ns
  | _ => True

/-- The same piece, up to the group that it recalls. -/
inductive Piece.Like : Piece → Piece → Prop
  | same (p : Piece) : Like p p
  | item {i i₂ : Item} (h : i.Like i₂) : Like (.item i) (.item i₂)

theorem Exchange.alike_of_notMem (h : Exchange (t :: used) st.rest ts) (ht : t ≠ .plain ')')
    (hused : .plain ')' ∉ used) : Alike st.rest ts := by
  refine h.alike fun hlast => ?_
  rcases List.mem_cons.1 (List.mem_of_getLast? hlast) with hmem | hmem
  · exact ht hmem.symm
  · exact hused hmem

theorem readMark_eq_ok (h : readMark flags c st = .ok (p, st')) :
    ∃ used, Took st used st' ∧ .plain ')' ∉ used ∧
      ∀ ts st₂, Alike st'.rest ts → Takes (readMark flags c) st₂ used ts p := by
  obtain ⟨o, mid, hbounds, h₁⟩ := bind_eq_ok.1 h
  obtain ⟨used, htook, hused, htakes⟩ := bounds?_eq_ok hbounds
  cases o with
  | none =>
      obtain ⟨rfl, rfl⟩ := pure_eq_ok.1 h₁
      refine ⟨used ++ [], htook.trans (.refl _), by simpa using hused, fun ts st₂ halike => ?_⟩
      exact (htakes ts st₂ halike).bind (takes_pure _)
  | some b =>
      obtain ⟨mode, mid', hmode, h₂⟩ := bind_eq_ok.1 h₁
      obtain ⟨rfl, rfl⟩ := pure_eq_ok.1 h₂
      obtain ⟨more, htook', hmore, htakes'⟩ := local_repeatMode hmode
      refine ⟨used ++ (more ++ []), htook.trans (htook'.trans (.refl _)), ?_, fun ts st₂ halike => ?_⟩
      · intro hmem
        simp only [List.append_nil, List.mem_append] at hmem
        exact hmem.elim hused fun hmem => hmore _ hmem rfl
      · have hahead : Alike mid.rest ((more ++ []) ++ ts) := by
          rw [List.append_nil, htook'.rest]
          exact halike.prepend more
        exact (htakes _ st₂ hahead).bind ((htakes' (Nat.lt_succ_self _) halike.sameHead).bind (takes_pure _))

theorem readRemark_eq_ok (h : readRemark st = .ok (p, st')) :
    ∃ used, Took st used st' ∧ (st'.rest = [] ∨ used.getLast? = some (.plain '\n')) ∧
      ∀ ts st₂, SameHead st'.rest ts → Takes readRemark st₂ used ts p := by
  rw [readRemark, bind_of_ok get_self] at h
  obtain ⟨_, mid, hskip, h₁⟩ := bind_eq_ok.1 h
  obtain ⟨rfl, rfl⟩ := pure_eq_ok.1 h₁
  obtain ⟨used, htook, hlast, htakes⟩ := skipLine_eq_ok (Nat.lt_succ_self _) hskip
  refine ⟨used, htook, hlast, fun ts st₂ hsame o => ?_⟩
  have hfuel : used.length < (st₂.facing (used ++ ts) o).rest.length + 1 := by
    simp only [Progress.facing, List.length_append]
    omega
  obtain ⟨o', hagain⟩ := htakes _ ts st₂ hfuel hsame o
  exact ⟨o', by rw [readRemark, bind_of_ok get_self, bind_of_ok hagain]; rfl⟩

theorem Opening.piece_eq_ok {ns : List Nat} (h : o.piece start st = .ok (p, st')) (hp : p.Kept k ns) :
    o.Kept k ns ∧ st' = st ∧ ∀ o₂, o.Like o₂ →
      ∃ p₂, p.Like p₂ ∧ ∀ start' st₂, o₂.piece start' st₂ = .ok (p₂, st₂) := by
  cases o with
  | comment =>
      obtain ⟨rfl, rfl⟩ := pure_eq_ok.1 h
      refine ⟨trivial, rfl, fun o₂ hlike => ?_⟩
      cases hlike
      exact ⟨_, .same _, fun _ _ => rfl⟩
  | item i =>
      obtain ⟨rfl, rfl⟩ := pure_eq_ok.1 h
      refine ⟨hp, rfl, fun o₂ hlike => ?_⟩
      cases hlike with
      | same => exact ⟨_, .same _, fun _ _ => rfl⟩
      | item hlike => exact ⟨_, .item hlike, fun _ _ => rfl⟩
  | _ => cases h

/-- **A piece is decided by the tokens that are taken for it**, and by as much of what comes next as an
exchange leaves alone. -/
theorem readPiece_eq_ok (h : readPiece flags start t st = .ok (p, st'))
    (hp : p.Kept k (numberAt? (t :: st.rest)).toList) :
    ∃ used p₂, TookAsking k st used st' ∧ p.Like p₂ ∧
      ∀ ts st₂ start', Exchange (t :: used) st'.rest ts → Akin k st st₂ →
        TakesAsking (readPiece flags start' t) st₂ used ts p₂ (st'.asked.map Prod.fst) := by
  -- most pieces ask about no group
  cases t with
  | dangling => cases h
  | escaped c =>
      obtain ⟨i, mid, hitem, h₁⟩ := bind_eq_ok.1 h
      obtain ⟨rfl, rfl⟩ := pure_eq_ok.1 h₁
      obtain ⟨used, htook, hused, htakes⟩ := escapeItem_eq_ok hitem fun j rule hnode =>
        (hp j rule hnode).2 (by rw [numberAt?_of_escapeItem hitem hnode]; simp)
      have htook' := htook.trans (.refl _)
      refine ⟨_, _, htook'.asking, .same _, htook'.takesAsking fun ts st₂ start' hts hakin => ?_⟩
      rw [List.append_nil] at hts
      exact (htakes ts st₂ (hts.alike_of_notMem (by simp) hused).sameHead hakin).bind (takes_pure _)
  | plain c =>
      rcases readPiece_plain flags c with ⟨q, hread⟩ | hread | hread | ⟨hc, hread⟩ | ⟨rfl, hread⟩
      · rw [hread] at h
        obtain ⟨rfl, rfl⟩ := pure_eq_ok.1 h
        refine ⟨[], _, (Took.refl _).asking, .same _, (Took.refl _).takesAsking fun ts st₂ start' _ _ => ?_⟩
        rw [hread]
        exact takes_pure _
      · rw [hread] at h
        obtain ⟨used, htook, hlast, htakes⟩ := readRemark_eq_ok h
        refine ⟨used, _, htook.asking, .same _, htook.takesAsking fun ts st₂ start' hts _ => ?_⟩
        rw [hread]
        refine htakes ts st₂ ?_
        rcases hlast with hnil | hlast
        · rw [hnil, hts.stop hnil]
          rfl
        · refine (hts.alike ?_).sameHead
          rw [List.getLast?_cons, hlast]
          simp
      · rw [hread] at h
        obtain ⟨i, mid, hitem, h₁⟩ := bind_eq_ok.1 h
        obtain ⟨rfl, rfl⟩ := pure_eq_ok.1 h₁
        obtain ⟨used, htook, -, htakes⟩ := blind_setItem flags hitem
        have htook' := htook.trans (.refl _)
        refine ⟨_, _, htook'.asking, .same _, htook'.takesAsking fun ts st₂ start' hts _ => ?_⟩
        rw [hread]
        exact (htakes (Nat.lt_succ_self _) hts.whole).bind (takes_pure _)
      · rw [hread] at h
        obtain ⟨used, htook, hused, htakes⟩ := readMark_eq_ok h
        refine ⟨used, _, htook.asking, .same _, htook.takesAsking fun ts st₂ start' hts _ => ?_⟩
        rw [hread]
        exact htakes ts st₂ (hts.alike_of_notMem (by simpa using hc) hused)
      · rw [hread] at h
        obtain ⟨o, mid, hopen, h₁⟩ := bind_eq_ok.1 h
        obtain ⟨ho, rfl, hpiece⟩ := Opening.piece_eq_ok h₁ hp
        obtain ⟨used, o₂, htook, hlike, htakes⟩ := opening_eq_ok hopen ho
        obtain ⟨p₂, hlike₂, hpiece⟩ := hpiece o₂ hlike
        refine ⟨used, p₂, htook, hlike₂, fun ts st₂ start' hts hakin offset => ?_⟩
        have hhead : used = [] → SameHead st'.rest ts := by
          rintro rfl
          exact (hts.alike (by simp)).sameHead
        obtain ⟨o', asked', hasked, hagain⟩ := htakes ts st₂ start' hhead hts.whole hakin offset
        exact ⟨o', asked', hasked, by rw [hread, bind_of_ok hagain]; exact hpiece _ _⟩

/-- An item does not suffer when the missing group is far enough behind. -/
theorem Item.exists_kept (i : Item) : ∃ k, ∀ ns, i.Kept k ns := by
  cases hnode : i.node with
  | «recall» j rule =>
      refine ⟨j + 1, fun ns j' rule' h => ?_⟩
      cases hnode.symm.trans h
      exact ⟨Nat.ne_of_lt (Nat.lt_succ_self j), fun _ => Nat.lt_succ_self j⟩
  | _ =>
      refine ⟨0, fun ns j rule h => ?_⟩
      cases hnode.symm.trans h

theorem Piece.exists_kept (p : Piece) : ∃ k, ∀ ns, p.Kept k ns := by
  cases p with
  | item i => exact i.exists_kept
  | _ => exact ⟨0, fun _ => trivial⟩

theorem Opening.exists_kept (o : Opening) : ∃ k, ∀ ns, o.Kept k ns := by
  cases o with
  | item i => exact i.exists_kept
  | condition i => exact ⟨i + 1, fun _ => ⟨Nat.ne_of_lt (Nat.lt_succ_self i), fun _ => Nat.lt_succ_self i⟩⟩
  | _ => exact ⟨0, fun _ => trivial⟩

/-! ## Reading goes forward -/

/-- What is left to read is an end of what was left before. -/
theorem suffix_of_readPiece (h : readPiece flags start t st = .ok (p, st')) : st'.rest <:+ st.rest := by
  obtain ⟨k, hp⟩ := p.exists_kept
  obtain ⟨used, -, htook, -⟩ := readPiece_eq_ok h (hp _)
  exact ⟨used, htook.rest.symm⟩

theorem suffix_of_opening (h : opening flags start st = .ok (o, st')) : st'.rest <:+ st.rest := by
  obtain ⟨k, ho⟩ := o.exists_kept
  obtain ⟨used, -, htook, -⟩ := opening_eq_ok h (ho _)
  exact ⟨used, htook.rest.symm⟩

theorem rest_of_enter (h : o.enter st = .ok ((), st')) : st'.rest = st.rest := by
  cases o with
  | capture name =>
      obtain ⟨i, mid, hopened, h⟩ := bind_eq_ok.1 h
      cases h
      obtain ⟨-, -, rfl⟩ := openGroup_eq_ok.1 hopened
      rfl
  | look behind positive => cases behind <;> cases h <;> rfl
  | _ => cases h; rfl

/-- The fault of a look back over something of the given width. -/
def lookFault (w : Width) : Option Fault :=
  if w.least > repeatLimit then some .farLookBehind
  else if w.least ≠ w.most then some .variableLookBehind
  else none

theorem leave_lookBehind (before : Progress) (body : Regex) (st : Progress) (positive : Bool) :
    (Opening.look true positive).leave before body st =
      .ok ({ node := .look (some (body.width (groupWidth st)).least) positive body },
        { st with
          behindFrom := before.behindFrom
          pending := st.pending.or (lookFault (body.width (groupWidth st))) }) := rfl

theorem rest_of_leave {before : Progress} {body : Regex} {item : Item}
    (h : o.leave before body st = .ok (item, st')) : st'.rest = st.rest := by
  cases o with
  | look behind positive => cases behind <;> cases h <;> rfl
  | capture name => cases h; rfl
  | plain on off => cases h; rfl
  | atomic => cases h; rfl
  | _ => cases h

theorem suffix_of_take (h : take st = .ok (some t, st')) : st'.rest <:+ st.rest ∧ st'.rest.length < st.rest.length := by
  obtain ⟨hrest, -⟩ := rest_of_take h
  rw [hrest]
  exact ⟨List.suffix_cons t _, Nat.lt_succ_self _⟩

theorem suffix_of_closeParen (h : closeParen start st = .ok ((), st')) : st'.rest <:+ st.rest := by
  obtain ⟨ts, hrest, -, rfl⟩ := closeParen_eq_ok.1 h
  exact hrest ▸ List.suffix_cons _ ts

theorem suffix_of_bar (h : accept '|' st = .ok (true, st')) : st'.rest <:+ st.rest := by
  rcases accept_eq_ok h with ⟨-, ts, hrest, -, rfl⟩ | ⟨hfalse, -⟩
  · exact hrest ▸ List.suffix_cons _ ts
  · cases hfalse

theorem Parses.suffix {done out : List (List Item)} {items : List Item} (h : Parses scope done items st out st') :
    st'.rest <:+ st.rest := by
  induction h with
  | stop _ => exact List.suffix_rfl
  | piece _ htake hread _ _ ih => exact ih.trans ((suffix_of_readPiece hread).trans (suffix_of_take htake).1)
  | flags _ htake hopen _ ih => exact ih.trans ((suffix_of_opening hopen).trans (suffix_of_take htake).1)
  | enclosed htake hopen _ henter _ hclose hleave _ ihbody ih =>
      rw [rest_of_leave hleave] at ih
      rw [rest_of_enter henter] at ihbody
      exact ih.trans ((suffix_of_closeParen hclose).trans (ihbody.trans
        ((suffix_of_opening hopen).trans (suffix_of_take htake).1)))
  | condition htake hopen _ hclose _ ihyes ih =>
      exact ih.trans ((suffix_of_closeParen hclose).trans (ihyes.trans
        ((suffix_of_opening hopen).trans (suffix_of_take htake).1)))
  | conditionElse htake hopen _ hbar _ hclose _ ihyes ihno ih =>
      exact ih.trans ((suffix_of_closeParen hclose).trans (ihno.trans ((suffix_of_bar hbar).trans (ihyes.trans
        ((suffix_of_opening hopen).trans (suffix_of_take htake).1)))))

theorem alternatives_succ {done : List (List Item)} {items : List Item} {mid : Progress}
    (hgo : ¬ Stops scope st.rest) (htake : take st = .ok (some t, mid)) :
    alternatives (n + 1) scope done items st = readToken (alternatives n) scope st.offset t done items mid := by
  have hrest := (rest_of_take htake).1
  have hcond : ¬ (t == .plain ')' || (scope.single && t == .plain '|')) = true := by
    intro hcond
    refine hgo fun u hu => ?_
    rw [hrest] at hu
    obtain rfl : t = u := by simpa using hu
    simpa using hcond
  rw [alternatives, bind_of_ok peek_self, hrest]
  dsimp only [List.head?_cons]
  rw [if_neg hcond, bind_of_ok (show offset st = .ok (st.offset, st) from rfl), bind_of_ok htake]

/-- What a parenthesis opens is read behind its opening. -/
theorem alternatives_paren {done : List (List Item)} {items : List Item} {mid mid' : Progress}
    (htake : take st = .ok (some (.plain '('), mid)) (hopen : opening scope.flags st.offset mid = .ok (o, mid')) :
    alternatives (n + 1) scope done items st =
      behindOpening (alternatives n) scope st.offset done items o mid' := by
  rw [alternatives_succ (not_stops_paren (rest_of_take htake).1) htake, readToken_paren_eq, bind_of_ok hopen]

/-- A group with one body that is entered, read and left is what follows its opening. -/
theorem behindOpening_of_enclosed {next : Continuation} {done body out : List (List Item)} {items : List Item}
    {item : Item} {st₁ st₂ st₃ st₄ : Progress} (hinner : o.inner? scope.flags = some flags)
    (henter : o.enter st = .ok ((), st₁)) (hbody : next { flags } [] [] st₁ = .ok (body, st₂))
    (hclose : closeParen start st₂ = .ok ((), st₃))
    (hleave : o.leave st (assemble body) st₃ = .ok (item, st₄))
    (hmore : next scope done (item :: items) st₄ = .ok (out, st')) :
    behindOpening next scope start done items o st = .ok (out, st') := by
  cases o with
  | capture name =>
      cases hinner
      obtain ⟨i, mid, hopened, h⟩ := bind_eq_ok.1 henter
      cases h
      obtain ⟨rfl, -⟩ := openGroup_eq_ok.1 hopened
      cases hleave
      show (openGroup name >>= _) st = _
      rw [bind_of_ok hopened, bind_of_ok hbody, bind_of_ok hclose]
      exact hmore
  | plain on off =>
      cases hinner
      cases henter
      cases hleave
      show (next _ [] [] >>= _) _ = _
      rw [bind_of_ok hbody, bind_of_ok hclose]
      exact hmore
  | atomic =>
      cases hinner
      cases henter
      cases hleave
      show (next _ [] [] >>= _) _ = _
      rw [bind_of_ok hbody, bind_of_ok hclose]
      exact hmore
  | look behind positive =>
      cases hinner
      cases behind with
      | false =>
          cases henter
          cases hleave
          show (next _ [] [] >>= _) _ = _
          rw [bind_of_ok hbody, bind_of_ok hclose]
          exact hmore
      | true =>
          cases henter
          obtain ⟨ts, hrest, hts, rfl⟩ := closeParen_eq_ok.1 hclose
          rw [Opening.leave, bind_of_ok modify_self] at hleave
          obtain ⟨node, mid, hnode, h⟩ := bind_eq_ok.1 hleave
          cases h
          have hclose' : closeParen start { st₂ with behindFrom := st.behindFrom } = .ok ((), _) :=
            closeParen_eq_ok.2 ⟨ts, hrest, hts, rfl⟩
          rw [show behindOpening next scope start done items (.look true positive) = get >>= _ from rfl,
            bind_of_ok get_self]
          dsimp only
          rw [bind_of_ok modify_self, bind_of_ok hbody, bind_of_ok modify_self, bind_of_ok hclose']
          exact (bind_of_ok hnode).trans hmore
  | _ => cases hinner

/-- **What has a derivation is read**, with any fuel that the tokens do not exceed. -/
theorem Parses.alternatives_eq {done out : List (List Item)} {items : List Item}
    (h : Parses scope done items st out st') (hn : st.rest.length < n) :
    alternatives n scope done items st = .ok (out, st') := by
  induction h generalizing n with
  | @stop scope done items st hstop =>
      obtain ⟨n, rfl⟩ : ∃ m, n = m + 1 := ⟨n - 1, by omega⟩
      rw [alternatives, bind_of_ok peek_self]
      cases hrest : st.rest with
      | nil => rfl
      | cons t ts =>
          have hhead := hstop t (by simp [hrest])
          dsimp only [List.head?_cons]
          rw [if_pos (by simpa using hhead)]
          rfl
  | @piece scope done done' out items items' st mid mid' st' t p hgo htake hread hadd hmore ih =>
      obtain ⟨n, rfl⟩ : ∃ m, n = m + 1 := ⟨n - 1, by omega⟩
      have hlt := (suffix_of_take htake).2
      have hle := (suffix_of_readPiece hread).length_le
      have hnext := ih (n := n) (by omega)
      rw [alternatives_succ hgo htake]
      by_cases ht : t = .plain '('
      · subst ht
        rw [readPiece_paren] at hread
        obtain ⟨o, mid₂, hopen, hpiece⟩ := bind_eq_ok.1 hread
        rw [readToken_paren_eq, bind_of_ok hopen]
        cases o with
        | comment => cases hpiece; cases hadd; exact hnext
        | item i => cases hpiece; cases hadd; exact hnext
        | _ => cases hpiece
      · exact (readToken_eq_ok ht).2 ⟨p, mid', done', items', hread, hadd, hnext⟩
  | flags htop htake hopen _ ih =>
      obtain ⟨n, rfl⟩ : ∃ m, n = m + 1 := ⟨n - 1, by omega⟩
      have hlt := (suffix_of_take htake).2
      have hle := (suffix_of_opening hopen).length_le
      rw [alternatives_paren htake hopen]
      unfold behindOpening
      dsimp only
      rw [if_neg (by simp [htop]), bind_of_ok modify_self]
      exact ih (Nat.lt_of_le_of_lt hle (by omega))
  | enclosed htake hopen hinner henter hbody hclose hleave hmore ihbody ih =>
      obtain ⟨n, rfl⟩ : ∃ m, n = m + 1 := ⟨n - 1, by omega⟩
      have hlt := (suffix_of_take htake).2
      have hopened := (suffix_of_opening hopen).length_le
      have hentered := congrArg List.length (rest_of_enter henter)
      have hread := hbody.suffix.length_le
      have hclosed := (suffix_of_closeParen hclose).length_le
      have hleft := congrArg List.length (rest_of_leave hleave)
      rw [alternatives_paren htake hopen]
      exact behindOpening_of_enclosed hinner henter (ihbody (by omega)) hclose hleave (ih (by omega))
  | @condition scope done yes out items st st₁ st₂ st₃ st₄ st' i htake hopen hyes hclose hmore ihyes ih =>
      obtain ⟨n, rfl⟩ : ∃ m, n = m + 1 := ⟨n - 1, by omega⟩
      have hlt := (suffix_of_take htake).2
      have hopened := (suffix_of_opening hopen).length_le
      have hread := hyes.suffix.length_le
      have hclosed := (suffix_of_closeParen hclose).length_le
      have hbar : accept '|' st₃ = .ok (false, st₃) := by
        obtain ⟨ts, hrest, -, -⟩ := closeParen_eq_ok.1 hclose
        show accept '|' (st₃.facing st₃.rest st₃.offset) = _
        exact accept_facing_ne (by simp [hrest])
      rw [alternatives_paren htake hopen]
      show (alternatives n _ [] [] >>= _) _ = _
      rw [bind_of_ok (ihyes (by omega))]
      dsimp only
      rw [bind_of_ok hbar, if_neg Bool.false_ne_true, pure_bind, bind_of_ok hclose]
      exact ih (by omega)
  | @conditionElse scope done yes no out items st st₁ st₂ st₃ st₄ st₅ st₆ st' i htake hopen hyes hbar hno
      hclose hmore ihyes ihno ih =>
      obtain ⟨n, rfl⟩ : ∃ m, n = m + 1 := ⟨n - 1, by omega⟩
      have hlt := (suffix_of_take htake).2
      have hopened := (suffix_of_opening hopen).length_le
      have hread := hyes.suffix.length_le
      have hbarred := (suffix_of_bar hbar).length_le
      have hread' := hno.suffix.length_le
      have hclosed := (suffix_of_closeParen hclose).length_le
      have hend : ¬ (st₅.rest.head? == some (.plain '|')) = true := by
        obtain ⟨ts, hrest, -, -⟩ := closeParen_eq_ok.1 hclose
        simp [hrest]
      rw [alternatives_paren htake hopen]
      show (alternatives n _ [] [] >>= _) _ = _
      rw [bind_of_ok (ihyes (by omega))]
      dsimp only
      rw [bind_of_ok hbar, if_pos rfl, bind_of_ok (ihno (by omega)), bind_of_ok peek_self, if_neg hend,
        pure_bind, bind_of_ok hclose]
      exact ih (by omega)

/-- What is read is unique. -/
theorem Parses.unique {done out out₂ : List (List Item)} {items : List Item}
    (h : Parses scope done items st out st') (h₂ : Parses scope done items st out₂ st₂) :
    out₂ = out ∧ st₂ = st' := by
  have heq := (h₂.alternatives_eq (Nat.lt_succ_self _)).symm.trans (h.alternatives_eq (Nat.lt_succ_self _))
  cases heq
  exact ⟨rfl, rfl⟩

/-! ## Whole patterns -/

/-- Everything has been read, and nothing is left to complain about. -/
structure Settles (st : Progress) : Prop where
  rest : st.rest = []
  flags : (st.global.ascii && st.global.unicode) = false
  asked : ∀ q ∈ st.asked, q.1 < st.nextGroup
  pending : st.pending = none

theorem run'_eq_ok {α : Type} {r : Reader α} {a : α} :
    r.run' st = .ok a ↔ ∃ st', r st = .ok (a, st') := by
  show Except.map Prod.fst (r st) = _ ↔ _
  cases r st with
  | error e => simp [Except.map]
  | ok x => exact ⟨fun h => by cases h; exact ⟨x.2, rfl⟩, fun ⟨st', h⟩ => by cases h; rfl⟩

/-- What is checked when everything has been read. -/
def settle (body : Regex) : Reader Pattern := do
  let st ← get
  if st.global.ascii && st.global.unicode then throw ⟨.conflictingFlags, none⟩
  if !st.rest.isEmpty then fail .unbalancedParenthesis 0
  match st.asked.find? fun (index, _) => st.nextGroup ≤ index with
  | some (index, offset) => failAt (.invalidGroup index) offset
  | none =>
    match st.pending with
    | some fault => throw ⟨fault, none⟩
    | none => return { body, names := st.names }

theorem settle_eq_ok {body : Regex} {q : Pattern} : settle body st = .ok (q, st') ↔
    Settles st ∧ q = { body, names := st.names } ∧ st' = st := by
  rw [settle, bind_of_ok get_self]
  constructor
  · intro h
    dsimp only at h
    split at h
    · cases h
    rename_i hflags
    split at h
    · cases h
    rename_i hrest
    cases hasked : st.asked.find? fun p => decide (st.nextGroup ≤ p.1) with
    | some p => simp only [hasked] at h; cases h
    | none =>
        simp only [hasked] at h
        cases hpending : st.pending with
        | some fault => simp only [hpending] at h; cases h
        | none =>
            simp only [hpending] at h
            cases h
            refine ⟨⟨by simpa using hrest, by simpa using hflags, fun p hp => ?_, hpending⟩, rfl, rfl⟩
            simpa using List.find?_eq_none.1 hasked p hp
  · rintro ⟨hst, rfl, rfl⟩
    have hasked : (st'.asked.find? fun p => decide (st'.nextGroup ≤ p.1)) = none :=
      List.find?_eq_none.2 fun p hp => by simpa using hst.asked p hp
    simp only [hst.flags, hst.rest, hasked, hst.pending]
    rfl

theorem wholePattern_eq : wholePattern = (do
    let st ← get
    if st.rest.head? == some .dangling then fail .danglingEscape 0
    let out ← alternatives (2 * st.rest.length + 2) { flags := {}, top := true } [] []
    settle (assemble out)) := rfl

/-- **A written pattern can be read** if its alternatives have a derivation that leaves nothing. -/
theorem parse_eq_ok {text : List Char} {q : Pattern} : parse text = .ok q ↔ Whole (tokens text) ∧
    ∃ out st, Parses { flags := {}, top := true } [] [] { rest := tokens text } out st ∧ Settles st ∧
      q = { body := assemble out, names := st.names } := by
  rw [parse, run'_eq_ok, wholePattern_eq]
  simp only [bind_of_ok get_self]
  by_cases hwhole : Whole (tokens text)
  · have hhead : ¬ ((tokens text).head? == some .dangling) = true := by simpa [Whole] using hwhole
    simp only [hhead, if_false, Bool.false_eq_true]
    constructor
    · rintro ⟨st', h⟩
      obtain ⟨out, st, hread, hsettle⟩ := bind_eq_ok.1 h
      obtain ⟨hst, rfl, -⟩ := settle_eq_ok.1 hsettle
      exact ⟨hwhole, out, st, parses_of_alternatives hread, hst, rfl⟩
    · rintro ⟨-, out, st, hparses, hst, rfl⟩
      have hread := hparses.alternatives_eq (n := 2 * (tokens text).length + 2) (by
        show (tokens text).length < _
        omega)
      exact ⟨st, bind_eq_ok.2 ⟨out, st, hread, settle_eq_ok.2 ⟨hst, rfl, rfl⟩⟩⟩
  · have hhead : ((tokens text).head? == some .dangling) = true := by simpa [Whole] using hwhole
    simp only [hhead, if_true]
    constructor
    · rintro ⟨st', h⟩
      cases h
    · rintro ⟨h, -⟩
      exact absurd h hwhole

end

end ServiceKeys.Regex
