import ServiceKeys.Proofs.Regex.Taking

/-!
# What the parts of the reader take

Escapes, sets, repetitions, flags, names and comments, each as far as it goes.  The bounds of a
repetition are the one part that looks beyond the next token: a brace that turns out to open no bounds
stands for itself, and what was looked at is still to be read.  It never looks beyond a parenthesis,
though (`Alike`).
-/

namespace ServiceKeys.Regex

open Reader

/-! ## Names, digits and escapes -/

section Parts

variable {st st' st₂ : Progress} {ts : List Token}

theorem local_accept {P : Token → Prop} {c : Char} (hc : P (.plain c)) :
    Local P SameHead (accept c) fun _ => accept c := by
  intro st b st' h
  rcases accept_eq_ok h with ⟨rfl, ts, hrest, hts, rfl⟩ | ⟨rfl, hhead, rfl⟩
  · refine ⟨[.plain c], took_cons hts hrest, by simpa using hc, ?_⟩
    intro _ ts' st₂ _ hts'
    exact takes_accept (hts'.blindly hts)
  · refine ⟨[], .refl _, by simp, ?_⟩
    intro _ ts' st₂ _ hts'
    exact takes_accept_ne (hts' ▸ hhead)

theorem takeWhile_more {p : Char → Bool} {n : Nat} {c : Char} (hhead : st.rest.head? = some (.plain c))
    (hc : p c = true) :
    takeWhile p (n + 1) st = (take >>= fun _ => takeWhile p n >>= fun cs => pure (c :: cs)) st := by
  rw [takeWhile, bind_of_ok peek_self, hhead]
  simp only [hc, if_true]

theorem takeWhile_end {p : Char → Bool} {n : Nat}
    (h : ∀ c, st.rest.head? = some (.plain c) → p c = false) :
    takeWhile p (n + 1) st = .ok ([], st) := by
  rw [takeWhile, bind_of_ok peek_self]
  cases hhead : st.rest.head? with
  | none => rfl
  | some t =>
      cases t with
      | plain c =>
          simp only [h c hhead, Bool.false_eq_true, if_false]
          rfl
      | escaped c => rfl
      | dangling => rfl

/-- What is taken while a test holds: characters that satisfy it, and either as many as may be taken or
all that are there. -/
theorem takeWhile_eq_ok {p : Char → Bool} {n : Nat} {cs : List Char} (h : takeWhile p n st = .ok (cs, st')) :
    Took st (cs.map .plain) st' ∧ (∀ c ∈ cs, p c = true) ∧ (cs ≠ [] → Whole st'.rest) ∧
      (cs.length = n ∨ cs.length < n ∧ ∀ c, st'.rest.head? = some (.plain c) → p c = false) := by
  induction n generalizing st cs with
  | zero =>
      obtain ⟨rfl, rfl⟩ := pure_eq_ok.1 h
      exact ⟨.refl _, by simp, by simp, Or.inl rfl⟩
  | succ n ih =>
      by_cases hmore : ∃ c, st.rest.head? = some (.plain c) ∧ p c = true
      · obtain ⟨c, hhead, hc⟩ := hmore
        rw [takeWhile_more hhead hc] at h
        obtain ⟨o, mid, htake, h⟩ := bind_eq_ok.1 h
        obtain ⟨ds, mid', hds, h⟩ := bind_eq_ok.1 h
        obtain ⟨rfl, rfl⟩ := pure_eq_ok.1 h
        rcases take_eq_ok htake with ⟨-, hnil, -⟩ | ⟨t, ts, -, hrest, hts, rfl⟩
        · simp [hnil] at hhead
        · obtain rfl : t = .plain c := by simpa [hrest] using hhead
          obtain ⟨htook, hall, hwhole, hstop⟩ := ih hds
          refine ⟨(took_cons hts hrest).trans htook, ?_, ?_, ?_⟩
          · simpa [hc] using hall
          · intro _
            cases ds with
            | nil => rwa [show mid'.rest = ts from htook.rest.symm]
            | cons d ds => exact hwhole (List.cons_ne_nil d ds)
          · exact hstop.imp (congrArg (· + 1)) fun hlt => ⟨Nat.succ_lt_succ hlt.1, hlt.2⟩
      · have hend : ∀ c, st.rest.head? = some (.plain c) → p c = false := fun c hhead =>
          Bool.eq_false_iff.2 fun hc => hmore ⟨c, hhead, hc⟩
        rw [takeWhile_end hend] at h
        cases h
        exact ⟨.refl _, by simp, by simp, Or.inr ⟨Nat.succ_pos n, hend⟩⟩

theorem takes_takeWhile {p : Char → Bool} {n : Nat} {cs : List Char} (hall : ∀ c ∈ cs, p c = true)
    (hwhole : cs ≠ [] → Whole ts)
    (hstop : cs.length = n ∨ cs.length < n ∧ ∀ c, ts.head? = some (.plain c) → p c = false) :
    Takes (takeWhile p n) st (cs.map .plain) ts cs := by
  induction cs generalizing n with
  | nil =>
      intro o
      cases n with
      | zero => exact ⟨o, rfl⟩
      | succ n => exact ⟨o, takeWhile_end (hstop.resolve_left (by simp)).2⟩
  | cons c cs ih =>
      intro o
      obtain ⟨n, rfl⟩ : ∃ m, n = m + 1 := ⟨n - 1, by simp at hstop; omega⟩
      have hrest : Whole (cs.map Token.plain ++ ts) := by
        cases cs with
        | nil => exact hwhole (by simp)
        | cons d cs => exact whole_plain _ _
      obtain ⟨o', hmore⟩ := ih (n := n) (fun d hd => hall d (List.mem_cons_of_mem c hd))
        (fun _ => hwhole (by simp)) (by simpa using hstop) (o + (Token.plain c).width)
      refine ⟨o', ?_⟩
      rw [takeWhile_more (c := c) rfl (hall c List.mem_cons_self), List.map_cons, List.cons_append,
        bind_of_ok (take_facing hrest), bind_of_ok hmore]
      rfl

theorem local_takeWhile {p : Char → Bool} (hp : p ')' = false) (n : Nat) :
    Peeking (takeWhile p n) fun _ => takeWhile p n := by
  intro st cs st' h
  obtain ⟨htook, hall, hwhole, hstop⟩ := takeWhile_eq_ok h
  refine ⟨_, htook, ?_, ?_⟩
  · intro t ht
    obtain ⟨c, hc, rfl⟩ := List.mem_map.1 ht
    rintro ⟨⟩
    simp [hall _ hc] at hp
  · intro _ ts st₂ _ hts
    exact takes_takeWhile hall (fun hne => hts.blindly (hwhole hne))
      (hstop.imp_right fun hlt => ⟨hlt.1, hts ▸ hlt.2⟩)

theorem local_hexEscape (c : Char) (n : Nat) : Peeking (hexEscape c n) fun _ => hexEscape c n := by
  refine (local_takeWhile (by decide) n).bind fun ds => ?_
  split
  · exact local_fail_bind _ _ _
  · exact local_pure _

theorem local_codeEscape? (c : Char) : Peeking (codeEscape? c) fun _ => codeEscape? c := by
  unfold codeEscape?
  split
  · exact (local_hexEscape _ _).bind fun _ => local_pure _
  · exact (local_hexEscape _ _).bind fun _ => local_pure _
  · refine (local_takeWhile (by decide) 8).bind fun ds => ?_
    dsimp only
    split
    · exact local_fail_bind _ _ _
    · split
      · exact local_fail_bind _ _ _
      · exact local_pure _
  · -- no character has a name here
    refine (local_accept (by decide)).bind fun opened => ?_
    split
    · exact local_fail_bind _ _ _
    · refine local_of_ne fun st x h => ?_
      obtain ⟨_, _, -, h⟩ := bind_eq_ok.1 h
      cases h
  · exact local_pure _

theorem local_plainEscape (c : Char) : Peeking (plainEscape c) fun _ => plainEscape c := by
  unfold plainEscape
  split
  · exact local_fail_bind _ _ _
  · exact local_pure _

theorem local_setEscape (c : Char) : Peeking (setEscape c) fun _ => setEscape c := by
  unfold setEscape
  split
  · exact local_pure _
  cases controlEscape? c with
  | some n => exact local_pure _
  | none =>
  cases categoryEscape? c with
  | some k => exact local_pure _
  | none =>
  refine (local_codeEscape? c).bind fun code => ?_
  cases code with
  | some n => exact local_pure _
  | none =>
  dsimp only
  split
  · refine (local_takeWhile (by decide) 2).bind fun ds => ?_
    split
    · exact local_fail_bind _ _ _
    · exact local_pure _
  · split
    · exact local_fail_bind _ _ _
    · exact (local_plainEscape c).bind fun _ => local_pure _

/-! ## Sets -/

theorem local_setAtom (t : Token) : Peeking (setAtom t) fun _ => setAtom t := by
  cases t with
  | plain c => exact local_pure _
  | escaped c => exact local_setEscape c
  | dangling => exact local_pure _

theorem length_le_of_local {α : Type} {ok : Token → Prop} {same : List Token → List Token → Prop} {r : Reader α}
    {r' : Nat → Reader α} {a : α} (hr : Local ok same r r') (h : r st = .ok (a, st')) :
    st'.rest.length ≤ st.rest.length := by
  obtain ⟨used, htook, -⟩ := hr h
  exact htook.length_le

/-- What is read of a set behind a hyphen. -/
def behindHyphen (flags : Flags) (start : Nat) (next : List SetItem → Reader (List SetItem))
    (items : List SetItem) (t : Token) (low : SetAtom) : Option Token → Reader (List SetItem)
  | none => failAt .unterminatedSet start
  | some u => do
    if u == .plain ']' then return items ++ [low.item flags, .char '-']
    let high ← setAtom u
    match low, high with
    | .code a, .code b =>
      if b < a then fail (.badRange t.written u.written) (t.width + 1 + u.width)
      next (items ++ [.range a b])
    | _, _ => fail (.badRange t.written u.written) (t.width + 1 + u.width)

/-- What is read of a set behind an atom of it. -/
def behindAtom (flags : Flags) (start : Nat) (next : List SetItem → Reader (List SetItem))
    (items : List SetItem) (t : Token) (low : SetAtom) : Reader (List SetItem) := do
  if !(← accept '-') then next (items ++ [low.item flags])
  else behindHyphen flags start next items t low (← take)

/-- What is read of a set from a member of it on. -/
def fromMember (flags : Flags) (start : Nat) (next : List SetItem → Reader (List SetItem))
    (items : List SetItem) : Option Token → Reader (List SetItem)
  | none => failAt .unterminatedSet start
  | some t => do
    if t == .plain ']' && !items.isEmpty then return items
    behindAtom flags start next items t (← setAtom t)

theorem setItems_succ (flags : Flags) (start n : Nat) (items : List SetItem) :
    setItems flags start (n + 1) items = take >>= fromMember flags start (setItems flags start n) items :=
  rfl

section

variable {next : List SetItem → Reader (List SetItem)} {next' : Nat → List SetItem → Reader (List SetItem)}

theorem blind_behindHyphen (hnext : ∀ items, Blind (next items) fun m => next' m items)
    (hmore : ∀ items, Consumes (next items)) (flags : Flags) (start start' : Nat) (items : List SetItem)
    (t : Token) (low : SetAtom) (u : Token) :
    Blind (behindHyphen flags start next items t low (some u)) fun m =>
      behindHyphen flags start' (next' m) items t low (some u) := by
  unfold behindHyphen
  dsimp only
  split
  · exact local_pure _
  refine Local.peek_bind_blind ((local_setAtom u).mono fun _ _ => trivial) (fun high => ?_) fun high => ?_
  · cases low <;> cases high
    case code.code a b =>
      dsimp only
      split
      · exact local_fail_bind _ _ _
      · exact hnext _
    all_goals exact local_fail _ _
  · intro st x st' h
    cases low <;> cases high
    case code.code a b =>
      dsimp only at h
      split at h
      · cases h
      · exact hmore _ h
    all_goals cases h

theorem blind_behindAtom (hnext : ∀ items, Blind (next items) fun m => next' m items)
    (hmore : ∀ items, Consumes (next items)) (flags : Flags) (start start' : Nat) (items : List SetItem)
    (t : Token) (low : SetAtom) :
    Blind (behindAtom flags start next items t low) (fun m => behindAtom flags start' (next' m) items t low) ∧
      Consumes (behindAtom flags start next items t low) := by
  have hhyphen := blind_behindHyphen hnext hmore flags start start' items t low
  have hmore' : ∀ opened : Bool, Consumes (if !opened then next (items ++ [low.item flags])
      else take >>= behindHyphen flags start next items t low) := by
    intro opened
    split
    · exact hmore _
    · exact consumes_take_bind (fun _ _ h => by cases h) fun u st b st' h => length_le_of_local (hhyphen u) h
  constructor
  · refine Local.peek_bind_blind (local_accept trivial) (fun opened => ?_) hmore'
    split
    · exact hnext _
    · exact blind_take_bind_same (fun _ _ h => by cases h) hhyphen
  · intro st x st' h
    obtain ⟨opened, mid, hopened, h⟩ := bind_eq_ok.1 h
    have hle := length_le_of_local (local_accept (P := fun _ => True) trivial) hopened
    exact Nat.lt_of_lt_of_le (hmore' opened h) hle

end

/-- The members of a set are read up to its closing bracket, which is taken too. -/
theorem blind_setItems (flags : Flags) (start start' n : Nat) (items : List SetItem) :
    Blind (setItems flags start n items) (fun m => setItems flags start' m items) ∧
      Consumes (setItems flags start n items) := by
  induction n generalizing items with
  | zero => exact ⟨local_failAt _ _, fun _ _ _ h => by cases h⟩
  | succ n ih =>
      have hatom := fun items t low => blind_behindAtom (fun items => (ih items).1) (fun items => (ih items).2)
        flags start start' items t low
      rw [setItems_succ]
      constructor
      · refine (blind_take_bind (g := fun o m => fromMember flags start' (setItems flags start' m) items o)
          (fun _ _ h => by cases h) fun t => ?_).congr fun m => (setItems_succ _ _ _ _).symm
        unfold fromMember
        dsimp only
        split
        · exact local_pure _
        · exact Local.peek_bind_blind ((local_setAtom t).mono fun _ _ => trivial) (fun low => (hatom items t low).1)
            fun low => (hatom items t low).2
      · refine consumes_take_bind (fun _ _ h => by cases h) fun t st b st' h => ?_
        unfold fromMember at h
        dsimp only at h
        split at h
        · obtain ⟨-, rfl⟩ := pure_eq_ok.1 h
          exact Nat.le_refl _
        · obtain ⟨low, mid, hlow, h⟩ := bind_eq_ok.1 h
          exact Nat.le_trans (Nat.le_of_lt ((hatom items t low).2 h)) (length_le_of_local (local_setAtom t) hlow)

/-- The members of a set, as an item. -/
def setOf (flags : Flags) (negated : Bool) (start fuel : Nat) : Reader Item := do
  let items ← setItems flags start fuel []
  return { node := .one (.ofItems flags.rule negated items) }

/-- **A set is read up to its closing bracket**, and no further. -/
theorem blind_setItem (flags : Flags) : Blind (setItem flags) fun _ => setItem flags := by
  refine local_offset_bind fun start start' => ?_
  refine Local.peek_bind_blind (local_accept trivial) (fun negated => ?_)
    fun negated => ?_
  · exact local_fuel_bind (f := setOf flags negated (start - 1)) (g := setOf flags negated (start' - 1))
      fun n => (blind_setItems flags _ _ n []).1.bind_blind fun _ => local_pure _
  · intro st item st' h
    rw [bind_of_ok get_self] at h
    obtain ⟨items, mid, hitems, h⟩ := bind_eq_ok.1 h
    obtain ⟨-, rfl⟩ := pure_eq_ok.1 h
    exact (blind_setItems flags _ 0 _ []).2 hitems

/-! ## Repetitions -/

theorem local_repeatMode : Peeking repeatMode fun _ => repeatMode := by
  refine (local_accept (by decide)).bind fun reluctant => ?_
  split
  · exact local_pure _
  refine (local_accept (by decide)).bind fun possessive => ?_
  split
  · exact local_pure _
  · exact local_pure _

/-! ## Flags, names and comments -/

/-- What is read of the flags of a group behind a flag to switch on. -/
def behindFlagOn (next : Token → List Flag → Reader (List Flag × Token)) (on : List Flag) :
    Option Token → Reader (List Flag × Token)
  | none => fail (.missing "-, : or )") 0
  | some u =>
    if u == .plain ')' || u == .plain '-' || u == .plain ':' then return (on, u)
    else next u on

/-- What is read of the flags of a group from a flag to switch on. -/
def fromFlagOn (next : Token → List Flag → Reader (List Flag × Token)) (t : Token) (on : List Flag) :
    Reader (List Flag × Token) := do
  match Flag.ofToken? t with
  | none => fail (if t.isLetter then .unknownFlag else .missing "-, : or )") t.width
  | some flag =>
    if flag == .locale then
      fail (.badInlineFlags "cannot use 'L' flag with a str pattern") 0
    let on := on ++ [flag]
    if flag.isRepertoire && on.any fun other => other.isRepertoire && other != flag then
      fail (.badInlineFlags "flags 'a', 'u' and 'L' are incompatible") 0
    behindFlagOn next on (← take)

theorem flagsOn_succ (n : Nat) (t : Token) (on : List Flag) :
    flagsOn (n + 1) t on = fromFlagOn (flagsOn n) t on := rfl

theorem blind_flagsOn (n : Nat) (t : Token) (on : List Flag) :
    Blind (flagsOn n t on) fun m => flagsOn m t on := by
  induction n generalizing t on with
  | zero => exact local_fail _ _
  | succ n ih =>
      have hbehind : ∀ on, Blind (take >>= behindFlagOn (flagsOn n) on) fun m =>
          take >>= behindFlagOn (flagsOn (m - 1)) on := fun on =>
        blind_take_bind (g := fun o m => behindFlagOn (flagsOn m) on o) (fun _ _ h => by cases h) fun u => by
          unfold behindFlagOn
          dsimp only
          split
          · exact local_pure _
          · exact ih u on
      refine Local.congr (g := fun m => fromFlagOn (flagsOn (m - 1)) t on) ?_ fun m =>
        (flagsOn_succ m t on).symm
      rw [flagsOn_succ]
      unfold fromFlagOn
      cases Flag.ofToken? t with
      | none => exact local_fail _ _
      | some flag =>
          dsimp only
          split
          · exact local_fail_bind _ _ _
          split
          · exact local_fail_bind _ _ _
          · exact hbehind _

/-- What is read of the flags of a group behind a flag to switch off. -/
def behindFlagOff (next : Token → List Flag → Reader (List Flag)) (off : List Flag) :
    Option Token → Reader (List Flag)
  | none => fail (.missing ":") 0
  | some u => if u == .plain ':' then return off else next u off

/-- What is read of the flags of a group from a flag to switch off. -/
def fromFlagOff (next : Token → List Flag → Reader (List Flag)) (t : Token) (off : List Flag) :
    Reader (List Flag) := do
  match Flag.ofToken? t with
  | none =>
    fail (if t.isLetter then .unknownFlag
      else .missing (if off.isEmpty then "flag" else ":")) t.width
  | some flag =>
    if flag.isRepertoire then
      fail (.badInlineFlags "cannot turn off flags 'a', 'u' and 'L'") 0
    behindFlagOff next (off ++ [flag]) (← take)

theorem flagsOff_succ (n : Nat) (t : Token) (off : List Flag) :
    flagsOff (n + 1) t off = fromFlagOff (flagsOff n) t off := rfl

theorem blind_flagsOff (n : Nat) (t : Token) (off : List Flag) :
    Blind (flagsOff n t off) fun m => flagsOff m t off := by
  induction n generalizing t off with
  | zero => exact local_fail _ _
  | succ n ih =>
      refine Local.congr (g := fun m => fromFlagOff (flagsOff (m - 1)) t off) ?_ fun m =>
        (flagsOff_succ m t off).symm
      rw [flagsOff_succ]
      unfold fromFlagOff
      cases Flag.ofToken? t with
      | none => exact local_fail _ _
      | some flag =>
          dsimp only
          split
          · exact local_fail_bind _ _ _
          refine blind_take_bind (g := fun o m => behindFlagOff (flagsOff m) (off ++ [flag]) o)
            (fun _ _ h => by cases h) fun u => ?_
          unfold behindFlagOff
          dsimp only
          split
          · exact local_pure _
          · exact ih u _

/-- What is read of the flags of a group behind those to switch off. -/
def behindFlagsOff (on off : List Flag) : Reader FlagGroup := do
  if off.contains .plainOnly then fail (.badInlineFlags "cannot turn off global flag") 1
  if on.any off.contains then fail (.badInlineFlags "flag turned on and off") 1
  return .scoped on off

/-- What is read of the flags of a group behind those to switch on. -/
def behindFlagsOn (many : Nat) : List Flag × Token → Reader FlagGroup
  | (on, closing) => do
    if closing == .plain ')' then return .whole on
    if on.contains .plainOnly then fail (.badInlineFlags "cannot turn on global flag") 1
    if closing == .plain '-' then
      match ← take with
      | none => fail (.missing "flag") 0
      | some t => flagsOff many t [] >>= behindFlagsOff on
    else behindFlagsOff on []

/-- What is read of the flags of a group, with given fuel. -/
def fromFlags (first : Token) (many : Nat) : Reader FlagGroup :=
  if first == .plain '-' then behindFlagsOn many ([], first)
  else flagsOn many first [] >>= behindFlagsOn many

theorem flagGroup_eq (first : Token) :
    flagGroup first = get >>= fun st => fromFlags first (st.rest.length + 1) := by
  unfold flagGroup
  refine congrArg (get >>= ·) (funext fun st => ?_)
  dsimp only
  unfold fromFlags
  split
  · show behindFlagsOn _ _ = behindFlagsOn _ _
    rfl
  · refine congrArg (flagsOn _ _ _ >>= ·) (funext fun read => ?_)
    rfl

theorem blind_behindFlagsOff (on off : List Flag) :
    Blind (behindFlagsOff on off) fun _ => behindFlagsOff on off := by
  unfold behindFlagsOff
  dsimp only
  split
  · exact local_fail_bind _ _ _
  split
  · exact local_fail_bind _ _ _
  · exact local_pure _

theorem blind_behindFlagsOn (many : Nat) (read : List Flag × Token) :
    Blind (behindFlagsOn many read) fun m => behindFlagsOn m read := by
  unfold behindFlagsOn
  dsimp only
  split
  · exact local_pure _
  split
  · exact local_fail_bind _ _ _
  split
  · refine blind_take_bind_same (fun st x h => ?_) fun t => ?_
    · cases h
    · exact (blind_flagsOff many t []).bind_blind fun off => blind_behindFlagsOff read.1 off
  · exact blind_behindFlagsOff read.1 []

/-- **The flags of a group are read up to their end**, and no further. -/
theorem blind_flagGroup (first : Token) : Blind (flagGroup first) fun _ => flagGroup first := by
  rw [flagGroup_eq]
  refine local_fuel_bind fun n => ?_
  unfold fromFlags
  split
  · exact blind_behindFlagsOn n _
  · exact (blind_flagsOn n first []).bind_blind fun read => blind_behindFlagsOn n read

/-- What is read of a name behind a token of it. -/
def behindNamePart (closing : Char) (what : String) (next : List Char → Reader (List Char))
    (name : List Char) : Option Token → Reader (List Char)
  | none =>
    if name.isEmpty then fail (.missing what) 0
    else fail (.unterminatedName closing) name.length
  | some t =>
    if t == .plain closing then
      if name.isEmpty then fail (.missing what) 1 else return name
    else next (name ++ t.chars)

theorem takeUntilGo_succ (closing : Char) (what : String) (n : Nat) (name : List Char) :
    takeUntilGo closing what (n + 1) name =
      take >>= behindNamePart closing what (takeUntilGo closing what n) name := rfl

theorem blind_takeUntilGo (closing : Char) (what : String) (n : Nat) (name : List Char) :
    Blind (takeUntilGo closing what n name) fun m => takeUntilGo closing what m name := by
  induction n generalizing name with
  | zero => exact local_fail _ _
  | succ n ih =>
      rw [takeUntilGo_succ]
      refine (blind_take_bind (g := fun o m => behindNamePart closing what (takeUntilGo closing what m) name o)
        (fun _ _ h => ?_) fun t => ?_).congr fun m => (takeUntilGo_succ closing what m name).symm
      · unfold behindNamePart at h
        dsimp only at h
        split at h <;> cases h
      · unfold behindNamePart
        dsimp only
        split
        · split
          · exact local_fail _ _
          · exact local_pure _
        · exact ih _

theorem blind_takeUntil (closing : Char) (what : String) :
    Blind (takeUntil closing what) fun _ => takeUntil closing what :=
  local_fuel_bind fun n => blind_takeUntilGo closing what n []

theorem takeUntilGo_eq_ok {closing : Char} {what : String} {n : Nat} {name name' : List Char}
    (h : takeUntilGo closing what n name st = .ok (name', st')) :
    ∃ used, st.rest = used ++ .plain closing :: st'.rest ∧ .plain closing ∉ used ∧
      name' = name ++ used.flatMap Token.chars := by
  induction n generalizing name st with
  | zero => cases h
  | succ n ih =>
      rw [takeUntilGo_succ] at h
      obtain ⟨t, mid, htake, h₁⟩ := bind_eq_ok.1 h
      rcases take_eq_ok htake with ⟨rfl, -, -⟩ | ⟨t, ts, rfl, hrest, -, rfl⟩
      · unfold behindNamePart at h₁
        dsimp only at h₁
        split at h₁ <;> cases h₁
      unfold behindNamePart at h₁
      dsimp only at h₁
      split at h₁
      · rename_i hclosing
        split at h₁
        · cases h₁
        · obtain ⟨rfl, rfl⟩ := pure_eq_ok.1 h₁
          exact ⟨[], by rw [hrest, beq_iff_eq.1 hclosing]; rfl, by simp, by simp⟩
      · rename_i hclosing
        obtain ⟨used, hused, hnone, rfl⟩ := ih h₁
        refine ⟨t :: used, ?_, ?_, by simp⟩
        · rw [hrest, show ts = _ from hused]
          rfl
        · rw [List.mem_cons, not_or]
          exact ⟨fun heq => hclosing (beq_iff_eq.2 heq.symm), hnone⟩

/-- A name is what stands in front of the first closing character. -/
theorem takeUntil_eq_ok {closing : Char} {what : String} {name : List Char}
    (h : takeUntil closing what st = .ok (name, st')) :
    ∃ used, st.rest = used ++ .plain closing :: st'.rest ∧ .plain closing ∉ used ∧
      name = used.flatMap Token.chars := by
  rw [takeUntil, bind_of_ok get_self] at h
  exact takeUntilGo_eq_ok h

theorem blind_groupName (closing : Char) : Blind (groupName closing) fun _ => groupName closing := by
  refine (blind_takeUntil closing "group name").bind_blind fun name => ?_
  dsimp only
  split
  · exact local_fail_bind _ _ _
  · exact local_pure _

theorem blind_takeSome : Blind takeSome fun _ => takeSome :=
  blind_take_bind_same (fun _ _ h => by cases h) fun t => local_pure t

/-- What is read of a comment behind a token of it. -/
def behindRemark (start : Nat) (next : Reader Unit) : Option Token → Reader Unit
  | none => failAt .unterminatedComment start
  | some t => if t == .plain ')' then return () else next

theorem skipComment_succ (start n : Nat) :
    skipComment start (n + 1) = take >>= behindRemark start (skipComment start n) := rfl

theorem blind_skipComment (start start' n : Nat) :
    Blind (skipComment start n) fun m => skipComment start' m := by
  induction n with
  | zero => exact local_failAt _ _
  | succ n ih =>
      rw [skipComment_succ]
      refine (blind_take_bind (g := fun o m => behindRemark start' (skipComment start' m) o)
        (fun _ _ h => by cases h) fun t => ?_).congr fun m => (skipComment_succ start' m).symm
      unfold behindRemark
      dsimp only
      split
      · exact local_pure _
      · exact ih

/-- The rest of a line is skipped up to its end, which is taken too, or up to the end of the text. -/
theorem skipLine_eq_ok {n : Nat} (hn : st.rest.length < n) (h : skipLine n st = .ok ((), st')) :
    ∃ used, Took st used st' ∧ (st'.rest = [] ∨ used.getLast? = some (.plain '\n')) ∧
      ∀ m ts st₂, used.length < m → SameHead st'.rest ts → Takes (skipLine m) st₂ used ts () := by
  induction n generalizing st with
  | zero => exact absurd hn (Nat.not_lt_zero _)
  | succ n ih =>
      rw [skipLine] at h
      obtain ⟨o, mid, htake, hmore⟩ := bind_eq_ok.1 h
      rcases take_eq_ok htake with ⟨rfl, hnil, rfl⟩ | ⟨t, ts, rfl, hrest, hts, rfl⟩
      · obtain ⟨-, rfl⟩ := pure_eq_ok.1 hmore
        refine ⟨[], .refl _, Or.inl hnil, fun m ts st₂ hm hsame o => ⟨o, ?_⟩⟩
        obtain ⟨m, rfl⟩ : ∃ l, m = l + 1 := ⟨m - 1, by simp at hm; omega⟩
        obtain rfl : ts = [] := by
          rw [SameHead, hnil] at hsame
          exact List.head?_eq_none_iff.1 hsame.symm
        rw [skipLine, bind_of_ok (take_nil rfl)]
        rfl
      · dsimp only at hmore
        split at hmore
        · rename_i hnewline
          obtain rfl := beq_iff_eq.1 hnewline
          obtain ⟨-, rfl⟩ := pure_eq_ok.1 hmore
          refine ⟨[.plain '\n'], took_cons hts hrest, Or.inr rfl, fun m ts' st₂ hm hsame o => ⟨o + 1, ?_⟩⟩
          obtain ⟨m, rfl⟩ : ∃ l, m = l + 1 := ⟨m - 1, by simp at hm; omega⟩
          rw [skipLine, List.singleton_append, bind_of_ok (take_facing (hsame.blindly hts))]
          rfl
        · rename_i hnewline
          have hlt : ts.length < n := by
            rw [hrest] at hn
            simpa using hn
          obtain ⟨used, htook, hlast, htakes⟩ := ih hlt hmore
          refine ⟨t :: used, (took_cons hts hrest).trans htook, ?_, fun m ts' st₂ hm hsame o => ?_⟩
          · refine hlast.imp_right fun hlast => ?_
            cases used with
            | nil => simp at hlast
            | cons u us => exact hlast
          · obtain ⟨m, rfl⟩ : ∃ l, m = l + 1 := ⟨m - 1, by simp at hm; omega⟩
            have hwhole : Whole (used ++ ts') := (hsame.prepend used).blindly (htook.rest ▸ hts)
            obtain ⟨o', hskip⟩ := htakes m ts' st₂ (by simpa using hm) hsame (o + t.width)
            refine ⟨o', ?_⟩
            rw [skipLine, List.cons_append, bind_of_ok (take_facing hwhole)]
            dsimp only
            rw [if_neg hnewline, hskip]

/-! ## Bounds -/

/-- Nothing tells two lists of tokens apart before a parenthesis. -/
def Alike (ts ts' : List Token) : Prop :=
  ts = ts' ∨ ∃ front p more more', p ∈ [Token.plain '(', .plain ')'] ∧ ts = front ++ p :: more ∧
    ts' = front ++ p :: more'

theorem Alike.refl (ts : List Token) : Alike ts ts := Or.inl rfl

theorem Alike.sameHead {ts' : List Token} (h : Alike ts ts') : SameHead ts ts' := by
  rcases h with rfl | ⟨front, p, more, more', -, rfl, rfl⟩
  · rfl
  · cases front <;> rfl

theorem Alike.prepend {ts' : List Token} (h : Alike ts ts') (us : List Token) : Alike (us ++ ts) (us ++ ts') := by
  rcases h with rfl | ⟨front, p, more, more', hp, rfl, rfl⟩
  · exact Or.inl rfl
  · exact Or.inr ⟨us ++ front, p, more, more', hp, by simp, by simp⟩

/-- What stands before the parenthesis is the same in both lists. -/
theorem Alike.of_append {us ts' : List Token} (h : Alike (us ++ ts) ts')
    (hus : ∀ u ∈ us, u ∉ [Token.plain '(', .plain ')']) : ∃ more, ts' = us ++ more ∧ Alike ts more := by
  rcases h with rfl | ⟨front, p, more, more', hp, hts, rfl⟩
  · exact ⟨ts, rfl, .refl ts⟩
  · rcases List.append_eq_append_iff.1 hts with ⟨as, rfl, rfl⟩ | ⟨bs, rfl, hbs⟩
    · exact ⟨as ++ p :: more', by simp, Or.inr ⟨as, p, more, more', hp, rfl, rfl⟩⟩
    · cases bs with
      | nil => exact ⟨p :: more', by simp, Or.inr ⟨[], p, more, more', hp, by simpa using hbs.symm, rfl⟩⟩
      | cons b bs =>
          obtain ⟨rfl, -⟩ := List.cons.inj hbs
          exact absurd hp (hus p (by simp))

/-- The digits of bounds in braces, and whether the closing brace is there. -/
def braced (many : Nat) : Reader (List Char × List Char × Bool) := do
  let low ← takeWhile Char.isDigit many
  let high ← if ← accept ',' then takeWhile Char.isDigit many else pure low
  return (low, high, ← accept '}')

/-- The bounds that digits spell. -/
def spelled (start : Nat) (low high : List Char) : Reader (Option Bounds) := do
  let lo := (← boundOf low).getD 0
  let hi ← boundOf high
  if hi.any (· < lo) then failAt .minAboveMax start
  return some ⟨lo, hi⟩

theorem bounds?_brace {c : Char} (hc : c ∉ ['?', '*', '+']) : bounds? c = (do
    if (← peek) == some (.plain '}') then return none
    let before ← get
    let (low, high, closed) ← braced before.rest.length
    if !closed then
      set before
      return none
    spelled before.offset low high) := by
  simp only [List.mem_cons, List.not_mem_nil, or_false, not_or] at hc
  unfold bounds?
  split
  · exact absurd rfl hc.1
  · exact absurd rfl hc.2.1
  · exact absurd rfl hc.2.2
  · refine congrArg (peek >>= ·) (funext fun o => ?_)
    split
    · rfl
    · refine congrArg (get >>= ·) (funext fun before => ?_)
      simp only [braced, bind_assoc]
      refine congrArg (takeWhile _ _ >>= ·) (funext fun low => ?_)
      refine congrArg (accept ',' >>= ·) (funext fun comma => ?_)
      split
      · simp only [bind_assoc, pure_bind]
        rfl
      · simp only [bind_assoc, pure_bind]
        rfl

/-- Digits are read up to what is no digit, if there is fuel for all of them. -/
theorem digits_eq_ok {n : Nat} {cs : List Char} (hn : st.rest.length ≤ n)
    (h : takeWhile Char.isDigit n st = .ok (cs, st')) :
    Took st (cs.map .plain) st' ∧ (∀ c ∈ cs, c.isDigit = true) ∧
      ∀ m ts st₂, cs.length ≤ m → SameHead st'.rest ts →
        Takes (takeWhile Char.isDigit m) st₂ (cs.map .plain) ts cs := by
  obtain ⟨htook, hall, hwhole, hstop⟩ := takeWhile_eq_ok h
  have hnext : ∀ c, st'.rest.head? = some (.plain c) → c.isDigit = false := by
    rcases hstop with hlength | ⟨-, hnext⟩
    · have hrest : st'.rest = [] := by
        have hsum := congrArg List.length htook.rest
        rw [List.length_append, List.length_map] at hsum
        exact List.length_eq_zero_iff.1 (by omega)
      simp [hrest]
    · exact hnext
  exact ⟨htook, hall, fun m ts st₂ hm hsame => takes_takeWhile hall (fun hne => hsame.blindly (hwhole hne))
    ((Nat.eq_or_lt_of_le hm).imp_right fun hlt => ⟨hlt, hsame ▸ hnext⟩)⟩

/-- The tokens of bounds. -/
def InBounds (t : Token) : Prop := ∃ c : Char, t = .plain c ∧ (c.isDigit || c == ',' || c == '}') = true

theorem inBounds_digits {cs : List Char} (h : ∀ c ∈ cs, c.isDigit = true) :
    ∀ t ∈ cs.map Token.plain, InBounds t := by
  intro t ht
  obtain ⟨c, hc, rfl⟩ := List.mem_map.1 ht
  exact ⟨c, rfl, by simp [h c hc]⟩

theorem InBounds.ne_paren {t : Token} (h : InBounds t) : t ∉ [Token.plain '(', .plain ')'] := by
  obtain ⟨c, rfl, hc⟩ := h
  intro hmem
  simp only [List.mem_cons, Token.plain.injEq, List.not_mem_nil, or_false] at hmem
  rcases hmem with rfl | rfl <;> simp at hc

theorem braced_eq_ok {n : Nat} {read : List Char × List Char × Bool} (hn : st.rest.length ≤ n)
    (h : braced n st = .ok (read, st')) :
    ∃ used, Took st used st' ∧ (∀ t ∈ used, InBounds t) ∧
      ∀ m ts st₂, used.length ≤ m → SameHead st'.rest ts → Takes (braced m) st₂ used ts read := by
  obtain ⟨low, st₁, hlow, h⟩ := bind_eq_ok.1 h
  obtain ⟨comma, st₂, hcomma, h⟩ := bind_eq_ok.1 h
  obtain ⟨htook₁, hall, htakes₁⟩ := digits_eq_ok hn hlow
  obtain ⟨sign, htook₂, hsign, htakes₂⟩ := local_accept (P := InBounds) ⟨',', rfl, rfl⟩ hcomma
  -- the second number, if there is one
  have hhigh : ∃ high st₃ more, Took st₂ more st₃ ∧ (∀ t ∈ more, InBounds t) ∧
      (accept '}' >>= fun closed => pure (low, high, closed)) st₃ = .ok (read, st') ∧
      ∀ m ts st, more.length ≤ m → SameHead st₃.rest ts →
        Takes (if comma then takeWhile Char.isDigit m else pure low) st more ts high := by
    have hle := Nat.le_trans (htook₁.trans htook₂).length_le hn
    cases comma with
    | true =>
        obtain ⟨high, st₃, hhigh, h⟩ := bind_eq_ok.1 h
        obtain ⟨htook₃, hall', htakes₃⟩ := digits_eq_ok hle hhigh
        exact ⟨high, st₃, _, htook₃, inBounds_digits hall', h,
          fun m ts st hm => htakes₃ m ts st (by simpa using hm)⟩
    | false => exact ⟨low, st₂, [], .refl _, by simp, h, fun _ _ _ _ _ => takes_pure _⟩
  obtain ⟨high, st₃, more, htook₃, hmore, h, htakes₃⟩ := hhigh
  obtain ⟨closed, st₄, hclosed, h⟩ := bind_eq_ok.1 h
  obtain ⟨rfl, rfl⟩ := pure_eq_ok.1 h
  obtain ⟨brace, htook₄, hbrace, htakes₄⟩ := local_accept (P := InBounds) ⟨'}', rfl, rfl⟩ hclosed
  refine ⟨low.map .plain ++ (sign ++ (more ++ brace)), htook₁.trans (htook₂.trans (htook₃.trans htook₄)),
    ?_, ?_⟩
  · simp only [List.mem_append]
    rintro t (ht | ht | ht | ht)
    · exact inBounds_digits hall t ht
    · exact hsign t ht
    · exact hmore t ht
    · exact hbrace t ht
  · intro m ts st hm hsame
    simp only [List.length_append, List.length_map] at hm
    have hahead₃ : SameHead st₃.rest (brace ++ ts) := htook₄.rest ▸ hsame.prepend brace
    have hahead₂ : SameHead st₂.rest (more ++ (brace ++ ts)) := htook₃.rest ▸ hahead₃.prepend more
    have hahead₁ : SameHead st₁.rest (sign ++ (more ++ (brace ++ ts))) := htook₂.rest ▸ hahead₂.prepend sign
    have hlast : Takes (accept '}' >>= fun closed => pure (low, high, closed)) st (brace ++ []) ts
        (low, high, closed) := (htakes₄ (Nat.lt_succ_self _) hsame).bind (takes_pure _)
    rw [List.append_nil] at hlast
    have hnumber := htakes₃ m _ st (by omega) hahead₃
    have htail : Takes (do
        let high ← if comma then takeWhile Char.isDigit m else pure low
        return (low, high, ← accept '}')) st (more ++ brace) ts (low, high, closed) := by
      cases comma with
      | true => exact hnumber.bind hlast
      | false => exact hnumber.bind hlast
    have hcomma : Takes (accept ',') st sign ((more ++ brace) ++ ts) comma := by
      rw [List.append_assoc]
      exact htakes₂ (Nat.lt_succ_self _) hahead₂
    have hdigits : Takes (takeWhile Char.isDigit m) st (low.map .plain) ((sign ++ (more ++ brace)) ++ ts) low := by
      simp only [List.append_assoc]
      exact htakes₁ m _ st (by omega) hahead₁
    exact hdigits.bind (hcomma.bind htail)

theorem boundOf_eq_ok {ds : List Char} {n : Option Nat} (h : boundOf ds st = .ok (n, st')) :
    st' = st ∧ ∀ st₂, boundOf ds st₂ = .ok (n, st₂) := by
  unfold boundOf at h ⊢
  split at h
  · rename_i hds
    obtain ⟨rfl, rfl⟩ := pure_eq_ok.1 h
    exact ⟨rfl, fun st₂ => by rw [if_pos hds]; rfl⟩
  · rename_i hds
    dsimp only at h
    split at h
    · cases h
    · rename_i hhuge
      obtain ⟨rfl, rfl⟩ := pure_eq_ok.1 h
      refine ⟨rfl, fun st₂ => ?_⟩
      rw [if_neg hds]
      dsimp only
      rw [if_neg hhuge]
      rfl

theorem spelled_eq_ok {start : Nat} {low high : List Char} {b : Option Bounds}
    (h : spelled start low high st = .ok (b, st')) :
    st' = st ∧ ∀ start' st₂, spelled start' low high st₂ = .ok (b, st₂) := by
  obtain ⟨lo, mid, hlo, hrest⟩ := bind_eq_ok.1 h
  obtain ⟨hi, mid', hhi, hlast⟩ := bind_eq_ok.1 hrest
  obtain ⟨rfl, hlo'⟩ := boundOf_eq_ok hlo
  obtain ⟨rfl, hhi'⟩ := boundOf_eq_ok hhi
  split at hlast
  · cases hlast
  · rename_i horder
    obtain ⟨rfl, rfl⟩ := pure_eq_ok.1 hlast
    refine ⟨rfl, fun start' st₂ => ?_⟩
    rw [spelled, bind_of_ok (hlo' st₂), bind_of_ok (hhi' st₂)]
    rw [if_neg horder]
    rfl

/-- **The bounds of a repetition are read up to their end**, or nothing is read and nothing is looked at
beyond a parenthesis. -/
theorem bounds?_eq_ok {c : Char} {b : Option Bounds} (h : bounds? c st = .ok (b, st')) :
    ∃ used, Took st used st' ∧ .plain ')' ∉ used ∧
      ∀ ts st₂, Alike st'.rest ts → Takes (bounds? c) st₂ used ts b := by
  by_cases hc : c ∈ ['?', '*', '+']
  · have hnone : st' = st ∧ ∀ st₂, bounds? c st₂ = .ok (b, st₂) := by
      simp only [List.mem_cons, List.not_mem_nil, or_false] at hc
      rcases hc with rfl | rfl | rfl <;> cases h <;> exact ⟨rfl, fun _ => rfl⟩
    obtain ⟨rfl, hall⟩ := hnone
    exact ⟨[], .refl _, by simp, fun ts st₂ _ o => ⟨o, hall _⟩⟩
  rw [bounds?_brace hc, bind_of_ok peek_self] at h
  by_cases hhead : (st.rest.head? == some (.plain '}')) = true
  · rw [if_pos hhead] at h
    obtain ⟨rfl, rfl⟩ := pure_eq_ok.1 h
    refine ⟨[], .refl _, by simp, fun ts st₂ halike o => ⟨o, ?_⟩⟩
    rw [bounds?_brace hc, List.nil_append, bind_of_ok peek_facing, ← halike.sameHead, if_pos hhead]
    rfl
  rw [if_neg hhead, bind_of_ok get_self] at h
  obtain ⟨⟨low, high, closed⟩, mid, hbraced, h⟩ := bind_eq_ok.1 h
  obtain ⟨used, htook, hused, htakes⟩ := braced_eq_ok (Nat.le_refl _) hbraced
  cases closed with
  | true =>
      obtain ⟨rfl, hspelled⟩ := spelled_eq_ok h
      refine ⟨used, htook, fun ht => (hused _ ht).ne_paren (by simp), fun ts st₂ halike o => ?_⟩
      have hsame : SameHead st.rest (used ++ ts) := htook.rest ▸ halike.sameHead.prepend used
      obtain ⟨o', hread⟩ := htakes (used ++ ts).length ts st₂ (by simp) halike.sameHead o
      refine ⟨o', ?_⟩
      rw [bounds?_brace hc, bind_of_ok peek_facing, ← hsame, if_neg hhead, bind_of_ok get_self,
        show (st₂.facing (used ++ ts) o).rest.length = (used ++ ts).length from rfl, bind_of_ok hread]
      exact hspelled _ _
  | false =>
      obtain ⟨_, mid', hset, h⟩ := bind_eq_ok.1 h
      obtain ⟨rfl, rfl⟩ := pure_eq_ok.1 h
      cases hset
      refine ⟨[], .refl _, by simp, fun ts st₂ halike o => ⟨o, ?_⟩⟩
      -- what has been looked at is there again, since it stands before any parenthesis
      obtain ⟨more, rfl, hmore⟩ := (htook.rest ▸ halike).of_append fun u hu => (hused u hu).ne_paren
      obtain ⟨o', hread⟩ := htakes (used ++ more).length more st₂ (by simp) hmore.sameHead o
      rw [bounds?_brace hc, List.nil_append, bind_of_ok peek_facing, ← halike.sameHead, if_neg hhead,
        bind_of_ok get_self, show (st₂.facing (used ++ more) o).rest.length = (used ++ more).length from rfl,
        bind_of_ok hread]
      rfl

end Parts

end ServiceKeys.Regex
