import ServiceKeys.Regex.Basic

/-!
# Matching

A backtracking matcher.  It runs over a *cursor*, the text split at a place, and is written in
continuation style: `Regex.run r st k` tries the matches of `r` from `st` in order of preference and
gives each to `k`, the rest of the work, until one succeeds.  Choices are undone by simply not using
the state that they led to, so a failed attempt leaves no trace in the remembered groups.

The recursion is structural in the pattern.  A repetition runs on its own bound: each round beyond
the required ones must move the cursor, so there are at most as many rounds as characters left.
-/

namespace ServiceKeys.Regex

/-! ## Cursors and states -/

/-- A text split at a place: what stands before it, nearest first, what stands after it, and how
many characters stand before it. -/
structure Cursor where
  before : List Char
  after : List Char
  pos : Nat
  deriving DecidableEq, Repr, Inhabited

/-- The cursor in front of a text. -/
def Cursor.start (text : List Char) : Cursor := ⟨[], text, 0⟩

/-- Moves over one character of a set. -/
def Cursor.accept? (s : CharSet) : Cursor → Option Cursor
  | ⟨_, [], _⟩ => none
  | ⟨before, c :: after, pos⟩ =>
    if s.accepts c then some ⟨c :: before, after, pos + 1⟩ else none

/-- Moves back over `n` characters. -/
def Cursor.back? : Nat → Cursor → Option Cursor
  | 0, cur => some cur
  | _ + 1, ⟨[], _, _⟩ => none
  | n + 1, ⟨c :: before, after, pos⟩ => back? n ⟨before, c :: after, pos - 1⟩

/-- Moves over a given text, up to a case rule. -/
def Cursor.readText? (rule : CaseRule) : List Char → Cursor → Option Cursor
  | [], cur => some cur
  | d :: ds, ⟨before, after, pos⟩ =>
    match after with
    | [] => none
    | c :: after =>
      if rule.fold c == rule.fold d then readText? rule ds ⟨c :: before, after, pos + 1⟩ else none

/-- Whether an anchor holds at a cursor.  An empty text has neither word edges nor places that are
not word edges. -/
def Anchor.holds : Anchor → Cursor → Bool
  | .textStart, cur => cur.before.isEmpty
  | .lineStart, cur => cur.before.isEmpty || cur.before.head? == some '\n'
  | .textEnd, cur => cur.after.isEmpty
  | .lastLineEnd, cur => cur.after.isEmpty || cur.after == ['\n']
  | .lineEnd, cur => cur.after.isEmpty || cur.after.head? == some '\n'
  | .wordEdge ascii negated, cur =>
    let inWord (side : List Char) := side.head?.any (Category.word.holds ascii)
    !(cur.before.isEmpty && cur.after.isEmpty) &&
      ((inWord cur.before != inWord cur.after) != negated)

/-- What a group remembers: the cursor where it began and the place where it ended. -/
structure Capture where
  start : Cursor
  stop : Nat
  deriving DecidableEq, Repr

/-- The text that a group remembers. -/
def Capture.text (c : Capture) : List Char := c.start.after.take (c.stop - c.start.pos)

/-- Where the matcher stands and what the groups remember, the latest first. -/
structure State where
  cursor : Cursor
  captures : List (Nat × Capture) := []
  deriving DecidableEq, Repr

/-- What a group remembers, if it has taken part. -/
def State.capture? (st : State) (index : Nat) : Option Capture := st.captures.lookup index

/-- The state after a group that began at `start` ends here. -/
def State.close (st : State) (index : Nat) (start : Cursor) : State :=
  { st with captures := (index, ⟨start, st.cursor.pos⟩) :: st.captures }

/-! ## Runs of characters -/

/-- The rest of the work after part of a pattern. -/
abbrev Rest := State → Option State

/-- The cursors reached by moving over characters of a set, the farthest first, at most `limit`
characters away from the first one. -/
def stopsGo (s : CharSet) (limit : Option Nat) (before : List Char) (pos : Nat)
    (passed : List Cursor) : List Char → List Cursor
  | [] => ⟨before, [], pos⟩ :: passed
  | c :: after =>
    let here : Cursor := ⟨before, c :: after, pos⟩
    if limit == some 0 || !s.accepts c then here :: passed
    else stopsGo s (limit.map (· - 1)) (c :: before) (pos + 1) (here :: passed) after

/-- Gives the cursors of a list that are not before `least` to the rest, in order. -/
def tryStops (least : Nat) (st : State) (k : Rest) : List Cursor → Option State
  | [] => none
  | cur :: stops =>
    if cur.pos < least then none
    else
      match k { st with cursor := cur } with
      | some done => some done
      | none => tryStops least st k stops

/-- Moves over characters of a set one by one, giving each place from the `lo`-th character on to
the rest. -/
def runReluctant (s : CharSet) (st : State) (k : Rest) (before : List Char) (pos : Nat) :
    (lo : Nat) → (limit : Option Nat) → List Char → Option State
  | 0, limit, after =>
    match k { st with cursor := ⟨before, after, pos⟩ } with
    | some done => some done
    | none =>
      match after with
      | [] => none
      | c :: after =>
        if limit == some 0 || !s.accepts c then none
        else runReluctant s st k (c :: before) (pos + 1) 0 (limit.map (· - 1)) after
  | _ + 1, _, [] => none
  | lo + 1, limit, c :: after =>
    if limit == some 0 || !s.accepts c then none
    else runReluctant s st k (c :: before) (pos + 1) lo (limit.map (· - 1)) after

/-- A run of characters of a set. -/
def runSpan (s : CharSet) (lo : Nat) (hi : Option Nat) (mode : Mode) (st : State) (k : Rest) :
    Option State :=
  let cur := st.cursor
  match mode with
  | .reluctant => runReluctant s st k cur.before cur.pos lo hi cur.after
  | .greedy =>
    tryStops (cur.pos + lo) st k (stopsGo s hi cur.before cur.pos [] cur.after)
  | .possessive =>
    tryStops (cur.pos + lo) st k ((stopsGo s hi cur.before cur.pos [] cur.after).take 1)

/-! ## Rounds of a pattern -/

/-- A bound on the number of rounds of a repetition. -/
def roundBound (lo : Nat) (hi : Option Nat) (st : State) : Nat :=
  match hi with
  | some h => h + 1
  | none => lo + st.cursor.after.length + 2

/-- Whether another round may be tried after `count` rounds: the count is below the limit and the
round before, if it was not a required one, has moved the cursor. -/
def mayRepeat (hi : Option Nat) (count : Nat) (last : Option Nat) (st : State) : Bool :=
  hi.all (count < ·) && last != some st.cursor.pos

/-- Rounds of a body, as many as possible first. -/
def loopGreedy (body : State → Rest → Option State) (lo : Nat) (hi : Option Nat) (k : Rest) :
    Nat → (count : Nat) → (last : Option Nat) → State → Option State
  | 0, _, _, _ => none
  | bound + 1, count, last, st =>
    if count < lo then body st (loopGreedy body lo hi k bound (count + 1) last)
    else if mayRepeat hi count last st then
      match body st (loopGreedy body lo hi k bound (count + 1) (some st.cursor.pos)) with
      | some done => some done
      | none => k st
    else k st

/-- Rounds of a body, as few as possible first. -/
def loopReluctant (body : State → Rest → Option State) (lo : Nat) (hi : Option Nat) (k : Rest) :
    Nat → (count : Nat) → (last : Option Nat) → State → Option State
  | 0, _, _, _ => none
  | bound + 1, count, last, st =>
    if count < lo then body st (loopReluctant body lo hi k bound (count + 1) last)
    else
      match k st with
      | some done => some done
      | none =>
        if mayRepeat hi count last st then
          body st (loopReluctant body lo hi k bound (count + 1) (some st.cursor.pos))
        else none

/-- Rounds of a body, each taken at its first match, until one fails. -/
def loopPossessive (body : State → Option State) (lo : Nat) (hi : Option Nat) :
    Nat → (count : Nat) → (last : Option Nat) → State → Option State
  | 0, _, _, _ => none
  | bound + 1, count, last, st =>
    if count < lo then (body st).bind (loopPossessive body lo hi bound (count + 1) last)
    else if mayRepeat hi count last st then
      match body st with
      | some st' => loopPossessive body lo hi bound (count + 1) (some st.cursor.pos) st'
      | none => some st
    else some st

/-- Rounds of a pattern whose own matcher is `body`. -/
def runLoop (body : State → Rest → Option State) (lo : Nat) (hi : Option Nat) (mode : Mode)
    (st : State) (k : Rest) : Option State :=
  let bound := roundBound lo hi st
  match mode with
  | .greedy => loopGreedy body lo hi k bound 0 none st
  | .reluctant => loopReluctant body lo hi k bound 0 none st
  | .possessive => (loopPossessive (fun s => body s some) lo hi bound 0 none st).bind k

/-! ## The matcher -/

/-- Tries the matches of a pattern from a state, in order of preference, and gives each to the rest
of the work until one succeeds. -/
def run : Regex → State → Rest → Option State
  | .empty, st, k => k st
  | .one s, st, k => (st.cursor.accept? s).bind fun cur => k { st with cursor := cur }
  | .span s lo hi mode, st, k => runSpan s lo hi mode st k
  | .seq a b, st, k => run a st fun st' => run b st' k
  | .alt a b, st, k =>
    match run a st k with
    | some done => some done
    | none => run b st k
  | .group i r, st, k => run r st fun st' => k (st'.close i st.cursor)
  | .recall i rule, st, k =>
    (st.capture? i).bind fun c =>
      (st.cursor.readText? rule c.text).bind fun cur => k { st with cursor := cur }
  | .loop r lo hi mode, st, k => runLoop (run r) lo hi mode st k
  | .atomic r, st, k => (run r st some).bind k
  | .look back positive r, st, k =>
    let seen := (st.cursor.back? (back.getD 0)).bind fun cur => run r { st with cursor := cur } some
    match positive, seen with
    | true, some st' => k { st' with cursor := st.cursor }
    | true, none => none
    | false, some _ => none
    | false, none => k st
  | .branch i yes no, st, k =>
    if (st.capture? i).isSome then run yes st k else run no st k
  | .anchor a, st, k => if a.holds st.cursor then k st else none

end ServiceKeys.Regex
