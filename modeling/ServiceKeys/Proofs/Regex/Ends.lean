import ServiceKeys.Regex.Matcher
import Mathlib.Data.List.Basic

/-!
# The ends of a pattern

The matcher is written in continuation style, so what it returns hangs on the rest of the work.
Here the choices are laid out instead: `Regex.ends r st` is the list of all states that a pattern can
lead to from `st`, in the order in which the matcher tries them.  The main statement is `run_eq`: the
matcher gives the ends to the rest, one after the other, until one is taken.  Nothing about the
matcher has to be unfolded after that.
-/

namespace ServiceKeys.Regex

/-- The state at another cursor, with the same groups remembered. -/
def State.moved (st : State) (cur : Cursor) : State := { st with cursor := cur }

@[simp] theorem State.moved_cursor (st : State) (cur : Cursor) : (st.moved cur).cursor = cur := rfl

@[simp] theorem State.moved_captures (st : State) (cur : Cursor) :
    (st.moved cur).captures = st.captures := rfl

/-! ## Trying the members of a list -/

theorem findSome?_flatMap {α β γ : Type} (f : α → List β) (k : β → Option γ) (xs : List α) :
    (xs.flatMap f).findSome? k = xs.findSome? fun x => (f x).findSome? k := by
  induction xs with
  | nil => rfl
  | cons x xs ih =>
      rw [List.flatMap_cons, List.findSome?_append, ih, List.findSome?_cons]
      cases (f x).findSome? k <;> rfl

theorem findSome?_some {α : Type} (xs : List α) : xs.findSome? some = xs.head? := by
  cases xs <;> rfl

/-! ## Runs of characters -/

/-- The cursors of a reluctant run of characters, the nearest first. -/
def reluctantStops (s : CharSet) (before : List Char) (pos : Nat) :
    (lo : Nat) → (limit : Option Nat) → List Char → List Cursor
  | 0, _, [] => [⟨before, [], pos⟩]
  | 0, limit, c :: after =>
    ⟨before, c :: after, pos⟩ ::
      if limit == some 0 || !s.accepts c then []
      else reluctantStops s (c :: before) (pos + 1) 0 (limit.map (· - 1)) after
  | _ + 1, _, [] => []
  | lo + 1, limit, c :: after =>
    if limit == some 0 || !s.accepts c then []
    else reluctantStops s (c :: before) (pos + 1) lo (limit.map (· - 1)) after

/-- The cursors of a list up to the first one before `least`. -/
def upTo (least : Nat) (stops : List Cursor) : List Cursor :=
  stops.takeWhile fun cur => !decide (cur.pos < least)

/-- The cursors at which a run of characters can end, in order of preference. -/
def spanStops (s : CharSet) (lo : Nat) (hi : Option Nat) (mode : Mode) (cur : Cursor) :
    List Cursor :=
  match mode with
  | .reluctant => reluctantStops s cur.before cur.pos lo hi cur.after
  | .greedy => upTo (cur.pos + lo) (stopsGo s hi cur.before cur.pos [] cur.after)
  | .possessive => upTo (cur.pos + lo) ((stopsGo s hi cur.before cur.pos [] cur.after).take 1)

theorem tryStops_eq (least : Nat) (st : State) (k : Rest) (stops : List Cursor) :
    tryStops least st k stops = (upTo least stops).findSome? fun cur => k (st.moved cur) := by
  induction stops with
  | nil => rfl
  | cons cur stops ih =>
      rw [tryStops, ih, upTo, upTo, List.takeWhile_cons]
      by_cases h : cur.pos < least
      · simp [h]
      · simp only [h, if_false, decide_false, Bool.not_false, if_true, List.findSome?_cons]
        rw [State.moved]
        cases k { st with cursor := cur } <;> rfl

theorem runReluctant_eq (s : CharSet) (st : State) (k : Rest) (before : List Char) (pos lo : Nat)
    (limit : Option Nat) (after : List Char) :
    runReluctant s st k before pos lo limit after =
      (reluctantStops s before pos lo limit after).findSome? fun cur => k (st.moved cur) := by
  -- the cases are those of the definition: what is left of the text, then of the lower bound
  induction after generalizing before pos lo limit with
  | nil =>
      cases lo with
      | zero =>
          rw [runReluctant, reluctantStops, List.findSome?_singleton, State.moved]
          cases k { st with cursor := ⟨before, [], pos⟩ } <;> rfl
      | succ lo => rfl
  | cons c after ih =>
      cases lo with
      | zero =>
          rw [runReluctant, reluctantStops, List.findSome?_cons, State.moved, ih]
          cases k { st with cursor := ⟨before, c :: after, pos⟩ } with
          | some done => rfl
          | none =>
              by_cases h : (limit == some 0 || !s.accepts c) = true
              · simp only [h, if_true, List.findSome?_nil]
              · simp only [h, Bool.false_eq_true, if_false]
      | succ lo =>
          rw [runReluctant, reluctantStops]
          by_cases h : (limit == some 0 || !s.accepts c) = true
          · simp only [h, if_true, List.findSome?_nil]
          · simp only [h, Bool.false_eq_true, if_false, ih]

theorem runSpan_eq (s : CharSet) (lo : Nat) (hi : Option Nat) (mode : Mode) (st : State)
    (k : Rest) :
    runSpan s lo hi mode st k =
      (spanStops s lo hi mode st.cursor).findSome? fun cur => k (st.moved cur) := by
  cases mode with
  | greedy => exact tryStops_eq _ st k _
  | reluctant => exact runReluctant_eq s st k _ _ lo hi _
  | possessive => exact tryStops_eq _ st k _

/-! ## Rounds of a pattern -/

/-- The ends of rounds of a body, as many rounds as possible first. -/
def greedyEnds (body : State → List State) (lo : Nat) (hi : Option Nat) :
    Nat → (count : Nat) → (last : Option Nat) → State → List State
  | 0, _, _, _ => []
  | bound + 1, count, last, st =>
    if count < lo then (body st).flatMap (greedyEnds body lo hi bound (count + 1) last)
    else if mayRepeat hi count last st then
      (body st).flatMap (greedyEnds body lo hi bound (count + 1) (some st.cursor.pos)) ++ [st]
    else [st]

/-- The ends of rounds of a body, as few rounds as possible first. -/
def reluctantEnds (body : State → List State) (lo : Nat) (hi : Option Nat) :
    Nat → (count : Nat) → (last : Option Nat) → State → List State
  | 0, _, _, _ => []
  | bound + 1, count, last, st =>
    if count < lo then (body st).flatMap (reluctantEnds body lo hi bound (count + 1) last)
    else if mayRepeat hi count last st then
      st :: (body st).flatMap (reluctantEnds body lo hi bound (count + 1) (some st.cursor.pos))
    else [st]

/-- The ends of rounds of a body. -/
def loopEnds (body : State → List State) (lo : Nat) (hi : Option Nat) (mode : Mode) (st : State) :
    List State :=
  let bound := roundBound lo hi st
  match mode with
  | .greedy => greedyEnds body lo hi bound 0 none st
  | .reluctant => reluctantEnds body lo hi bound 0 none st
  | .possessive => (loopPossessive (fun s => (body s).head?) lo hi bound 0 none st).toList

section

variable {run : State → Rest → Option State} {body : State → List State}

theorem loopGreedy_eq (h : ∀ st k, run st k = (body st).findSome? k) (lo : Nat) (hi : Option Nat)
    (k : Rest) (bound count : Nat) (last : Option Nat) (st : State) :
    loopGreedy run lo hi k bound count last st =
      (greedyEnds body lo hi bound count last st).findSome? k := by
  induction bound generalizing count last st with
  | zero => rfl
  | succ bound ih =>
      rw [loopGreedy, greedyEnds]
      split
      · rw [h, findSome?_flatMap]
        exact congrArg (List.findSome? · _) (funext fun st' => ih _ _ st')
      · split
        · have hloop := funext (ih (count + 1) (some st.cursor.pos))
          rw [List.findSome?_append, findSome?_flatMap, h, hloop, List.findSome?_singleton]
          cases (body st).findSome? fun st' =>
            (greedyEnds body lo hi bound (count + 1) (some st.cursor.pos) st').findSome? k <;> rfl
        · simp

theorem loopReluctant_eq (h : ∀ st k, run st k = (body st).findSome? k) (lo : Nat)
    (hi : Option Nat) (k : Rest) (bound count : Nat) (last : Option Nat) (st : State) :
    loopReluctant run lo hi k bound count last st =
      (reluctantEnds body lo hi bound count last st).findSome? k := by
  induction bound generalizing count last st with
  | zero => rfl
  | succ bound ih =>
      have hloop := funext (ih (count + 1) (some st.cursor.pos))
      rw [loopReluctant, reluctantEnds]
      by_cases hc : count < lo
      · rw [if_pos hc, if_pos hc, h, findSome?_flatMap]
        exact congrArg (List.findSome? · _) (funext fun st' => ih _ _ st')
      · rw [if_neg hc, if_neg hc]
        by_cases hr : mayRepeat hi count last st = true
        · rw [if_pos hr, if_pos hr, List.findSome?_cons, findSome?_flatMap, h, hloop]
          cases k st <;> rfl
        · rw [if_neg hr, if_neg hr, List.findSome?_singleton]
          cases k st <;> rfl

theorem runLoop_eq (h : ∀ st k, run st k = (body st).findSome? k) (lo : Nat) (hi : Option Nat)
    (mode : Mode) (st : State) (k : Rest) :
    runLoop run lo hi mode st k = (loopEnds body lo hi mode st).findSome? k := by
  cases mode with
  | greedy => exact loopGreedy_eq h lo hi k _ 0 none st
  | reluctant => exact loopReluctant_eq h lo hi k _ 0 none st
  | possessive =>
      have hbody : (fun s => run s some) = fun s => (body s).head? := by
        funext s
        rw [h, findSome?_some]
      show (loopPossessive (fun s => run s some) lo hi _ 0 none st).bind k = _
      rw [hbody, loopEnds]
      cases loopPossessive (fun s => (body s).head?) lo hi (roundBound lo hi st) 0 none st <;>
        simp

end

/-! ## All ends -/

/-- The states that a pattern can lead to, in order of preference. -/
def ends : Regex → State → List State
  | .empty, st => [st]
  | .one s, st => (st.cursor.accept? s).toList.map st.moved
  | .span s lo hi mode, st => (spanStops s lo hi mode st.cursor).map st.moved
  | .seq a b, st => (ends a st).flatMap (ends b)
  | .alt a b, st => ends a st ++ ends b st
  | .group i r, st => (ends r st).map fun st' => st'.close i st.cursor
  | .recall i rule, st =>
    ((st.capture? i).bind fun c => st.cursor.readText? rule c.text).toList.map st.moved
  | .loop r lo hi mode, st => loopEnds (ends r) lo hi mode st
  | .atomic r, st => (ends r st).head?.toList
  | .look back positive r, st =>
    let seen := (st.cursor.back? (back.getD 0)).bind fun cur => (ends r (st.moved cur)).head?
    match positive, seen with
    | true, some st' => [st'.moved st.cursor]
    | true, none => []
    | false, some _ => []
    | false, none => [st]
  | .branch i yes no, st => if (st.capture? i).isSome then ends yes st else ends no st
  | .anchor a, st => if a.holds st.cursor then [st] else []

/-- **The matcher tries the ends in order** and gives each to the rest of the work until one is
taken. -/
theorem run_eq (r : Regex) (st : State) (k : Rest) : run r st k = (ends r st).findSome? k := by
  induction r generalizing st k with
  | empty => simp [run, ends]
  | one s =>
      rw [run, ends]
      cases st.cursor.accept? s <;> simp [State.moved]
  | span s lo hi mode =>
      rw [run, ends, runSpan_eq, List.findSome?_map]
      rfl
  | seq a b iha ihb =>
      rw [run, ends, iha, findSome?_flatMap]
      exact congrArg (List.findSome? · _) (funext fun st' => ihb st' k)
  | alt a b iha ihb =>
      rw [run, ends, iha, ihb, List.findSome?_append]
      cases (ends a st).findSome? k <;> rfl
  | group i r ih =>
      rw [run, ends, ih, List.findSome?_map]
      rfl
  | «recall» i rule =>
      rw [run, ends]
      cases st.capture? i with
      | none => rfl
      | some c =>
          simp only [Option.bind_some]
          cases st.cursor.readText? rule c.text <;> simp [State.moved]
  | loop r lo hi mode ih =>
      rw [run, ends]
      exact runLoop_eq ih lo hi mode st k
  | atomic r ih =>
      rw [run, ends, ih, findSome?_some]
      cases (ends r st).head? <;> simp
  | look back positive r ih =>
      -- only whether the pattern has an end counts, so both sides ask for the first one
      have hseen : ((st.cursor.back? (back.getD 0)).bind fun cur =>
            run r { st with cursor := cur } some) =
          (st.cursor.back? (back.getD 0)).bind fun cur => (ends r (st.moved cur)).head? := by
        simp only [ih, findSome?_some, State.moved]
      simp only [run, ends, hseen]
      cases positive <;>
        cases (st.cursor.back? (back.getD 0)).bind fun cur => (ends r (st.moved cur)).head? <;>
        simp [State.moved]
  | branch i yes no ihy ihn =>
      rw [run, ends]
      split
      · exact ihy st k
      · exact ihn st k
  | anchor a =>
      rw [run, ends]
      split <;> simp

end ServiceKeys.Regex
