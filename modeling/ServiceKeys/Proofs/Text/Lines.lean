import ServiceKeys.Proofs.Text.Cut

/-!
# Lines and places

How offsets, lines and places of a text go together.  A place is found by reading a text up to an
offset: a line feed leads to the start of the next line, any other character to the next column
(`positionOf_succ`).  So places grow strictly with offsets (`positionOf_lt`), and a column of a line
is the place of the offset that many characters behind the start of the line (`positionOf_line`).
-/

namespace ServiceKeys.Text

/-! ## The order of places -/

namespace Position

/-- One place stands before another: on a line above, or further left on the same line. -/
def Before (a b : Position) : Prop := a.line < b.line ∨ (a.line = b.line ∧ a.column < b.column)

theorem Before.trans {a b c : Position} (hab : a.Before b) (hbc : b.Before c) : a.Before c := by
  unfold Before at *
  omega

theorem Before.irrefl (a : Position) : ¬ a.Before a := by
  unfold Before
  omega

theorem before_or_eq_or_before (a b : Position) : a.Before b ∨ a = b ∨ b.Before a := by
  rcases a with ⟨line, column⟩
  rcases b with ⟨line', column'⟩
  simp only [Before, mk.injEq]
  omega

/-- A place is inside of a text: its line is there, and its column is not behind the end of it. -/
def Inside (place : Position) (text : List Char) : Prop :=
  ∃ line, (lines text)[place.line]? = some line ∧ place.column ≤ line.length

theorem inside_start (text : List Char) : Inside ⟨0, 0⟩ text := by
  obtain ⟨line, rest, hlines⟩ := List.exists_cons_of_ne_nil (splitBy_ne_nil (· == '\n') text)
  exact ⟨line, congrArg (·[0]?) hlines, Nat.zero_le _⟩

end Position

/-! ## From offsets to places -/

/-- Reading one more character: a line feed starts the next line, any other goes one to the right. -/
theorem positionOf_succ {cs : List Char} {i : Nat} (h : i < cs.length) :
    positionOf cs (i + 1) =
      if cs[i] = '\n' then ⟨(positionOf cs i).line + 1, 0⟩
      else ⟨(positionOf cs i).line, (positionOf cs i).column + 1⟩ := by
  have hread : cs.take (i + 1) = cs.take i ++ [cs[i]] := List.take_succ_eq_append_getElem h
  have hlast : (cs.take i ++ [cs[i]]).reverse = cs[i] :: (cs.take i).reverse := by simp
  simp only [positionOf, hread, hlast, List.count_append, List.count_singleton]
  by_cases hc : cs[i] = '\n'
  · simp [hc]
  · simp [hc]

theorem positionOf_before_succ {cs : List Char} {i : Nat} (h : i < cs.length) :
    (positionOf cs i).Before (positionOf cs (i + 1)) := by
  rw [positionOf_succ h, Position.Before]
  split <;> simp

/-- **Places grow with offsets.** -/
theorem positionOf_lt {cs : List Char} {i j : Nat} (hij : i < j) (hj : j ≤ cs.length) :
    (positionOf cs i).Before (positionOf cs j) := by
  induction j with
  | zero => omega
  | succ j ih =>
      have hstep := positionOf_before_succ (show j < cs.length by omega)
      rcases Nat.lt_succ_iff_lt_or_eq.1 hij with hlt | rfl
      · exact (ih hlt (by omega)).trans hstep
      · exact hstep

theorem lt_of_positionOf_before {cs : List Char} {i j : Nat} (hi : i ≤ cs.length)
    (h : (positionOf cs i).Before (positionOf cs j)) : i < j := by
  by_contra hlt
  rcases Nat.lt_or_eq_of_le (Nat.le_of_not_lt hlt) with hji | rfl
  · exact Position.Before.irrefl _ (h.trans (positionOf_lt hji hi))
  · exact Position.Before.irrefl _ h

theorem positionOf_inj {cs : List Char} {i j : Nat} (hi : i ≤ cs.length) (hj : j ≤ cs.length)
    (h : positionOf cs i = positionOf cs j) : i = j := by
  rcases Nat.lt_trichotomy i j with hlt | heq | hlt
  · exact absurd (h ▸ positionOf_lt hlt hj) (Position.Before.irrefl _)
  · exact heq
  · exact absurd (h ▸ positionOf_lt hlt hi) (Position.Before.irrefl _)

/-! ## From lines to offsets -/

/-- A text up to the start of a line: nothing, or something that ends in a line feed. -/
def WholeLines (cs : List Char) : Prop := ∀ c ∈ cs.getLast?, c = '\n'

/-- The place of an offset, said without a computation: whole lines stand before it, as many as the
number of its line says, and then a row as long as its column. -/
def IsPlace (cs : List Char) (offset : Nat) (place : Position) : Prop :=
  ∃ above row, cs.take offset = above ++ row ∧ WholeLines above ∧ '\n' ∉ row ∧
    place = ⟨above.count '\n', row.length⟩

theorem isPlace_positionOf (cs : List Char) (offset : Nat) :
    IsPlace cs offset (positionOf cs offset) := by
  have hcut := dropEndWhile_append (· != '\n') (cs.take offset)
  have hrow : '\n' ∉ ((cs.take offset).reverse.takeWhile (· != '\n')).reverse := by
    intro h
    exact absurd (List.mem_takeWhile_imp (List.mem_reverse.1 h)) (by decide)
  refine ⟨_, _, hcut.symm, ?_, hrow, ?_⟩
  · intro c hc
    simpa using not_of_mem_getLast?_dropEndWhile hc
  · have hcount := congrArg (List.count '\n') hcut
    rw [List.count_append, List.count_eq_zero.2 hrow, Nat.add_zero] at hcount
    simp only [positionOf, hcount, List.length_reverse]

/-- A text that goes on from a text without separators goes on from its first piece. -/
theorem splitOn_append_left {sep : Char} {xs ys piece : List Char} {pieces : List (List Char)}
    (h : sep ∉ xs) (hys : splitOn sep ys = piece :: pieces) :
    splitOn sep (xs ++ ys) = (xs ++ piece) :: pieces := by
  induction xs with
  | nil => exact hys
  | cons c xs ih =>
      rw [List.mem_cons, not_or] at h
      have hrest : splitBy (· == sep) (xs ++ ys) = (xs ++ piece) :: pieces := ih h.2
      rw [splitOn, List.cons_append, splitBy, hrest, beq_eq_false_iff_ne.2 (Ne.symm h.1)]
      rfl

theorem splitOn_of_notMem {sep : Char} {cs : List Char} (h : sep ∉ cs) : splitOn sep cs = [cs] := by
  have hall := splitOn_append_left h (show splitOn sep [] = [[]] from rfl)
  rwa [List.append_nil] at hall

theorem splitOn_append {sep : Char} {cs rest : List Char} (h : sep ∉ cs) :
    splitOn sep (cs ++ sep :: rest) = cs :: splitOn sep rest := by
  have hstart : splitOn sep (sep :: rest) = [] :: splitOn sep rest := by
    rw [splitOn, splitBy, beq_self_eq_true]
    rfl
  have hall := splitOn_append_left h hstart
  rwa [List.append_nil] at hall

/-- Whole lines come first, and then the line that ends the text or is ended by a line feed. -/
theorem lines_append {above : List (List Char)} {line following : List Char}
    (habove : ∀ row ∈ above, '\n' ∉ row) (hline : '\n' ∉ line)
    (hfollowing : ∀ c ∈ following.head?, c = '\n') :
    ∃ below, lines (above.flatMap (· ++ ['\n']) ++ (line ++ following)) = above ++ line :: below := by
  induction above with
  | nil =>
      cases following with
      | nil =>
          refine ⟨[], ?_⟩
          rw [List.flatMap_nil, List.nil_append, List.append_nil, List.nil_append]
          exact splitOn_of_notMem hline
      | cons c following =>
          obtain rfl : c = '\n' := hfollowing c rfl
          exact ⟨lines following, splitOn_append hline⟩
  | cons row above ih =>
      obtain ⟨hrow, habove⟩ := List.forall_mem_cons.1 habove
      obtain ⟨below, hbelow⟩ := ih habove
      refine ⟨below, ?_⟩
      rw [List.flatMap_cons, List.append_assoc, List.append_assoc, List.singleton_append,
        List.cons_append, ← hbelow]
      exact splitOn_append hrow

/-- Pieces that are joined with a separator that none of them has are the pieces between it. -/
theorem splitOn_joinWith {sep : Char} {pieces : List (List Char)} (hne : pieces ≠ [])
    (h : ∀ piece ∈ pieces, sep ∉ piece) : splitOn sep (joinWith [sep] pieces) = pieces := by
  induction pieces with
  | nil => exact absurd rfl hne
  | cons piece pieces ih =>
      have hpiece := h piece List.mem_cons_self
      cases pieces with
      | nil => exact splitOn_of_notMem hpiece
      | cons next pieces =>
          have hrest := ih (by simp) fun p hp => h p (List.mem_cons_of_mem _ hp)
          rw [joinWith, List.append_assoc, List.singleton_append, splitOn_append hpiece, hrest]
          simp

theorem notMem_of_mem_splitOn {sep : Char} {cs piece : List Char} (h : piece ∈ splitOn sep cs) :
    sep ∉ piece := by
  rw [splitOn] at h
  induction cs generalizing piece with
  | nil =>
      obtain rfl : piece = [] := by simpa [splitBy] using h
      simp
  | cons c cs ih =>
      rw [splitBy] at h
      split at h
      · rcases List.mem_cons.1 h with rfl | h
        · simp
        · exact ih h
      · rename_i hsplit
        exact absurd hsplit (splitBy_ne_nil _ _)
      · rename_i first pieces hc hsplit
        rw [hsplit] at ih
        have hne : sep ≠ c := by
          rintro rfl
          simp at hc
        rcases List.mem_cons.1 h with rfl | h
        · have hfirst := ih List.mem_cons_self
          simp [hne, hfirst]
        · exact ih (List.mem_cons_of_mem _ h)

theorem joinWith_cut {pieces : List (List Char)} {n : Nat} {line : List Char}
    (hpieces : ∀ piece ∈ pieces, '\n' ∉ piece) (h : pieces[n]? = some line) :
    ∃ above below, joinWith ['\n'] pieces = above ++ (line ++ below) ∧ WholeLines above ∧
      above.count '\n' = n := by
  have hwhole : WholeLines [] := by simp [WholeLines]
  induction pieces generalizing n with
  | nil => simp at h
  | cons piece pieces ih =>
      cases pieces with
      | nil =>
          obtain ⟨rfl, rfl⟩ : n = 0 ∧ piece = line := by
            cases n with
            | zero => simpa using h
            | succ n => simp at h
          exact ⟨[], [], by simp [joinWith], hwhole, rfl⟩
      | cons next pieces =>
          cases n with
          | zero =>
              obtain rfl : piece = line := by simpa using h
              exact ⟨[], '\n' :: joinWith ['\n'] (next :: pieces), by simp [joinWith], hwhole, rfl⟩
          | succ n =>
              obtain ⟨above, below, hcut, habove, hcount⟩ :=
                ih (fun p hp => hpieces p (List.mem_cons_of_mem _ hp)) (by simpa using h)
              have hfirst := List.count_eq_zero.2 (hpieces piece List.mem_cons_self)
              refine ⟨piece ++ '\n' :: above, below, ?_, ?_, ?_⟩
              · simp [joinWith, hcut]
              · intro c hc
                rw [List.getLast?_append_of_ne_nil _ (by simp), List.getLast?_cons] at hc
                cases hlast : above.getLast? with
                | none => simpa [hlast, eq_comm] using hc
                | some d =>
                    obtain rfl : d = c := by simpa [hlast] using hc
                    exact habove d hlast
              · simp [hfirst, hcount]

/-- A line of a text stands behind whole lines, as many as its number says. -/
theorem lines_cut {cs line : List Char} {n : Nat} (h : (lines cs)[n]? = some line) :
    ∃ above below, cs = above ++ (line ++ below) ∧ WholeLines above ∧ above.count '\n' = n ∧
      '\n' ∉ line := by
  have hpieces : ∀ piece ∈ lines cs, '\n' ∉ piece := fun _ => notMem_of_mem_splitOn
  obtain ⟨above, below, hcut, habove, hcount⟩ := joinWith_cut hpieces h
  refine ⟨above, below, ?_, habove, hcount, hpieces line (List.mem_of_getElem? h)⟩
  rw [← hcut]
  exact (joinWith_splitOn '\n' cs).symm

/-- **The columns of a line** are the places of the offsets behind its start. -/
theorem positionOf_line {above line below : List Char} (habove : WholeLines above)
    (hline : '\n' ∉ line) {i : Nat} (hi : i ≤ line.length) :
    positionOf (above ++ (line ++ below)) (above.length + i) = ⟨above.count '\n', i⟩ := by
  have hread : (above ++ (line ++ below)).take (above.length + i) = above ++ line.take i := by
    rw [List.take_length_add_append, List.take_append_of_le_length hi]
  have hplain : '\n' ∉ line.take i := fun h => hline (List.mem_of_mem_take h)
  have hrow : ∀ c ∈ (line.take i).reverse, (c != '\n') = true := fun c hc =>
    bne_iff_ne.2 fun heq => hplain (heq ▸ List.mem_reverse.1 hc)
  have hstop : above.reverse.takeWhile (· != '\n') = [] := by
    cases hrev : above.reverse with
    | nil => rfl
    | cons c rest =>
        obtain rfl : c = '\n' := habove c (by simp [← List.head?_reverse, hrev])
        rfl
  simp only [positionOf, hread, List.count_append, List.count_eq_zero.2 hplain, Nat.add_zero,
    List.reverse_append, List.takeWhile_append_of_pos hrow, hstop, List.append_nil,
    List.length_reverse, List.length_take, Nat.min_eq_left hi]

end ServiceKeys.Text
