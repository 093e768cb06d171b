import ServiceKeys.Proofs.Regex.Search

/-!
# Searching a text stretch by stretch

What a search reports in a text that is put together from pieces is put together from what it reports
in each of them, as long as no match goes over the end of a piece.  `Reports r text i j ms` says this
of the stretch of a text between two offsets: the search that begins at the first reports `ms` and then
goes on as one that begins at the second.  Main statement: `findAll_eq_of_reports`.
-/

namespace ServiceKeys.Regex

variable {r : Regex} {text : List Char} {i j k : Nat} {m : Match} {ms ms' : List Match}

/-- The matches that a search reports from an offset on. -/
def matchesFrom (r : Regex) (text : List Char) (i : Nat) : List Match :=
  findAllGo r (text.length + 1) false (.inside text i)

/-- No match begins between two offsets. -/
def NoneBetween (r : Regex) (text : List Char) (i j : Nat) : Prop :=
  ∀ l, i ≤ l → l < j → matchInside r text l = none

/-- The search reports matches between two offsets. -/
structure Reports (r : Regex) (text : List Char) (i j : Nat) (ms : List Match) : Prop where
  le : i ≤ j
  le_length : j ≤ text.length
  matchesFrom_eq : matchesFrom r text i = ms ++ matchesFrom r text j

/-! ## The first match -/

/-- A bound on the number of matches that is not reached does not matter. -/
theorem findAllGo_eq_of_bound (hr : Advances r) {bound bound' : Nat} (hi : i ≤ text.length)
    (h : text.length < bound + i) (h' : text.length < bound' + i) :
    findAllGo r bound false (.inside text i) = findAllGo r bound' false (.inside text i) := by
  induction bound generalizing bound' i with
  | zero => omega
  | succ bound ih =>
      obtain ⟨bound', rfl⟩ : ∃ b, bound' = b + 1 := ⟨bound' - 1, by omega⟩
      -- both rounds look at the same places, and the first match decides
      rcases findAllGo_succ hr bound hi with ⟨hnil, hnone⟩ | ⟨l, m, hil, hl, hm, hfirst, hgo⟩
      · rcases findAllGo_succ hr bound' hi with ⟨hnil', -⟩ | ⟨l, m, hil, hl, hm, -, -⟩
        · rw [hnil, hnil']
        · simp [hnone l hil hl] at hm
      · rcases findAllGo_succ hr bound' hi with ⟨-, hnone⟩ | ⟨l', m', hil', hl', hm', hfirst', hgo'⟩
        · simp [hnone l hil hl] at hm
        · obtain rfl : l = l' := by
            rcases Nat.lt_trichotomy l l' with hlt | heq | hlt
            · simp [hfirst' l hil hlt] at hm
            · exact heq
            · simp [hfirst l' hil' hlt] at hm'
          obtain rfl : m = m' := Option.some.inj (hm.symm.trans hm')
          have hstop := first_lt_stop hr hm
          rw [hgo, hgo']
          exact congrArg (m :: ·) (ih (stop_le_length hl hm) (by omega) (by omega))

theorem matchesFrom_nil (hr : Advances r) (hi : i ≤ text.length)
    (hnone : NoneBetween r text i (text.length + 1)) : matchesFrom r text i = [] := by
  rcases findAllGo_succ hr text.length hi with ⟨hnil, -⟩ | ⟨l, m, hil, hl, hm, -⟩
  · exact hnil
  · simp [hnone l hil (Nat.lt_succ_of_le hl)] at hm

theorem findAll_eq_matchesFrom (hr : Advances r) : findAll r text = matchesFrom r text 0 := by
  rw [findAll, Cursor.start_eq, matchesFrom]
  exact findAllGo_eq_of_bound hr (Nat.zero_le _) (by omega) (by omega)

/-- The first match that is reported from an offset on begins there or behind it. -/
theorem le_first_of_mem_head? (hr : Advances r) (hi : i ≤ text.length)
    (h : m ∈ (matchesFrom r text i).head?) : i ≤ m.first ∧ m.first < m.stop := by
  rcases findAllGo_succ hr text.length hi with ⟨hnil, -⟩ | ⟨l, m', hil, -, hm', -, hgo⟩
  · rw [matchesFrom, hnil] at h
    simp at h
  · rw [matchesFrom, hgo] at h
    obtain rfl : m' = m := by simpa using h
    rw [(of_matchInside hm').2.1]
    exact ⟨hil, first_lt_stop hr hm'⟩

/-- Nothing is reported at the end of a text. -/
theorem matchesFrom_length (hr : Advances r) : matchesFrom r text text.length = [] := by
  refine matchesFrom_nil hr le_rfl fun l hl hlt => ?_
  obtain rfl : l = text.length := by omega
  cases hm : matchInside r text text.length with
  | none => rfl
  | some m => exact absurd (lt_length_of_matchInside hr hm) (Nat.lt_irrefl _)

/-- The first match from an offset on is reported first. -/
theorem matchesFrom_cons (hr : Advances r) (hij : i ≤ j) (hj : j ≤ text.length)
    (hnone : NoneBetween r text i j) (hm : matchInside r text j = some m) :
    matchesFrom r text i = m :: matchesFrom r text m.stop := by
  rcases findAllGo_succ hr text.length (hij.trans hj) with
    ⟨-, hnone'⟩ | ⟨l, m', hil, hl, hm', hfirst, hgo⟩
  · simp [hnone' j hij hj] at hm
  · obtain rfl : l = j := by
      rcases Nat.lt_trichotomy l j with hlt | heq | hlt
      · simp [hnone l hil hlt] at hm'
      · exact heq
      · simp [hfirst j hij hlt] at hm
    obtain rfl : m' = m := Option.some.inj (hm'.symm.trans hm)
    have hstop := first_lt_stop hr hm
    rw [matchesFrom, hgo]
    exact congrArg (m' :: ·) (findAllGo_eq_of_bound hr (stop_le_length hl hm) (by omega) (by omega))

/-! ## Stretches -/

theorem Reports.append (h : Reports r text i j ms) (h' : Reports r text j k ms') :
    Reports r text i k (ms ++ ms') := by
  refine ⟨h.le.trans h'.le, h'.le_length, ?_⟩
  rw [h.matchesFrom_eq, h'.matchesFrom_eq, List.append_assoc]

/-- Nothing is reported where no match begins. -/
theorem reports_nil (hr : Advances r) (hij : i ≤ j) (hj : j ≤ text.length)
    (hnone : NoneBetween r text i j) : Reports r text i j [] := by
  refine ⟨hij, hj, ?_⟩
  have hboth : ∀ {k}, NoneBetween r text j k → NoneBetween r text i k := by
    intro k hk l hil hlk
    rcases Nat.lt_or_ge l j with hlj | hjl
    · exact hnone l hil hlj
    · exact hk l hjl hlk
  rcases findAllGo_succ hr text.length hj with ⟨-, hrest⟩ | ⟨l, m, hjl, hl, hm, hfirst, -⟩
  · have hnone' : NoneBetween r text j (text.length + 1) := fun l hjl hl =>
      hrest l hjl (Nat.le_of_lt_succ hl)
    rw [List.nil_append, matchesFrom_nil hr hj hnone',
      matchesFrom_nil hr (hij.trans hj) (hboth hnone')]
  · rw [List.nil_append, matchesFrom_cons hr hjl hl hfirst hm,
      matchesFrom_cons hr (hij.trans hjl) hl (hboth hfirst) hm]

/-- The one match of a stretch. -/
theorem reports_singleton (hr : Advances r) (hij : i ≤ j) (hnone : NoneBetween r text i j)
    (hm : matchInside r text j = some m) (hstop : m.stop ≤ k) (hk : k ≤ text.length)
    (hnone' : NoneBetween r text m.stop k) : Reports r text i k [m] := by
  have hlt := first_lt_stop hr hm
  have hrest := reports_nil hr hstop hk hnone'
  refine ⟨by omega, hk, ?_⟩
  rw [matchesFrom_cons hr hij (by omega) hnone hm, hrest.matchesFrom_eq]
  rfl

/-- **What a search reports**, when it is known for a stretch from the first character to the last. -/
theorem findAll_eq_of_reports (hr : Advances r) (h : Reports r text 0 text.length ms) :
    findAll r text = ms := by
  rw [findAll_eq_matchesFrom hr, h.matchesFrom_eq, matchesFrom_length hr, List.append_nil]

end ServiceKeys.Regex
