import ServiceKeys.Proofs.Regex.Substitution
import ServiceKeys.Proofs.Template.Written

/-!
# Constructs under any flags

What a written construct adds to a sequence, whatever flags are set: `Leads`.  Nothing is asked of the
scope, so these rules hold inside of a pattern that has been opened with any flags, and they compose.
-/

namespace ServiceKeys.Regex

open Reader

variable {scope : Scope} {flags : Flags} {st st' : Progress} {xs ys B : List Token} {ps qs : List Item}

/-- In front of the tokens `B`, the tokens `xs` add items (latest first) and leave everything else that
is known alone. -/
def Leads (scope : Scope) (B xs : List Token) (ps : List Item) : Prop :=
  ∀ st o done items, ∃ o', ∀ out st', Parses scope done (ps ++ items) (Progress.facing st B o') out st' →
    Parses scope done items (st.facing (xs ++ B) o) out st'

theorem Leads.nil : Leads scope B [] [] := fun _ o _ _ => ⟨o, fun _ _ h => h⟩

theorem Leads.append (hx : Leads scope (ys ++ B) xs ps) (hy : Leads scope B ys qs) :
    Leads scope B (xs ++ ys) (qs ++ ps) := by
  intro st o done items
  obtain ⟨mid, hx⟩ := hx st o done items
  obtain ⟨o', hy⟩ := hy st mid done (ps ++ items)
  refine ⟨o', fun out st' h => ?_⟩
  rw [List.append_assoc]
  rw [List.append_assoc] at h
  exact hx out st' (hy out st' h)

/-- The inside of a group, up to its closing parenthesis. -/
theorem Leads.parses (h : Leads scope (.plain ')' :: B) xs ps) (st : Progress) (o : Nat) :
    ∃ o', Parses scope [] [] (st.facing (xs ++ .plain ')' :: B) o) [ps] (st.facing (.plain ')' :: B) o') := by
  obtain ⟨o', h⟩ := h st o [] []
  refine ⟨o', h _ _ ?_⟩
  rw [List.append_nil]
  exact .stop (by simp [Stops, Progress.facing])

/-! ## Pieces -/

theorem leads_piece {t : Token} {i : Item} (hwhole : Whole (xs ++ B)) (hgo : ¬ Stops scope [t])
    (hread : ∀ st start, Takes (readPiece scope.flags start t) st xs B (.item i)) :
    Leads scope B (t :: xs) [i] := by
  intro st o done items
  obtain ⟨o', hread⟩ := hread st o (o + t.width)
  refine ⟨o', fun out st' h => ?_⟩
  exact .piece (fun hstop => hgo fun u hu => hstop u hu) (take_facing hwhole) hread rfl h

theorem not_stops_plain {c : Char} (hclose : c ≠ ')') (hbar : c ≠ '|') : ¬ Stops scope [.plain c] := by
  intro h
  have hhead := h (.plain c) rfl
  simp [hclose, hbar] at hhead

theorem not_stops_escaped (c : Char) : ¬ Stops scope [.escaped c] := by
  intro h
  have hhead := h (.escaped c) rfl
  simp at hhead

/-- Blanks of the ASCII range are special. -/
theorem isSpecial_of_isAsciiBlank {c : Char} (h : Text.isAsciiBlank c = true) : isSpecial c = true := by
  simp only [Text.isAsciiBlank, Bool.or_eq_true, beq_iff_eq, Bool.and_eq_true, decide_eq_true_eq] at h
  rcases h with rfl | ⟨hlo, hhi⟩
  · decide
  · obtain ⟨n, hn, hlo, hhi⟩ : ∃ n, c.toNat = n ∧ 9 ≤ n ∧ n ≤ 13 := ⟨_, rfl, hlo, hhi⟩
    have hc : c = Char.ofNat n := by rw [← hn, Char.ofNat_toNat]
    obtain rfl | rfl | rfl | rfl | rfl : n = 9 ∨ n = 10 ∨ n = 11 ∨ n = 12 ∨ n = 13 := by omega
    all_goals rw [hc]; decide

/-- A character that is not special stands for itself. -/
theorem leads_char {c : Char} (hc : isSpecial c = false) (hB : Whole B) :
    Leads scope B [.plain c] [codeItem scope.flags c.toNat] := by
  have hne : ∀ d, isSpecial d = true → (c == d) = false := fun d hd =>
    beq_eq_false_iff_ne.2 fun heq => by simp [heq, hd] at hc
  have hblank : Text.isAsciiBlank c = false := by
    rw [Bool.eq_false_iff]
    intro hblank
    simp [isSpecial_of_isAsciiBlank hblank] at hc
  refine leads_piece hB (not_stops_plain (by simpa using hne ')' (by decide)) (by simpa using hne '|' (by decide)))
    fun st start => ?_
  have hread : readPiece scope.flags start (.plain c) = pure (.item (codeItem scope.flags c.toNat)) := by
    simp only [readPiece, hblank, hne '|' (by decide), hne '#' (by decide), hne '[' (by decide),
      hne '?' (by decide), hne '*' (by decide), hne '+' (by decide), hne '\x7b' (by decide), hne '.' (by decide),
      hne '^' (by decide), hne '$' (by decide), hne '(' (by decide), Bool.and_false]
    rfl
  rw [hread]
  exact takes_pure _

/-- A special character behind a backslash stands for itself. -/
theorem leads_escaped {c : Char} (hc : isSpecial c = true) (hB : Whole B) :
    Leads scope B [.escaped c] [codeItem scope.flags c.toNat] := by
  refine leads_piece hB (not_stops_escaped c) fun st start o => ⟨o, ?_⟩
  show (escapeItem scope.flags c >>= _) _ = _
  rw [bind_of_ok (escapeItem_special hc _)]
  rfl

theorem leads_escape (cs : List Char) (hB : Whole B) :
    Leads scope B (escapedTokens cs) (cs.map fun c => codeItem scope.flags c.toNat).reverse := by
  induction cs with
  | nil => exact .nil
  | cons c cs ih =>
      have hwhole := whole_append (dangling_notMem_escapedTokens cs) hB
      rw [List.map_cons, List.reverse_cons]
      have hfirst : Leads scope (escapedTokens cs ++ B) [if isSpecial c then .escaped c else .plain c]
          [codeItem scope.flags c.toNat] := by
        split
        · rename_i hc
          exact leads_escaped hc hwhole
        · rename_i hc
          exact leads_char (by simpa using hc) hwhole
      exact hfirst.append ih

/-- A set. -/
theorem leads_set {set : List Token} {i : Item} {o : Nat} (hB : Whole B) (hset : Whole (set ++ B))
    (hitem : setItem scope.flags { rest := set } = .ok (i, { rest := [], offset := o })) :
    Leads scope B (.plain '[' :: set) [i] := by
  obtain ⟨used, htook, -, htakes⟩ := blind_setItem scope.flags hitem
  obtain rfl : set = used := by simpa using htook.rest
  refine leads_piece hset (not_stops_plain (by decide) (by decide)) fun st start => ?_
  have hread : readPiece scope.flags start (.plain '[') = setItem scope.flags >>= fun i => pure (.item i) := by
    have hblank : (scope.flags.verbose && Text.isAsciiBlank '[') = false := Bool.and_false _
    have hremark : (scope.flags.verbose && '[' == '#') = false := Bool.and_false _
    simp only [readPiece, hblank, hremark]
    rfl
  rw [hread]
  exact (htakes (Nat.lt_succ_self _) fun _ => hB).bind_pure Piece.item

theorem readPiece_mark {q : Char} {b : Bounds} (hq : Mark q b) (flags : Flags) (start : Nat) :
    readPiece flags start (.plain q) = repeatMode >>= fun mode => pure (.mark b mode) := by
  cases hq with
  | maybe =>
      have hblank : (flags.verbose && Text.isAsciiBlank '?') = false := Bool.and_false _
      have hremark : (flags.verbose && '?' == '#') = false := Bool.and_false _
      simp only [readPiece, hblank, hremark]
      rfl
  | many =>
      have hblank : (flags.verbose && Text.isAsciiBlank '*') = false := Bool.and_false _
      have hremark : (flags.verbose && '*' == '#') = false := Bool.and_false _
      simp only [readPiece, hblank, hremark]
      rfl

/-- A mark, with what chooses its mode, repeats the item before it. -/
theorem leads_mark {q : Char} {b : Bounds} {mode : Mode} {r : Regex} (ys : List Token) (hq : Mark q b) (hwhole : Whole (ys ++ B))
    (hmode : ∀ st, Takes repeatMode st ys B mode)
    (h : Leads scope (.plain q :: (ys ++ B)) xs (⟨r, .other⟩ :: ps)) :
    Leads scope B (xs ++ .plain q :: ys) (⟨repeated r b mode, .repeated⟩ :: ps) := by
  intro st o done items
  obtain ⟨mid, h⟩ := h st o done items
  obtain ⟨o', hread⟩ := hmode st (mid + (Token.plain q).width)
  refine ⟨o', fun out st' hmore => ?_⟩
  have hgo : ¬ Stops scope (st.facing (.plain q :: (ys ++ B)) mid).rest := fun hstop => by
    refine not_stops_plain (c := q) ?_ ?_ fun u hu => hstop u hu
    all_goals cases hq <;> decide
  have hparses : Parses scope done (⟨r, .other⟩ :: (ps ++ items)) (st.facing (.plain q :: (ys ++ B)) mid) out st' := by
    refine .piece hgo (take_facing hwhole) (p := .mark b mode) ?_ rfl hmore
    rw [readPiece_mark hq, bind_of_ok hread]
    rfl
  have hall := h out st' hparses
  rwa [List.append_assoc]

/-- A mark repeats the item before it, as often as possible. -/
theorem leads_repeat {q : Char} {b : Bounds} {r : Regex} (hq : Mark q b) (hB : Whole B) (hsettled : Settled B)
    (h : Leads scope (.plain q :: B) xs (⟨r, .other⟩ :: ps)) :
    Leads scope B (xs ++ [.plain q]) (⟨repeated r b .greedy, .repeated⟩ :: ps) := by
  refine leads_mark [] hq hB (fun st o => ⟨o, ?_⟩) h
  show (accept '?' >>= _) _ = _
  rw [List.nil_append, bind_of_ok (accept_facing_ne hsettled.1)]
  show (accept '+' >>= _) _ = _
  rw [bind_of_ok (accept_facing_ne hsettled.2)]
  rfl

/-- The same, as seldom as possible. -/
theorem leads_repeatReluctant {q : Char} {b : Bounds} {r : Regex} (hq : Mark q b) (hB : Whole B)
    (h : Leads scope (.plain q :: .plain '?' :: B) xs (⟨r, .other⟩ :: ps)) :
    Leads scope B (xs ++ [.plain q, .plain '?']) (⟨repeated r b .reluctant, .repeated⟩ :: ps) := by
  refine leads_mark [.plain '?'] hq (whole_plain _ _) (fun st o => ⟨o + 1, ?_⟩) h
  show (accept '?' >>= _) _ = _
  rw [List.singleton_append, bind_of_ok (accept_facing hB)]
  rfl

/-! ## Groups -/

/-- A group that opens nothing: what is behind its opening is read up to the closing parenthesis. -/
theorem leads_enclosed (front : List Token) (o : Opening) {i : Item} (hB : Whole B)
    (hwhole : Whole (front ++ (xs ++ .plain ')' :: B)))
    (hopen : ∀ st start, Takes (opening scope.flags start) st front (xs ++ .plain ')' :: B) o)
    (hinner : o.inner? scope.flags = some scope.flags)
    (hinside : ∀ st, ∃ st₁, o.enter st = .ok ((), st₁) ∧ st₁.rest = st.rest ∧
      ∀ st₂, st₂ = st₁.facing B st₂.offset → o.leave st (assemble [ps]) st₂ = .ok (i, st.facing B st₂.offset))
    (h : Leads { flags := scope.flags } (.plain ')' :: B) xs ps) :
    Leads scope B (.plain '(' :: (front ++ (xs ++ [.plain ')']))) [i] := by
  intro st o₁ done items
  obtain ⟨o₂, hopen⟩ := hopen st o₁ (o₁ + 1)
  obtain ⟨st₁, henter, hrest, hleave⟩ := hinside (st.facing (xs ++ .plain ')' :: B) o₂)
  obtain ⟨o₃, hbody⟩ := h.parses st₁ st₁.offset
  refine ⟨o₃ + 1, fun out st' hmore => ?_⟩
  rw [← facing_of_rest (show st₁.rest = xs ++ .plain ')' :: B from hrest)] at hbody
  have heq : Token.plain '(' :: (front ++ (xs ++ [.plain ')'])) ++ B =
      .plain '(' :: (front ++ (xs ++ .plain ')' :: B)) := by simp
  rw [heq]
  exact .enclosed (take_facing hwhole) hopen hinner henter hbody (closeParen_facing hB)
    (hleave (st₁.facing B (o₃ + 1)) rfl) hmore

/-- A group that remembers nothing stands for its inside. -/
theorem leads_plainGroup (hB : Whole B) (hwhole : Whole (xs ++ .plain ')' :: B))
    (h : Leads { flags := scope.flags } (.plain ')' :: B) xs ps) :
    Leads scope B (.plain '(' :: .plain '?' :: .plain ':' :: (xs ++ [.plain ')'])) [⟨assemble [ps], .other⟩] := by
  refine leads_enclosed [.plain '?', .plain ':'] (.plain [] []) hB (whole_plain _ _)
    (fun st start o => ⟨_, opening_plain hwhole⟩) rfl (fun st => ⟨st, rfl, rfl, ?_⟩) h
  intro st₂ hst₂
  rw [hst₂]
  rfl

/-- A look ahead. -/
theorem leads_notBefore {s : CharSet} (hB : Whole B) (hwhole : Whole (xs ++ .plain ')' :: B))
    (h : Leads { flags := scope.flags } (.plain ')' :: B) xs [⟨.one s, .other⟩]) :
    Leads scope B (.plain '(' :: .plain '?' :: .plain '!' :: (xs ++ [.plain ')'])) [⟨notBefore s, .other⟩] := by
  refine leads_enclosed [.plain '?', .plain '!'] (.look false false) hB (whole_plain _ _)
    (fun st start o => ⟨_, opening_notBefore hwhole⟩) rfl (fun st => ⟨st, rfl, rfl, ?_⟩) h
  intro st₂ hst₂
  rw [hst₂]
  rfl

/-- A look behind. -/
theorem leads_notAfter {s : CharSet} (hB : Whole B) (hwhole : Whole (xs ++ .plain ')' :: B))
    (h : Leads { flags := scope.flags } (.plain ')' :: B) xs [⟨.one s, .other⟩]) :
    Leads scope B (.plain '(' :: .plain '?' :: .plain '<' :: .plain '!' :: (xs ++ [.plain ')']))
      [⟨notAfter s, .other⟩] := by
  refine leads_enclosed [.plain '?', .plain '<', .plain '!'] (.look true false) hB (whole_plain _ _)
    (fun st start o => ⟨_, opening_notAfter hwhole⟩) rfl (fun st => ⟨_, rfl, rfl, ?_⟩) h
  intro st₂ hst₂
  rw [Opening.leave, bind_of_ok modify_self]
  show (lookBehind false (.one s) >>= _) _ = _
  rw [bind_of_ok (lookBehind_one s _), hst₂]
  rfl

end ServiceKeys.Regex
