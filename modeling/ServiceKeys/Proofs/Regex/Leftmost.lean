import ServiceKeys.Proofs.Regex.Search

/-!
# Leftmost occurrences without overlap

A text that overlaps itself occurs in more places than a search can report.  Going from left to right, an
occurrence is taken unless it begins inside of one that was taken before it; there is one such choice
(`Leftmost.unique`), and where all matches of a pattern have the same length it is what the search for all
matches reports (`leftmost_findAll`).
-/

namespace ServiceKeys.Regex

/-! ## The choice -/

/-- A choice among the offsets at which something of a given size occurs: what is chosen occurs and does
not overlap, and what occurs is chosen or begins inside of a chosen one. -/
structure Leftmost (At : Nat → Prop) (size : Nat) (offsets : List Nat) : Prop where
  occurs : ∀ i ∈ offsets, At i
  apart : offsets.Pairwise fun i j => i + size ≤ j
  taken : ∀ i, At i → ∃ j ∈ offsets, j ≤ i ∧ i < j + size

namespace Leftmost

variable {At At' : Nat → Prop} {size : Nat} {offsets offsets' : List Nat}

theorem congr (h : ∀ i, At i ↔ At' i) : Leftmost At size offsets ↔ Leftmost At' size offsets := by
  rw [show At = At' from funext fun i => propext (h i)]

/-- Of two chosen offsets that are not far enough from each other, both are the same. -/
theorem eq_of_near (h : Leftmost At size offsets) {i j : Nat} (hi : i ∈ offsets) (hj : j ∈ offsets)
    (hle : j ≤ i) (hnear : i < j + size) : i = j := by
  by_contra hne
  have hapart : offsets.Pairwise fun i j => i + size ≤ j ∨ j + size ≤ i := h.apart.imp Or.inl
  have : Std.Symm fun i j : Nat => i + size ≤ j ∨ j + size ≤ i := ⟨fun _ _ hfar => hfar.symm⟩
  rcases hapart.forall hi hj hne with hfar | hfar <;> omega

/-- What is chosen in one way is chosen in the other one, by induction on the offset: the one that takes it
away there was chosen in both ways. -/
theorem mem_of_mem (h : Leftmost At size offsets) (h' : Leftmost At size offsets') {i : Nat}
    (hi : i ∈ offsets) : i ∈ offsets' := by
  induction i using Nat.strong_induction_on generalizing offsets offsets' with
  | h i ih =>
      obtain ⟨j, hj, hle, hnear⟩ := h'.taken i (h.occurs i hi)
      rcases hle.eq_or_lt with rfl | hlt
      · exact hj
      · have hback := ih j hlt h' h hj
        rw [h.eq_of_near hi hback hle hnear]
        exact hj

/-- **There is one such choice.** -/
theorem unique (hsize : 0 < size) (h : Leftmost At size offsets) (h' : Leftmost At size offsets') :
    offsets = offsets' := by
  have hordered : ∀ {l : List Nat}, Leftmost At size l → l.Pairwise (· < ·) := fun hl =>
    hl.apart.imp fun hfar => by omega
  refine List.Perm.eq_of_pairwise (fun _ _ _ _ hlt hgt => absurd hlt (Nat.lt_asymm hgt)) (hordered h)
    (hordered h') ?_
  refine (List.perm_ext_iff_of_nodup ?_ ?_).2 fun i => ⟨h.mem_of_mem h', h'.mem_of_mem h⟩
  · exact (hordered h).imp Nat.ne_of_lt
  · exact (hordered h').imp Nat.ne_of_lt

end Leftmost

/-! ## The search -/

section

variable {r : Regex} {text : List Char}

/-- What a search reports from an offset on begins there or behind it. -/
theorem le_first_of_mem_findAllGo (hr : Advances r) {bound i : Nat} {m : Match} (hi : i ≤ text.length)
    (h : m ∈ findAllGo r bound false (.inside text i)) : i ≤ m.first := by
  induction bound generalizing i with
  | zero => simp [findAllGo] at h
  | succ bound ih =>
      rcases findAllGo_succ hr bound hi with ⟨hnil, -⟩ | ⟨j, m', hij, hj, hm', -, hgo⟩
      · simp [hnil] at h
      · rw [hgo] at h
        rcases List.mem_cons.1 h with rfl | h
        · rw [(of_matchInside hm').2.1]
          exact hij
        · have hbehind := ih (stop_le_length hj hm') h
          have hlt := first_lt_stop hr hm'
          omega

theorem pairwise_findAllGo (hr : Advances r) {bound i : Nat} (hi : i ≤ text.length) :
    (findAllGo r bound false (.inside text i)).Pairwise fun m m' => m.stop ≤ m'.first := by
  induction bound generalizing i with
  | zero => exact .nil
  | succ bound ih =>
      rcases findAllGo_succ hr bound hi with ⟨hnil, -⟩ | ⟨j, m, -, hj, hm, -, hgo⟩
      · rw [hnil]
        exact .nil
      · have hstop := stop_le_length hj hm
        rw [hgo]
        exact .cons (fun m' hm' => le_first_of_mem_findAllGo hr hstop hm') (ih hstop)

/-- **Matches are reported from left to right and do not overlap.** -/
theorem pairwise_findAll (hr : Advances r) :
    (findAll r text).Pairwise fun m m' => m.stop ≤ m'.first := by
  rw [findAll, Cursor.start_eq]
  exact pairwise_findAllGo hr (Nat.zero_le _)

/-- **All matches of one size**: the search reports the leftmost ones that do not overlap. -/
theorem leftmost_findAll (hr : Advances r) (text : List Char) {size : Nat}
    (hsize : ∀ i m, matchInside r text i = some m → m.stop = i + size) :
    Leftmost (fun i => i ≤ text.length ∧ (matchInside r text i).isSome = true) size
        ((findAll r text).map Match.first) ∧
      (findAll r text).map (fun m => (m.first, m.stop)) =
        ((findAll r text).map Match.first).map fun i => (i, i + size) := by
  have hmatch : ∀ m ∈ findAll r text, m.first ≤ text.length ∧ matchInside r text m.first = some m ∧
      m.stop = m.first + size := by
    intro m hm
    obtain ⟨i, hi, hi'⟩ := matchInside_of_mem_findAll hr hm
    obtain rfl : m.first = i := (of_matchInside hi').2.1
    exact ⟨hi, hi', hsize _ _ hi'⟩
  refine ⟨⟨?_, ?_, ?_⟩, ?_⟩
  · intro i hi
    obtain ⟨m, hm, rfl⟩ := List.mem_map.1 hi
    obtain ⟨hle, hinside, -⟩ := hmatch m hm
    exact ⟨hle, by rw [hinside]; rfl⟩
  · refine List.pairwise_map.2 ((pairwise_findAll hr).imp_of_mem ?_)
    intro m m' hm _ hle
    rwa [← (hmatch m hm).2.2]
  · rintro i ⟨hi, hsome⟩
    obtain ⟨m, hm⟩ := Option.isSome_iff_exists.1 hsome
    obtain ⟨m', hm', j, hji, hj, hstop⟩ := exists_mem_findAll_around hr hi hm
    obtain rfl : m'.first = j := (of_matchInside hj).2.1
    exact ⟨m'.first, List.mem_map_of_mem hm', hji, by rwa [← (hmatch m' hm').2.2]⟩
  · rw [List.map_map]
    refine List.map_congr_left fun m hm => ?_
    rw [(hmatch m hm).2.2]
    rfl

end

end ServiceKeys.Regex
