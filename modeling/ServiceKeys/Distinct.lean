/-!
# Lists without duplicates

Results are lists in which nothing is reported twice: of the elements that have the same key, the
first is kept, at its place.  The main facts are that the keys that come out are the keys that went
in, that no two of them are equal, and that a list without duplicates is left alone.
-/

namespace ServiceKeys

/-- Keeps the first of the elements with the same key. -/
def distinctBy {α β : Type} [BEq β] (key : α → β) : List α → List α
  | [] => []
  | x :: xs => x :: (distinctBy key xs).filter fun y => key y != key x

/-- Keeps the first of equal elements. -/
def distinct {α : Type} [BEq α] (xs : List α) : List α := distinctBy id xs

/-- What is kept stands in the order in which it stood. -/
theorem distinctBy_sublist {α β : Type} [BEq β] {key : α → β} (xs : List α) :
    List.Sublist (distinctBy key xs) xs := by
  induction xs with
  | nil => exact .slnil
  | cons x xs ih => exact (List.filter_sublist.trans ih).cons_cons x

section

variable {α β : Type} [BEq β] [LawfulBEq β] {key : α → β}

/-- Every key has an element that is kept. -/
theorem exists_mem_distinctBy {xs : List α} {x : α} (h : x ∈ xs) :
    ∃ y ∈ distinctBy key xs, key y = key x := by
  induction xs with
  | nil => cases h
  | cons z xs ih =>
    by_cases hz : key x = key z
    · exact ⟨z, List.mem_cons_self, hz.symm⟩
    · rcases List.mem_cons.1 h with rfl | hx
      · exact absurd rfl hz
      · obtain ⟨y, hy, hk⟩ := ih hx
        refine ⟨y, List.mem_cons_of_mem _ (List.mem_filter.2 ⟨hy, ?_⟩), hk⟩
        simpa [hk] using hz

/-- No two elements that are kept have the same key. -/
theorem pairwise_distinctBy (xs : List α) :
    (distinctBy key xs).Pairwise fun a b => key a ≠ key b := by
  induction xs with
  | nil => exact .nil
  | cons x xs ih =>
    refine .cons (fun y hy => ?_) (ih.filter _)
    have hne := (List.mem_filter.1 hy).2
    intro h
    simp [h] at hne

/-- A list without duplicates is left alone. -/
theorem distinctBy_eq_self {xs : List α} (h : xs.Pairwise fun a b => key a ≠ key b) :
    distinctBy key xs = xs := by
  induction h with
  | nil => rfl
  | cons hx _ ih =>
    rw [distinctBy, ih, List.filter_eq_self.2]
    intro y hy
    simpa [bne_iff_ne] using (hx y hy).symm

end

section

variable {α : Type} [BEq α] [LawfulBEq α]

/-- Nothing is lost and nothing is made up. -/
theorem mem_distinct {xs : List α} {x : α} : x ∈ distinct xs ↔ x ∈ xs := by
  constructor
  · exact (distinctBy_sublist xs).mem
  · intro h
    obtain ⟨y, hy, hk⟩ : ∃ y ∈ distinctBy id xs, id y = id x := exists_mem_distinctBy h
    have hyx : y = x := hk
    exact hyx ▸ hy

/-- What is kept has no duplicates. -/
theorem nodup_distinct (xs : List α) : (distinct xs).Nodup := pairwise_distinctBy xs

end

end ServiceKeys
