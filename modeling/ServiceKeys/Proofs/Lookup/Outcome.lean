import ServiceKeys.Lookup.Monad
import Mathlib.Data.List.Forall2

/-!
# What a lookup comes to

A lookup that cannot be cancelled comes to the same result whatever its log holds and however often
it polled before.  `Lookup.Gives l r` says that `l` comes to `r` in this sense; it is put together
along the lookup, one rule for each way of building one, and in it the log disappears: what is left
is a computation that succeeds or fails.
-/

namespace ServiceKeys

/-! ## Results -/

theorem bind_eq_ok_iff {ε α β : Type} {x : Except ε α} {f : α → Except ε β} {b : β} :
    (x >>= f) = .ok b ↔ ∃ a, x = .ok a ∧ f a = .ok b := by
  cases x with
  | error e => simp [bind, Except.bind]
  | ok a => simp [bind, Except.bind]

theorem eq_ok_of_toOption {ε α : Type} {r : Except ε α} {a : α} (h : r.toOption = some a) :
    r = .ok a := by
  cases r with
  | error e => simp [Except.toOption] at h
  | ok b => rw [Option.some.inj h]

theorem mapError_eq_ok_iff {ε ε' α : Type} {f : ε → ε'} {x : Except ε α} {a : α} :
    x.mapError f = .ok a ↔ x = .ok a := by
  cases x <;> simp [Except.mapError]

/-- A list of computations succeeds when each of them does. -/
theorem mapM_eq_ok_iff {ε α β : Type} {f : α → Except ε β} {xs : List α} {ys : List β} :
    xs.mapM f = .ok ys ↔ List.Forall₂ (fun x y => f x = .ok y) xs ys := by
  induction xs generalizing ys with
  | nil =>
      rw [List.mapM_nil, List.forall₂_nil_left_iff]
      constructor
      · intro h
        exact (Except.ok.inj h).symm
      · rintro rfl
        rfl
  | cons x xs ih =>
      rw [List.mapM_cons, List.forall₂_cons_left_iff]
      constructor
      · intro h
        cases hx : f x with
        | error e => simp [hx, bind, Except.bind] at h
        | ok y =>
            cases hxs : xs.mapM f with
            | error e => simp [hx, hxs, bind, Except.bind] at h
            | ok zs =>
                obtain rfl : y :: zs = ys := by
                  simpa [hx, hxs, bind, Except.bind, pure, Except.pure] using h
                exact ⟨y, zs, rfl, ih.1 hxs, rfl⟩
      · rintro ⟨y, zs, hx, hzs, rfl⟩
        rw [hx, ih.2 hzs]
        rfl

theorem exists_mapM_eq_ok {ε α β : Type} {f : α → Except ε β} {xs : List α}
    (h : ∀ x ∈ xs, ∃ y, f x = .ok y) : ∃ ys, xs.mapM f = .ok ys := by
  induction xs with
  | nil => exact ⟨[], rfl⟩
  | cons x xs ih =>
      obtain ⟨y, hy⟩ := h x List.mem_cons_self
      obtain ⟨ys, hys⟩ := ih fun z hz => h z (List.mem_cons_of_mem _ hz)
      exact ⟨y :: ys, mapM_eq_ok_iff.2 (.cons hy (mapM_eq_ok_iff.1 hys))⟩

theorem exists_mapM_eq_ok_iff {ε α β : Type} {f : α → Except ε β} {xs : List α} :
    (∃ ys, xs.mapM f = .ok ys) ↔ ∀ x ∈ xs, ∃ y, f x = .ok y := by
  refine ⟨?_, exists_mapM_eq_ok⟩
  rintro ⟨ys, h⟩
  have heach : List.Forall₂ (fun x y => (∃ y, f x = .ok y) ∧ f x = .ok y) xs ys :=
    (mapM_eq_ok_iff.1 h).imp fun _ y hxy => ⟨⟨y, hxy⟩, hxy⟩
  exact ((List.forall₂_and_left xs ys).1 heach).1

theorem mem_of_mapM_eq_ok {ε α β : Type} {f : α → Except ε β} {xs : List α} {ys : List β}
    (h : xs.mapM f = .ok ys) {y : β} : y ∈ ys ↔ ∃ x ∈ xs, f x = .ok y := by
  have hforall := mapM_eq_ok_iff.1 h
  clear h
  induction hforall with
  | nil => simp
  | cons hxy _ ih =>
      rw [List.mem_cons, List.exists_mem_cons_iff, hxy, Except.ok.injEq, eq_comm]
      exact or_congr_right ih

/-- The results of lists of computations, put together. -/
theorem exists_mapM_flatten {ε α β : Type} {f : α → Except ε (List β)} {P : α → β → Prop}
    {xs : List α} (h : ∀ x ∈ xs, ∃ ys, f x = .ok ys ∧ ∀ y, y ∈ ys ↔ P x y) :
    ∃ yss, xs.mapM f = .ok yss ∧ ∀ y, y ∈ yss.flatten ↔ ∃ x ∈ xs, P x y := by
  obtain ⟨yss, hyss⟩ := exists_mapM_eq_ok fun x hx => (h x hx).imp fun _ => And.left
  refine ⟨yss, hyss, ?_⟩
  intro y
  rw [List.mem_flatten]
  constructor
  · rintro ⟨ys, hys, hy⟩
    obtain ⟨x, hx, hfx⟩ := (mem_of_mapM_eq_ok hyss).1 hys
    obtain ⟨ys', hys', hP⟩ := h x hx
    obtain rfl : ys' = ys := Except.ok.inj (hys'.symm.trans hfx)
    exact ⟨x, hx, (hP y).1 hy⟩
  · rintro ⟨x, hx, hy⟩
    obtain ⟨ys, hys, hP⟩ := h x hx
    exact ⟨ys, (mem_of_mapM_eq_ok hyss).2 ⟨x, hx, hys⟩, (hP y).2 hy⟩

/-! ## Which errors a computation can have -/

/-- A computation has no other errors than these. -/
def FailsOnly {ε α : Type} (r : Except ε α) (P : ε → Prop) : Prop := ∀ e, r = .error e → P e

namespace FailsOnly

variable {ε α β : Type} {P Q : ε → Prop}

theorem ok (a : α) : FailsOnly (.ok a) P := nofun

theorem error {e : ε} (h : P e) : FailsOnly (.error e : Except ε α) P := by
  rintro _ ⟨⟩
  exact h

theorem mono {r : Except ε α} (h : FailsOnly r P) (himp : ∀ e, P e → Q e) : FailsOnly r Q :=
  fun e he => himp e (h e he)

/-- One step after the other; the second one may use that the first one has succeeded. -/
theorem bind {r : Except ε α} {f : α → Except ε β} (h : FailsOnly r P)
    (hf : ∀ a, r = .ok a → FailsOnly (f a) P) : FailsOnly (r >>= f) P := by
  cases r with
  | error e => exact .error (h e rfl)
  | ok a => exact hf a rfl

theorem mapError {ε' : Type} {g : ε' → ε} {r : Except ε' α} (h : FailsOnly r fun e => P (g e)) :
    FailsOnly (r.mapError g) P := by
  cases r with
  | error e => exact .error (h e rfl)
  | ok a => exact .ok a

theorem map {g : α → β} {r : Except ε α} (h : FailsOnly r P) : FailsOnly (r.map g) P := by
  cases r with
  | error e => exact .error (h e rfl)
  | ok a => exact .ok (g a)

theorem mapM {f : α → Except ε β} {xs : List α} (h : ∀ x ∈ xs, FailsOnly (f x) P) :
    FailsOnly (xs.mapM f) P := by
  induction xs with
  | nil => exact .ok _
  | cons x xs ih =>
      rw [List.mapM_cons]
      refine (h x List.mem_cons_self).bind fun y _ => ?_
      exact (ih fun z hz => h z (List.mem_cons_of_mem _ hz)).bind fun ys _ => .ok _

theorem foldlM {f : β → α → Except ε β} {xs : List α} {b : β} (h : ∀ b x, x ∈ xs → FailsOnly (f b x) P) :
    FailsOnly (xs.foldlM f b) P := by
  induction xs generalizing b with
  | nil => exact .ok _
  | cons x xs ih =>
      rw [List.foldlM_cons]
      exact (h b x List.mem_cons_self).bind fun b' _ => ih fun b y hy => h b y (List.mem_cons_of_mem _ hy)

end FailsOnly

namespace Lookup

variable {α β : Type}

/-! ## Outcomes without cancellation -/

/-- Without a budget the lookup comes to `r`, from whatever trace it starts. -/
def Gives (l : Lookup α) (r : Except Failure α) : Prop :=
  ∀ t : Trace, t.budget = none → ∃ t', (ExceptT.run l).run t = (r, t') ∧ t'.budget = none

theorem Gives.outcome {l : Lookup α} {r : Except Failure α} (h : Gives l r) :
    (l.outcome none).1 = r := by
  obtain ⟨t', hrun, -⟩ := h { budget := none } rfl
  exact congrArg Prod.fst hrun

theorem Gives.unique {l : Lookup α} {r r' : Except Failure α} (h : Gives l r) (h' : Gives l r') :
    r = r' := h.outcome.symm.trans h'.outcome

theorem gives_pure (a : α) : Gives (pure a) (.ok a) := fun t ht => ⟨t, rfl, ht⟩

theorem gives_throw (e : Failure) : Gives (throw e : Lookup α) (.error e) :=
  fun t ht => ⟨t, rfl, ht⟩

/-- One lookup after the other: the second goes on from the trace that the first leaves behind. -/
theorem run_bind (l : Lookup α) (f : α → Lookup β) (t : Trace) :
    (ExceptT.run (l >>= f)).run t =
      (match (ExceptT.run l).run t with
        | (.ok a, t') => (ExceptT.run (f a)).run t'
        | (.error e, t') => (.error e, t')) := by
  show (match (ExceptT.run l).run t with
    | (r, t') => (ExceptT.bindCont f r : StateM Trace (Except Failure β)).run t') = _
  rcases (ExceptT.run l).run t with ⟨_ | a, t'⟩ <;> rfl

theorem Gives.bind {l : Lookup α} {f : α → Lookup β} {r : Except Failure α}
    {g : α → Except Failure β} (h : Gives l r) (hf : ∀ a, r = .ok a → Gives (f a) (g a)) :
    Gives (l >>= f) (r >>= g) := by
  intro t ht
  obtain ⟨t', hrun, ht'⟩ := h t ht
  rw [run_bind, hrun]
  cases r with
  | error e => exact ⟨t', rfl, ht'⟩
  | ok a => exact hf a rfl t' ht'

theorem Gives.bind_ok {l : Lookup α} {f : α → Lookup β} {a : α} {r : Except Failure β}
    (h : Gives l (.ok a)) (hf : Gives (f a) r) : Gives (l >>= f) r :=
  h.bind (g := fun _ => r) fun _ ha => Except.ok.inj ha ▸ hf

theorem Gives.bind_error {l : Lookup α} {f : α → Lookup β} {e : Failure} (h : Gives l (.error e)) :
    Gives (l >>= f) (.error e) :=
  h.bind (g := fun _ => .error e) fun _ ha => by simp at ha

theorem gives_record (level : Level) (message : String) : Gives (record level message) (.ok ()) :=
  fun _ ht => ⟨_, rfl, ht⟩

theorem gives_debug (message : String) : Gives (debug message) (.ok ()) := gives_record _ _

theorem gives_info (message : String) : Gives (info message) (.ok ()) := gives_record _ _

theorem gives_poll : Gives poll (.ok ()) := by
  rintro ⟨log, polls, budget⟩ rfl
  exact ⟨⟨log, polls + 1, none⟩, rfl, rfl⟩

theorem gives_accessed (r : Except AccessError α) : Gives (accessed r) (r.mapError .access) := by
  cases r with
  | ok a => exact gives_pure a
  | error e => exact gives_throw _

/-- A list of lookups that all succeed. -/
theorem gives_mapM_ok {f : α → Lookup β} {xs : List α} {ys : List β}
    (h : List.Forall₂ (fun x y => Gives (f x) (.ok y)) xs ys) : Gives (xs.mapM f) (.ok ys) := by
  induction h with
  | nil => exact gives_pure []
  | cons hxy _ ih =>
      rw [List.mapM_cons]
      exact hxy.bind_ok (ih.bind_ok (gives_pure _))

end Lookup

end ServiceKeys
