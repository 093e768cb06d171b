import Mathlib
import ServiceKeys.Proofs.Lookup.Outcome

/-!
# How often a lookup polls

`Lookup.Polls l r n` says that `l` comes to `r` by way of exactly `n` polls: a budget that lets them
all through changes nothing, and a smaller one stops the lookup at the first poll beyond it.  Like the
outcome, the number of polls is put together along the lookup, one rule for each way of building one.

A lookup that is *silent* does not poll at all.  A lookup whose number of polls is known can be
cancelled in one way only, and there is nothing between its result and the failure
(`Polls.allOrNothing`).
-/

namespace ServiceKeys.Lookup

variable {α β : Type}

/-- The lookup comes to `r` after exactly `n` polls, or it is stopped at the poll that the budget does
not let through. -/
structure Polls (l : Lookup α) (r : Except Failure α) (n : Nat) : Prop where
  passes : ∀ t : Trace, (∀ b ∈ t.budget, t.polls + n ≤ b) →
    ∃ t', (ExceptT.run l).run t = (r, t') ∧ t'.polls = t.polls + n ∧ t'.budget = t.budget
  stops : ∀ (t : Trace) (b : Nat), t.budget = some b → t.polls ≤ b → b < t.polls + n →
    ∃ t', (ExceptT.run l).run t = (.error .cancelled, t')

theorem Polls.gives {l : Lookup α} {r : Except Failure α} {n : Nat} (h : Polls l r n) : Gives l r := by
  intro t ht
  obtain ⟨t', hrun, -, hbudget⟩ := h.passes t (by simp [ht])
  exact ⟨t', hrun, hbudget.trans ht⟩

theorem Polls.congr {l : Lookup α} {r r' : Except Failure α} {n n' : Nat} (h : Polls l r n)
    (hr : r = r') (hn : n = n') : Polls l r' n' := hr ▸ hn ▸ h

/-! ## The rules -/

/-- What leaves the trace as it is, but for the log, does not poll. -/
theorem polls_of_log {l : Lookup α} {r : Except Failure α}
    (h : ∀ t : Trace, ∃ log, (ExceptT.run l).run t = (r, { t with log := log })) : Polls l r 0 where
  passes t _ := by
    obtain ⟨log, hrun⟩ := h t
    exact ⟨_, hrun, rfl, rfl⟩
  stops t b _ hle hlt := absurd hlt (Nat.not_lt.2 hle)

theorem polls_pure (a : α) : Polls (pure a) (.ok a) 0 := polls_of_log fun t => ⟨t.log, rfl⟩

theorem polls_throw (e : Failure) : Polls (throw e : Lookup α) (.error e) 0 :=
  polls_of_log fun t => ⟨t.log, rfl⟩

theorem polls_record (level : Level) (message : String) : Polls (record level message) (.ok ()) 0 :=
  polls_of_log fun _ => ⟨_, rfl⟩

theorem polls_debug (message : String) : Polls (debug message) (.ok ()) 0 := polls_record _ _

theorem polls_info (message : String) : Polls (info message) (.ok ()) 0 := polls_record _ _

theorem polls_accessed (r : Except AccessError α) : Polls (accessed r) (r.mapError .access) 0 := by
  cases r with
  | ok a => exact polls_pure a
  | error e => exact polls_throw _

theorem polls_poll : Polls poll (.ok ()) 1 where
  passes := by
    rintro ⟨log, polls, budget⟩ hbudget
    refine ⟨⟨log, polls + 1, budget⟩, ?_, rfl, rfl⟩
    have hopen : budget.any (· ≤ polls) = false := by
      cases budget with
      | none => rfl
      | some b =>
          have hb : polls < b := hbudget b rfl
          simpa using hb
    show (ExceptT.run (if budget.any (· ≤ polls) then throw .cancelled
      else set (⟨log, polls + 1, budget⟩ : Trace) : Lookup Unit)).run ⟨log, polls, budget⟩ = _
    rw [hopen]
    rfl
  stops := by
    rintro ⟨log, polls, budget⟩ b rfl hle hlt
    refine ⟨⟨log, polls, some b⟩, ?_⟩
    have hshut : (some b).any (· ≤ polls) = true := by
      have hb : b ≤ polls := Nat.lt_succ_iff.1 hlt
      simpa using hb
    show (ExceptT.run (if (some b).any (· ≤ polls) then throw .cancelled
      else set (⟨log, polls + 1, some b⟩ : Trace) : Lookup Unit)).run ⟨log, polls, some b⟩ = _
    rw [hshut]
    rfl

/-- The polls of one lookup after the other add up. -/
theorem Polls.bind_add {l : Lookup α} {f : α → Lookup β} {a : α} {r : Except Failure β} {m n : Nat}
    (h : Polls l (.ok a) m) (hf : Polls (f a) r n) : Polls (l >>= f) r (m + n) where
  passes t hbudget := by
    obtain ⟨t₁, hrun₁, hpolls₁, hbudget₁⟩ := h.passes t fun b hb => by
      have := hbudget b hb
      omega
    obtain ⟨t₂, hrun₂, hpolls₂, hbudget₂⟩ := hf.passes t₁ fun b hb => by
      have := hbudget b (hbudget₁ ▸ hb)
      omega
    refine ⟨t₂, ?_, by omega, hbudget₂.trans hbudget₁⟩
    rw [run_bind, hrun₁]
    exact hrun₂
  stops t b hb hle hlt := by
    by_cases hfirst : b < t.polls + m
    · obtain ⟨t₁, hrun₁⟩ := h.stops t b hb hle hfirst
      exact ⟨t₁, by rw [run_bind, hrun₁]⟩
    · -- the first lookup is let through, so the second one is stopped
      obtain ⟨t₁, hrun₁, hpolls₁, hbudget₁⟩ := h.passes t fun b' hb' => by
        obtain rfl : b = b' := Option.some.inj (hb.symm.trans hb')
        omega
      obtain ⟨t₂, hrun₂⟩ := hf.stops t₁ b (hbudget₁.trans hb) (by omega) (by omega)
      refine ⟨t₂, ?_⟩
      rw [run_bind, hrun₁]
      exact hrun₂

/-- A lookup behind one that does not poll. -/
theorem Polls.bind_ok {l : Lookup α} {f : α → Lookup β} {a : α} {r : Except Failure β} {n : Nat}
    (h : Polls l (.ok a) 0) (hf : Polls (f a) r n) : Polls (l >>= f) r n :=
  (h.bind_add hf).congr rfl (Nat.zero_add n)

/-- A lookup in front of one that does not poll. -/
theorem Polls.bind_silent {l : Lookup α} {f : α → Lookup β} {a : α} {r : Except Failure β} {n : Nat}
    (h : Polls l (.ok a) n) (hf : Polls (f a) r 0) : Polls (l >>= f) r n := h.bind_add hf

/-- A lookup behind a poll. -/
theorem Polls.after_poll {f : Unit → Lookup β} {r : Except Failure β} {n : Nat}
    (hf : Polls (f ()) r n) : Polls (poll >>= f) r (n + 1) :=
  (polls_poll.bind_add hf).congr rfl (Nat.add_comm 1 n)

theorem Polls.bind_error {l : Lookup α} {f : α → Lookup β} {e : Failure} {n : Nat}
    (h : Polls l (.error e) n) : Polls (l >>= f) (.error e) n where
  passes t hbudget := by
    obtain ⟨t₁, hrun₁, hpolls₁, hbudget₁⟩ := h.passes t hbudget
    exact ⟨t₁, by rw [run_bind, hrun₁], hpolls₁, hbudget₁⟩
  stops t b hb hle hlt := by
    obtain ⟨t₁, hrun₁⟩ := h.stops t b hb hle hlt
    exact ⟨t₁, by rw [run_bind, hrun₁]⟩

/-- The polls of a list of lookups that all succeed. -/
theorem polls_mapM_ok {f : α → Lookup β} {count : α → Nat} {xs : List α} {ys : List β}
    (h : List.Forall₂ (fun x y => Polls (f x) (.ok y) (count x)) xs ys) :
    Polls (xs.mapM f) (.ok ys) (xs.map count).sum := by
  induction h with
  | nil => exact polls_pure []
  | cons hxy _ ih =>
      rw [List.mapM_cons, List.map_cons, List.sum_cons]
      exact hxy.bind_add (ih.bind_silent (polls_pure _))

/-- The same number of polls for each member of a list. -/
theorem polls_mapM_const {f : α → Lookup β} {n : Nat} {xs : List α} {ys : List β}
    (h : List.Forall₂ (fun x y => Polls (f x) (.ok y) n) xs ys) :
    Polls (xs.mapM f) (.ok ys) (xs.length * n) := by
  have hsum : Polls (xs.mapM f) (.ok ys) (xs.map fun _ => n).sum := polls_mapM_ok h
  rwa [List.map_const', List.sum_replicate_nat] at hsum

/-! ## Lookups that do not poll -/

/-- The lookup does not poll, whatever it comes to. -/
def Silent (l : Lookup α) : Prop := ∃ r, Polls l r 0

theorem Silent.polls {l : Lookup α} {r : Except Failure α} (h : Silent l) (hr : Gives l r) :
    Polls l r 0 := by
  obtain ⟨r', hr'⟩ := h
  exact hr'.congr (hr'.gives.unique hr) rfl

theorem Silent.gives {l : Lookup α} (h : Silent l) : Gives l (l.outcome none).1 := by
  obtain ⟨r, hr⟩ := h
  exact hr.gives.outcome ▸ hr.gives

theorem silent_bind {l : Lookup α} {f : α → Lookup β} (h : Silent l) (hf : ∀ a, Silent (f a)) :
    Silent (l >>= f) := by
  obtain ⟨r, hr⟩ := h
  cases r with
  | error e => exact ⟨_, hr.bind_error⟩
  | ok a =>
      obtain ⟨r', hr'⟩ := hf a
      exact ⟨r', hr.bind_ok hr'⟩

theorem silent_foldlM {f : β → α → Lookup β} (hf : ∀ b x, Silent (f b x)) (xs : List α) (b : β) :
    Silent (xs.foldlM f b) := by
  induction xs generalizing b with
  | nil => exact ⟨_, polls_pure b⟩
  | cons x xs ih =>
      rw [List.foldlM_cons]
      exact silent_bind (hf b x) ih

/-! ## Cancellation -/

/-- Cancelling a lookup is all or nothing: it polls `n` times, a budget of fewer polls cancels it, and
any other budget leaves its outcome as it is. -/
structure AllOrNothing (l : Lookup α) (n : Nat) : Prop where
  polls : (l.outcome none).2.polls = n
  cancelled_iff : ∀ budget, (l.outcome (some budget)).1 = .error .cancelled ↔ budget < n
  outcome_eq : ∀ budget, n ≤ budget → (l.outcome (some budget)).1 = (l.outcome none).1

/-- The poll that a budget does not let through cancels the lookup. -/
theorem Polls.outcome_of_lt {l : Lookup α} {r : Except Failure α} {n budget : Nat} (h : Polls l r n)
    (hlt : budget < n) : (l.outcome (some budget)).1 = .error .cancelled := by
  obtain ⟨t, hrun⟩ := h.stops { budget := some budget } budget rfl (Nat.zero_le _) (by simpa using hlt)
  exact congrArg Prod.fst hrun

/-- **A lookup that polls `n` times is cancelled by fewer than `n` polls and by nothing else.** -/
theorem Polls.allOrNothing {l : Lookup α} {r : Except Failure α} {n : Nat} (h : Polls l r n)
    (hr : r ≠ .error .cancelled) : AllOrNothing l n := by
  have hpass : ∀ budget : Option Nat, (∀ b ∈ budget, n ≤ b) → ∃ t, l.outcome budget = (r, t) ∧
      t.polls = n := by
    intro budget hbudget
    obtain ⟨t, hrun, hpolls, -⟩ := h.passes { budget } (by simpa using hbudget)
    exact ⟨t, hrun, by simpa using hpolls⟩
  obtain ⟨t, hfree, hpolls⟩ := hpass none (by simp)
  have hcovered : ∀ budget, n ≤ budget → (l.outcome (some budget)).1 = r := by
    intro budget hbudget
    obtain ⟨t, hrun, -⟩ := hpass (some budget) (by simpa using hbudget)
    rw [hrun]
  refine ⟨by rw [hfree]; exact hpolls, fun budget => ⟨?_, h.outcome_of_lt⟩, fun budget hbudget => ?_⟩
  · intro hcancelled
    by_contra hlt
    exact hr ((hcovered budget (Nat.le_of_not_lt hlt)).symm.trans hcancelled)
  · rw [hcovered budget hbudget, hfree]

end ServiceKeys.Lookup
