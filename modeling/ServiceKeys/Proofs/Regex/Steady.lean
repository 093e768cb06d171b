import Mathlib.Data.List.Forall2
import ServiceKeys.Proofs.Regex.Numbering

/-!
# Patterns without one of their groups

When a group is taken out of a pattern, what refers to it has nothing to refer to, and the groups behind it
are numbered one lower.  A recall by name still finds its group; a number that is written does not.  A
pattern is `Steady` if it suffers neither, and if the width of each of its looks back is its own: what is
looked back over is `Free` of the group and of recalls, so it is as wide as before.
-/

namespace ServiceKeys.Regex

open Reader

/-! ## Widths without references -/

def freeAt (k : Nat) : Regex → Prop
  | .group i _ => i ≠ k
  | .recall _ _ => False
  | _ => True

instance (k : Nat) : DecidablePred (freeAt k)
  | .group i _ => inferInstanceAs (Decidable (i ≠ k))
  | .recall _ _ => .isFalse id
  | .empty | .one _ | .span _ _ _ _ | .seq _ _ | .alt _ _ | .loop _ _ _ _ | .atomic _ | .look _ _ _ | .branch _ _ _
  | .anchor _ => .isTrue trivial

/-- The group `k` is not there, and nothing that is remembered is used. -/
def Free (k : Nat) (r : Regex) : Prop := All (freeAt k) r

/-- Two patterns have the same width, whatever is known about groups. -/
def SameWidth (r r₂ : Regex) : Prop := ∀ g g₂ : Nat → Width, r₂.width g₂ = r.width g

/-- The width of a free pattern is its own. -/
theorem Free.sameWidth {k : Nat} {r : Regex} (h : Free k r) : SameWidth r r := by
  intro g g₂
  induction r with
  | seq a b iha ihb => rw [width, width, iha h.1, ihb h.2]
  | alt a b iha ihb => rw [width, width, iha h.1, ihb h.2]
  | loop r lo hi mode ih => rw [width, width, ih h]
  | atomic r ih => exact ih h
  | group i r ih => exact ih h.2
  | «recall» i rule => exact h.elim
  | branch i yes no ihyes ihno => rw [width, width, ihyes h.2.1, ihno h.2.2]
  | _ => rfl

theorem sameWidth_repeated {r r₂ : Regex} (h : SameWidth r r₂) (b : Bounds) (mode : Mode) :
    SameWidth (repeated r b mode) (repeated r₂ b mode) := by
  have hwidth : ∀ (r : Regex) g, (repeated r b mode).width g = (r.width g).times b.lo b.hi := by
    intro r g
    cases r <;> rfl
  intro g g₂
  rw [hwidth, hwidth, h g g₂]

theorem sameWidth_ofList {rs rs₂ : List Regex} (h : List.Forall₂ SameWidth rs rs₂) :
    SameWidth (ofList rs) (ofList rs₂) := by
  induction h with
  | nil => exact fun _ _ => rfl
  | cons hr hrs ih =>
      cases hrs with
      | nil => exact hr
      | cons => exact fun g g₂ => congrArg₂ Width.add (hr g g₂) (ih g g₂)

theorem sameWidth_anyOf {rs rs₂ : List Regex} (h : List.Forall₂ SameWidth rs rs₂) :
    SameWidth (anyOf rs) (anyOf rs₂) := by
  induction h with
  | nil => exact fun _ _ => rfl
  | cons hr hrs ih =>
      cases hrs with
      | nil => exact hr
      | cons => exact fun g g₂ => congrArg₂ Width.either (hr g g₂) (ih g g₂)

/-- Alternatives the items of which have the same widths, one by one. -/
def SameWidths (alts alts₂ : List (List Item)) : Prop :=
  List.Forall₂ (List.Forall₂ fun i i₂ => SameWidth i.node i₂.node) alts alts₂

theorem SameWidths.assemble {alts alts₂ : List (List Item)} (h : SameWidths alts alts₂) :
    SameWidth (assemble alts) (assemble alts₂) := by
  refine sameWidth_anyOf (List.rel_map (fun items items₂ hitems => sameWidth_ofList ?_) (List.rel_reverse h))
  exact List.rel_map (P := SameWidth) (fun _ _ hnode => hnode) (List.rel_reverse hitems)

/-! ## References that stay -/

def steadyAt (k : Nat) (ns : List Nat) : Regex → Prop
  | .recall i _ => Kept k ns i
  | .branch i _ _ => Kept k ns i
  | .look (some _) _ r => Free k r
  | _ => True

instance (k : Nat) (ns : List Nat) : DecidablePred (steadyAt k ns)
  | .recall i _ => inferInstanceAs (Decidable (Kept k ns i))
  | .branch i _ _ => inferInstanceAs (Decidable (Kept k ns i))
  | .look (some _) _ r => inferInstanceAs (Decidable (All (freeAt k) r))
  | .look none _ _ | .empty | .one _ | .span _ _ _ _ | .seq _ _ | .alt _ _ | .group _ _ | .loop _ _ _ _ | .atomic _
  | .anchor _ => .isTrue trivial

/-- The group `k` is not referred to, no group behind it is if its number is one of `ns`, and looks back are
free. -/
def Steady (k : Nat) (ns : List Nat) (r : Regex) : Prop := All (steadyAt k ns) r

instance (k : Nat) (ns : List Nat) : DecidablePred (Steady k ns) := fun r =>
  inferInstanceAs (Decidable (All (steadyAt k ns) r))

end ServiceKeys.Regex
