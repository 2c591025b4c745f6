/-
The binary search of a partition point: the first index of a range at which a
test that holds up to some point fails.

The loop halves the length of the range still to be searched.  Its fuel is
that length, which shrinks in every turn, so it never runs out.
-/
import Mathlib.Data.Nat.Basic
import Mathlib.Tactic.Common

namespace RunD

/-- One loop over `length` indices from `first` on; `below` is asked at the middle. -/
def partitionLoop (below : Nat → Bool) : Nat → Nat → Nat → Nat
  | 0, first, _ => first
  | fuel + 1, first, length =>
      if length = 0 then first
      else
        let half := length / 2
        let middle := first + half
        if below middle then partitionLoop below fuel (middle + 1) (length - (half + 1))
        else partitionLoop below fuel first half

/-- The first of `length` indices from `first` on where `below` fails. -/
def partitionPoint (below : Nat → Bool) (first length : Nat) : Nat :=
  partitionLoop below length first length

/-- `r` is the end of the indices from `first` on, before `last`, where `below` holds. -/
structure PartitionPoint (below : Nat → Bool) (first last r : Nat) : Prop where
  first_le : first ≤ r
  le_last : r ≤ last
  holds : ∀ i, first ≤ i → i < r → below i = true
  fails : ∀ i, r ≤ i → i < last → below i = false

theorem partitionPoint_empty (below : Nat → Bool) (first : Nat) :
    PartitionPoint below first first first :=
  ⟨le_rfl, le_rfl, fun _ h₁ h₂ => absurd h₂ (Nat.not_lt.mpr h₁),
    fun _ h₁ h₂ => absurd h₂ (Nat.not_lt.mpr h₁)⟩

theorem partitionLoop_spec {below : Nat → Bool} {fuel first length : Nat} (hfuel : length ≤ fuel)
    (hmono : ∀ i j, first ≤ i → i ≤ j → j < first + length → below j = true → below i = true) :
    PartitionPoint below first (first + length) (partitionLoop below fuel first length) := by
  induction fuel generalizing first length with
  | zero =>
      obtain rfl : length = 0 := by omega
      exact partitionPoint_empty below first
  | succ fuel ih =>
      rw [partitionLoop]
      split
      · next h0 =>
        subst h0
        exact partitionPoint_empty below first
      · next h0 =>
        dsimp only
        split
        · next hbelow =>
          -- the test holds at the middle, so it holds before it as well
          have hrest := @ih (first + length / 2 + 1) (length - (length / 2 + 1)) (by omega)
            fun i j hi hij hj => hmono i j (by omega) hij (by omega)
          rw [show first + length / 2 + 1 + (length - (length / 2 + 1)) = first + length by
            omega] at hrest
          refine ⟨Nat.le_trans (by omega) hrest.first_le, hrest.le_last, fun i hi hlt => ?_,
            hrest.fails⟩
          rcases Nat.lt_or_ge i (first + length / 2 + 1) with hlow | hhigh
          · exact hmono i (first + length / 2) hi (by omega) (by omega) hbelow
          · exact hrest.holds i hhigh hlt
        · next hbelow =>
          -- it fails at the middle, so it fails behind it as well
          have hrest := @ih first (length / 2) (by omega)
            fun i j hi hij hj => hmono i j hi hij (by omega)
          refine ⟨hrest.first_le, Nat.le_trans hrest.le_last (by omega), hrest.holds,
            fun i hi hlt => ?_⟩
          rcases Nat.lt_or_ge i (first + length / 2) with hlow | hhigh
          · exact hrest.fails i hi hlow
          · by_contra htrue
            exact hbelow (hmono (first + length / 2) i (by omega) hhigh hlt (by simpa using htrue))

theorem partitionPoint_spec {below : Nat → Bool} {first length : Nat}
    (hmono : ∀ i j, first ≤ i → i ≤ j → j < first + length → below j = true → below i = true) :
    PartitionPoint below first (first + length) (partitionPoint below first length) :=
  partitionLoop_spec le_rfl hmono

/-- There is only one such index. -/
theorem PartitionPoint.unique {below : Nat → Bool} {first last r r' : Nat}
    (h : PartitionPoint below first last r) (h' : PartitionPoint below first last r') : r = r' := by
  have key : ∀ {a b : Nat}, PartitionPoint below first last a → PartitionPoint below first last b →
      ¬ a < b := by
    intro a b ha hb hlt
    have htrue := hb.holds a ha.first_le hlt
    have hfalse := ha.fails a le_rfl (lt_of_lt_of_le hlt hb.le_last)
    rw [htrue] at hfalse
    exact absurd hfalse (by decide)
  exact Nat.le_antisymm (Nat.not_lt.mp (key h' h)) (Nat.not_lt.mp (key h h'))

end RunD
