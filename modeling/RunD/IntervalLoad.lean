/-
The load of a family of intervals.

Item `i` of `n` items is held from step `i` on up to and including step
`last i`, and it weighs `weight i`.  A counter that takes the weight of an item
up at its first step and drops it behind its last one is the load of the
family: it never has to drop more than it holds, and it ends at zero.
-/
import Mathlib.Algebra.Order.BigOperators.Group.Finset
import Mathlib.Algebra.BigOperators.Fin

namespace RunD

section Load

variable (n : Nat) (weight : Nat → Nat) (last : Nat → Nat)

/-- The weight of the items held at step `k`. -/
def heldDuring (k : Nat) : Nat :=
  ∑ i ∈ Finset.range n, if i ≤ k ∧ k ≤ last i then weight i else 0

/-- The weight of the items held between step `k - 1` and step `k`. -/
def heldBefore (k : Nat) : Nat :=
  ∑ i ∈ Finset.range n, if i < k ∧ k ≤ last i then weight i else 0

/-- The weight of the items whose last step is `k`. -/
def droppedAt (k : Nat) : Nat :=
  ∑ i ∈ Finset.range n, if last i = k then weight i else 0

@[simp] theorem heldBefore_zero : heldBefore n weight last 0 = 0 := by
  simp [heldBefore]

variable {n weight last}

/-- What is dropped over all the first `m` items, as the sum grows by an item. -/
theorem droppedAt_succ (m k : Nat) :
    droppedAt (m + 1) weight last k =
      droppedAt m weight last k + if last m = k then weight m else 0 := by
  rw [droppedAt, Finset.sum_range_succ]
  rfl

/-- A step takes up the weight of its own item. -/
theorem heldBefore_add {k : Nat} (hk : k < n) (hlast : k ≤ last k) :
    heldBefore n weight last k + weight k = heldDuring n weight last k := by
  have hown : weight k = ∑ i ∈ Finset.range n, if i = k then weight i else 0 := by
    rw [Finset.sum_ite_eq' (Finset.range n) k weight, if_pos (Finset.mem_range.mpr hk)]
  rw [hown, heldBefore, heldDuring, ← Finset.sum_add_distrib]
  apply Finset.sum_congr rfl
  intro i _
  rcases Nat.lt_trichotomy i k with hlt | rfl | hgt
  · simp [hlt, hlt.le, hlt.ne]
  · simp [hlast]
  · simp [hgt.not_gt, hgt.not_ge, hgt.ne']

/-- What is held at a step is dropped behind it or held on. -/
theorem heldDuring_eq {k : Nat} (hlast : ∀ i < n, i ≤ last i) :
    heldDuring n weight last k =
      droppedAt n weight last k + heldBefore n weight last (k + 1) := by
  rw [heldDuring, droppedAt, heldBefore, ← Finset.sum_add_distrib]
  apply Finset.sum_congr rfl
  intro i hi
  have hle := hlast i (Finset.mem_range.mp hi)
  rcases Nat.lt_trichotomy (last i) k with hlt | rfl | hgt
  · have hnot : ¬ k + 1 ≤ last i := by omega
    simp [hlt.not_ge, hlt.ne, hnot]
  · simp [hle]
  · have hsucc : k + 1 ≤ last i := hgt
    simp [hgt.le, hgt.ne', hsucc, Nat.lt_succ_iff]

/-- Behind the last step of all nothing is held. -/
theorem heldBefore_end (hlast : ∀ i < n, last i < n) : heldBefore n weight last n = 0 := by
  rw [heldBefore]
  apply Finset.sum_eq_zero
  intro i hi
  have hlt := hlast i (Finset.mem_range.mp hi)
  exact if_neg fun h => hlt.not_ge h.2

end Load

end RunD
