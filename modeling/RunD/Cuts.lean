/-
Cutting a row of places into consecutive parts.

A cut of `n` places into `k` parts is given by where the parts start: part `i`
is the half-open range from `cut i` to `cut (i + 1)`.  `Cuts` says that the
parts are nonempty, follow each other and exhaust the places; every place then
lies in exactly one part (`Cuts.covers`).

Three ways to come by a cut are collected here: by the widths of the parts, by
dealing the places out evenly, and by scaling another cut.  `widestPart` is the
width that a loop over the parts finds to be the largest.
-/
import Mathlib.Algebra.BigOperators.Group.Finset.Basic
import Mathlib.Algebra.Order.Ring.Nat
import Mathlib.Tactic.Ring

namespace RunD

open Finset

/-- `cut` cuts `n` places into `k` nonempty consecutive parts. -/
structure Cuts (cut : ℕ → ℕ) (k n : ℕ) : Prop where
  start : cut 0 = 0
  stop : cut k = n
  step : ∀ i, i < k → cut i < cut (i + 1)

instance (cut : ℕ → ℕ) (k n : ℕ) : Decidable (Cuts cut k n) :=
  decidable_of_iff (cut 0 = 0 ∧ cut k = n ∧ ∀ i, i < k → cut i < cut (i + 1))
    ⟨fun ⟨h0, hk, hstep⟩ => ⟨h0, hk, hstep⟩, fun ⟨h0, hk, hstep⟩ => ⟨h0, hk, hstep⟩⟩

variable {cut : ℕ → ℕ} {k n : ℕ}

namespace Cuts

theorem mono (h : Cuts cut k n) {i j : ℕ} (hij : i ≤ j) (hj : j ≤ k) : cut i ≤ cut j := by
  induction j, hij using Nat.le_induction with
  | base => exact le_refl _
  | succ j _ ih => exact le_trans (ih (Nat.le_of_succ_le hj)) (h.step j hj).le

theorem le (h : Cuts cut k n) {i : ℕ} (hi : i ≤ k) : cut i ≤ n := by
  rw [← h.stop]
  exact h.mono hi (le_refl k)

/-- Some parts in a row have at least one place each. -/
theorem add_le (h : Cuts cut k n) {i d : ℕ} (hd : i + d ≤ k) : cut i + d ≤ cut (i + d) := by
  induction d with
  | zero => exact le_refl _
  | succ d ih =>
      calc cut i + (d + 1) ≤ cut (i + d) + 1 := Nat.add_le_add_right (ih (Nat.le_of_succ_le hd)) 1
        _ ≤ cut (i + d + 1) := h.step (i + d) hd

/-- The parts before a cut have at least one place each. -/
theorem self_le (h : Cuts cut k n) {i : ℕ} (hi : i ≤ k) : i ≤ cut i := by
  have hrow := h.add_le (i := 0) (d := i) (by rwa [Nat.zero_add])
  rwa [h.start, Nat.zero_add] at hrow

/-- The parts still to come leave room for one place each. -/
theorem room (h : Cuts cut k n) {i : ℕ} (hi : i ≤ k) : cut i + (k - i) ≤ n := by
  have hrow := h.add_le (i := i) (d := k - i) (Nat.add_sub_cancel' hi).le
  rwa [Nat.add_sub_cancel' hi, h.stop] at hrow

theorem parts_le (h : Cuts cut k n) : k ≤ n := by
  have := h.room (Nat.zero_le k)
  omega

/-- Every place lies in exactly one part. -/
theorem covers (h : Cuts cut k n) {p : ℕ} (hp : p < n) :
    ∃! i, i < k ∧ cut i ≤ p ∧ p < cut (i + 1) := by
  -- the part is the one before the first cut past the place
  have hsome : ∃ i, p < cut (i + 1) ∨ k ≤ i := ⟨k, Or.inr (le_refl k)⟩
  have hfirst := Nat.find_spec hsome
  have hbefore : ∀ {i}, i < Nat.find hsome → ¬ (p < cut (i + 1) ∨ k ≤ i) := Nat.find_min hsome
  generalize Nat.find hsome = i at hfirst hbefore
  have hlow : cut i ≤ p := by
    cases i with
    | zero => rw [h.start]; exact Nat.zero_le p
    | succ i => exact not_lt.mp fun hlt => hbefore (Nat.lt_succ_self i) (Or.inl hlt)
  have hi : i < k := by
    apply not_le.mp
    intro hk
    have hki : i ≤ k := by
      cases i with
      | zero => exact Nat.zero_le k
      | succ i => exact not_le.mp fun hle => hbefore (Nat.lt_succ_self i) (Or.inr hle)
    rw [le_antisymm hki hk, h.stop] at hlow
    exact absurd hp (not_lt.mpr hlow)
  refine ⟨i, ⟨hi, hlow, hfirst.resolve_right (not_le.mpr hi)⟩, ?_⟩
  rintro j ⟨hj, hjlow, hjhigh⟩
  rcases lt_trichotomy j i with hji | hji | hji
  · exact absurd (Or.inl hjhigh) (hbefore hji)
  · exact hji
  · have := h.mono (i := i + 1) (j := j) hji hj.le
    have := hfirst.resolve_right (not_le.mpr hi)
    omega

/-- Scaling a cut keeps it a cut. -/
theorem scale (h : Cuts cut k n) {a : ℕ} (ha : 0 < a) :
    Cuts (fun i => cut i * a) k (n * a) where
  start := by rw [h.start, Nat.zero_mul]
  stop := by rw [h.stop]
  step i hi := Nat.mul_lt_mul_of_pos_right (h.step i hi) ha

/-- Where the parts start fixes the cut. -/
theorem congr (h : Cuts cut k n) {cut' : ℕ → ℕ} (heq : ∀ i, i ≤ k → cut' i = cut i) :
    Cuts cut' k n where
  start := by rw [heq 0 (Nat.zero_le k), h.start]
  stop := by rw [heq k (le_refl k), h.stop]
  step i hi := by
    rw [heq i hi.le, heq (i + 1) hi]
    exact h.step i hi

end Cuts

/-! ### The widest part -/

/-- The width of the widest of the first `m` parts. -/
def widestPart (cut : ℕ → ℕ) : ℕ → ℕ
  | 0 => 0
  | m + 1 => max (widestPart cut m) (cut (m + 1) - cut m)

@[simp] theorem widestPart_zero (cut : ℕ → ℕ) : widestPart cut 0 = 0 := rfl

@[simp] theorem widestPart_succ (cut : ℕ → ℕ) (m : ℕ) :
    widestPart cut (m + 1) = max (widestPart cut m) (cut (m + 1) - cut m) := rfl

/-! ### By widths -/

/-- Where the parts start that have the given widths. -/
def cutOfWidths (width : ℕ → ℕ) (i : ℕ) : ℕ := ∑ j ∈ range i, width j

@[simp] theorem cutOfWidths_zero (width : ℕ → ℕ) : cutOfWidths width 0 = 0 := rfl

@[simp] theorem cutOfWidths_succ (width : ℕ → ℕ) (i : ℕ) :
    cutOfWidths width (i + 1) = cutOfWidths width i + width i := sum_range_succ _ _

theorem cutOfWidths_mono (width : ℕ → ℕ) {i j : ℕ} (hij : i ≤ j) :
    cutOfWidths width i ≤ cutOfWidths width j := by
  induction j, hij using Nat.le_induction with
  | base => exact le_refl _
  | succ j _ ih =>
      rw [cutOfWidths_succ]
      exact le_trans ih (Nat.le_add_right _ _)

theorem cutOfWidths_le {width width' : ℕ → ℕ} (h : ∀ i, i < k → width i ≤ width' i) :
    cutOfWidths width k ≤ cutOfWidths width' k := by
  induction k with
  | zero => exact le_refl 0
  | succ k ih =>
      rw [cutOfWidths_succ, cutOfWidths_succ]
      exact Nat.add_le_add (ih fun i hi => h i (Nat.lt_succ_of_lt hi)) (h k (Nat.lt_succ_self k))

theorem cuts_cutOfWidths {width : ℕ → ℕ} (hpos : ∀ i, i < k → 0 < width i) :
    Cuts (cutOfWidths width) k (cutOfWidths width k) where
  start := rfl
  stop := rfl
  step i hi := by
    rw [cutOfWidths_succ]
    exact Nat.lt_add_of_pos_right (hpos i hi)

/-! ### Evenly -/

/-- Dealing `n` places to `k` parts: the first `n % k` parts get one place more. -/
def evenCut (n k i : ℕ) : ℕ := i * (n / k) + min i (n % k)

theorem evenCut_succ (n k i : ℕ) :
    evenCut n k (i + 1) = evenCut n k i + (n / k + if i < n % k then 1 else 0) := by
  rw [evenCut, evenCut, Nat.add_mul, Nat.one_mul]
  by_cases h : i < n % k
  · rw [if_pos h, min_eq_left h, min_eq_left h.le]
    omega
  · rw [if_neg h, min_eq_right (not_lt.mp h), min_eq_right (Nat.le_succ_of_le (not_lt.mp h))]
    omega

theorem cuts_evenCut (hk : 0 < k) (hkn : k ≤ n) : Cuts (evenCut n k) k n where
  start := by rw [evenCut, Nat.zero_mul, Nat.zero_min]
  stop := by
    rw [evenCut, min_eq_right (Nat.mod_lt n hk).le]
    exact Nat.div_add_mod n k
  step i _ := by
    rw [evenCut_succ]
    have : 0 < n / k := Nat.div_pos hkn hk
    omega

/-- The parts of an even cut differ by at most one place. -/
theorem evenCut_balanced (n k i j : ℕ) :
    evenCut n k (i + 1) - evenCut n k i ≤ evenCut n k (j + 1) - evenCut n k j + 1 := by
  rw [evenCut_succ, evenCut_succ, Nat.add_sub_cancel_left, Nat.add_sub_cancel_left]
  split
  · omega
  · omega

end RunD
