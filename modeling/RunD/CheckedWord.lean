/-
Guarded arithmetic on 64-bit words: the predicates that say whether a sum or a
product fits, and the ceiling of a quotient.

A word operation that passed its guard is the operation on natural numbers;
that is all the later modules use of it.
-/
import Mathlib.Algebra.Order.Ring.Nat
import Mathlib.Tactic.Common

namespace RunD

/-- `checked::add`: the sum of the words is a word. -/
def checkedAdd (left right : UInt64) : Bool := left ≤ ~~~0 - right

/-- `checked::mul`: the product of the words is a word. -/
def checkedMul (left right : UInt64) : Bool := right == 0 || left ≤ ~~~0 / right

/-- `checked::ceil`: the quotient rounded up, zero for a zero divisor. -/
def checkedCeil (value divisor : UInt64) : UInt64 :=
  if divisor = 0 then 0 else value / divisor + (if value % divisor ≠ 0 then 1 else 0)

/-- `counter::SaturatingAdd`: a counter that has reached its maximum stays there. -/
def counterSaturatingAdd (left right : UInt64) : UInt64 :=
  if right > ~~~0 - left then ~~~0 else left + right

theorem allOnes_toNat : (~~~0 : UInt64).toNat = 2 ^ 64 - 1 := by decide

theorem toNat_counterSaturatingAdd (left right : UInt64) :
    (counterSaturatingAdd left right).toNat =
      min (left.toNat + right.toNat) (2 ^ 64 - 1) := by
  have hl := left.toNat_lt
  have hsub : (~~~0 - left).toNat = 2 ^ 64 - 1 - left.toNat := by
    rw [UInt64.toNat_sub_of_le, allOnes_toNat]
    rw [UInt64.le_iff_toNat_le, allOnes_toNat]
    omega
  unfold counterSaturatingAdd
  by_cases hover : right > ~~~0 - left
  · rw [if_pos hover, allOnes_toNat]
    rw [gt_iff_lt, UInt64.lt_iff_toNat_lt, hsub] at hover
    omega
  · rw [if_neg hover, UInt64.toNat_add]
    rw [gt_iff_lt, UInt64.lt_iff_toNat_lt, hsub] at hover
    rw [Nat.mod_eq_of_lt (by omega)]
    omega

theorem checkedAdd_iff {left right : UInt64} :
    checkedAdd left right = true ↔ left.toNat + right.toNat < 2 ^ 64 := by
  have hr := right.toNat_lt
  have hsub : (~~~0 - right).toNat = 2 ^ 64 - 1 - right.toNat := by
    rw [UInt64.toNat_sub_of_le, allOnes_toNat]
    rw [UInt64.le_iff_toNat_le, allOnes_toNat]
    omega
  rw [checkedAdd, decide_eq_true_iff, UInt64.le_iff_toNat_le, hsub]
  omega

theorem toNat_add_of_fits {left right : UInt64} (h : left.toNat + right.toNat < 2 ^ 64) :
    (left + right).toNat = left.toNat + right.toNat := by
  rw [UInt64.toNat_add, Nat.mod_eq_of_lt h]

theorem toNat_mul_of_fits {left right : UInt64} (h : left.toNat * right.toNat < 2 ^ 64) :
    (left * right).toNat = left.toNat * right.toNat := by
  rw [UInt64.toNat_mul, Nat.mod_eq_of_lt h]

theorem checkedMul_iff {left right : UInt64} :
    checkedMul left right = true ↔ left.toNat * right.toNat < 2 ^ 64 := by
  rw [checkedMul, Bool.or_eq_true, beq_iff_eq, decide_eq_true_iff, UInt64.le_iff_toNat_le,
    UInt64.toNat_div, allOnes_toNat]
  by_cases hzero : right = 0
  · simp [hzero]
  · have hpos : 0 < right.toNat :=
      Nat.pos_of_ne_zero fun h => hzero (UInt64.toNat_inj.mp h)
    rw [or_iff_right hzero, Nat.le_div_iff_mul_le hpos]
    omega

/-- The rounded quotient never leaves the words: it is at most the dividend. -/
theorem checkedCeil_toNat {value divisor : UInt64} (h : divisor ≠ 0) :
    (checkedCeil value divisor).toNat =
      value.toNat / divisor.toNat + (if value.toNat % divisor.toNat = 0 then 0 else 1) := by
  have hpos : 0 < divisor.toNat :=
    Nat.pos_of_ne_zero fun hz => h (UInt64.toNat_inj.mp hz)
  have hv := value.toNat_lt
  have hle : value.toNat / divisor.toNat ≤ value.toNat := Nat.div_le_self _ _
  rw [checkedCeil, if_neg h]
  by_cases hmod : value % divisor = 0
  · have hmod' : value.toNat % divisor.toNat = 0 := by
      rw [← UInt64.toNat_mod, hmod]
      rfl
    rw [if_neg (not_not_intro hmod), if_pos hmod', UInt64.add_zero, UInt64.toNat_div,
      Nat.add_zero]
  · have hmod' : value.toNat % divisor.toNat ≠ 0 := fun hz =>
      hmod (UInt64.toNat_inj.mp (by rw [UInt64.toNat_mod, hz]; rfl))
    -- a remainder is only left when the divisor is not one, so the quotient is not the dividend
    have hlt : value.toNat / divisor.toNat < value.toNat := by
      apply Nat.div_lt_self
      · exact Nat.pos_of_ne_zero fun hz => hmod' (by rw [hz, Nat.zero_mod])
      · exact Nat.lt_of_le_of_ne hpos fun hone => hmod' (by rw [← hone, Nat.mod_one])
    rw [if_pos hmod, if_neg hmod', toNat_add_of_fits, UInt64.toNat_div]
    · rfl
    · rw [UInt64.toNat_div]
      show _ + 1 < _
      omega

/-! ### The smaller and the larger word -/

theorem toNat_max_word (a b : UInt64) : (max a b).toNat = max a.toNat b.toNat := by
  show (if a ≤ b then b else a).toNat = _
  by_cases h : a ≤ b
  · rw [if_pos h]
    rw [UInt64.le_iff_toNat_le] at h
    omega
  · rw [if_neg h]
    rw [UInt64.le_iff_toNat_le] at h
    omega

theorem toNat_min_word (a b : UInt64) : (min a b).toNat = min a.toNat b.toNat := by
  show (if a ≤ b then a else b).toNat = _
  by_cases h : a ≤ b
  · rw [if_pos h]
    rw [UInt64.le_iff_toNat_le] at h
    omega
  · rw [if_neg h]
    rw [UInt64.le_iff_toNat_le] at h
    omega

/-! ### Windows -/

/-- The rounded quotient is the least number of windows that hold all items. -/
theorem ceil_le_iff {total width count : Nat} (hwidth : 0 < width) :
    total / width + (if total % width = 0 then 0 else 1) ≤ count ↔ total ≤ count * width := by
  have hsplit := Nat.div_add_mod total width
  have hmod := Nat.mod_lt total hwidth
  by_cases hrest : total % width = 0
  · rw [if_pos hrest, Nat.add_zero]
    rw [hrest, Nat.add_zero, Nat.mul_comm] at hsplit
    constructor
    · intro hle
      calc total = total / width * width := hsplit.symm
        _ ≤ count * width := Nat.mul_le_mul_right width hle
    · intro hle
      rw [← hsplit] at hle
      exact Nat.le_of_mul_le_mul_right hle hwidth
  · rw [if_neg hrest, Nat.add_one_le_iff, Nat.div_lt_iff_lt_mul hwidth]
    constructor
    · exact fun hlt => Nat.le_of_lt hlt
    · intro hle
      refine Nat.lt_of_le_of_ne hle ?_
      intro hexact
      exact hrest (by rw [hexact, Nat.mul_mod_left])

/-- Cutting `total` items into windows of `width`, every item is in exactly one of the windows
that the rounded quotient counts. -/
theorem ceil_windows_cover {total width count : Nat} (hwidth : 0 < width)
    (hcount : count = total / width + (if total % width = 0 then 0 else 1)) {item : Nat}
    (hitem : item < total) :
    ∃! k, k < count ∧ k * width ≤ item ∧ item < min ((k + 1) * width) total := by
  refine ⟨item / width, ⟨?_, Nat.div_mul_le_self item width, ?_⟩, ?_⟩
  · have hsplit := Nat.div_add_mod total width
    have hle : item / width ≤ total / width := Nat.div_le_div_right hitem.le
    by_cases hmod : total % width = 0
    · rw [if_pos hmod] at hcount
      have hlt : item / width < total / width := by
        rw [Nat.div_lt_iff_lt_mul hwidth, Nat.mul_comm]
        omega
      omega
    · rw [if_neg hmod] at hcount
      omega
  · exact lt_min (Nat.lt_mul_of_div_lt (Nat.lt_succ_self _) hwidth) hitem
  · rintro k ⟨-, hlow, hhigh⟩
    apply le_antisymm
    · exact (Nat.le_div_iff_mul_le hwidth).mpr hlow
    · exact Nat.lt_succ_iff.mp
        ((Nat.div_lt_iff_lt_mul hwidth).mpr (lt_of_lt_of_le hhigh (min_le_left _ _)))

/-- No counted window is empty. -/
theorem ceil_windows_nonempty {total width count : Nat} (hwidth : 0 < width)
    (hcount : count = total / width + (if total % width = 0 then 0 else 1)) {k : Nat}
    (hk : k < count) : k * width < total := by
  have hsplit := Nat.div_add_mod total width
  by_cases hmod : total % width = 0
  · rw [if_pos hmod] at hcount
    have hstep : (k + 1) * width ≤ total / width * width :=
      Nat.mul_le_mul_right width (by omega)
    have hexact : total / width * width = total := by rw [Nat.mul_comm]; omega
    rw [Nat.add_mul, Nat.one_mul] at hstep
    omega
  · rw [if_neg hmod] at hcount
    have hle : k * width ≤ total / width * width := Nat.mul_le_mul_right width (by omega)
    rw [Nat.mul_comm (total / width)] at hle
    omega

/-! ### Differences -/

theorem add_sub_self (base value : UInt64) : base + (value - base) = value := by
  rw [UInt64.add_comm, UInt64.sub_add_cancel]

theorem checkedAdd_sub {base value : UInt64} (h : base ≤ value) :
    checkedAdd base (value - base) = true := by
  have hvalue := value.toNat_lt
  rw [checkedAdd_iff, UInt64.toNat_sub_of_le _ _ h]
  rw [UInt64.le_iff_toNat_le] at h
  omega

/-- A difference that was added is found again. -/
theorem sub_of_checkedAdd {base delta : UInt64} (h : checkedAdd base delta = true) :
    base ≤ base + delta ∧ base + delta - base = delta := by
  have hfits := checkedAdd_iff.mp h
  refine ⟨?_, ?_⟩
  · rw [UInt64.le_iff_toNat_le, toNat_add_of_fits hfits]
    omega
  · rw [UInt64.add_comm, UInt64.add_sub_cancel]

end RunD
