/-
The work of packets, added up with saturation.

The planner's builders read the work of a packet with zero counted as one and
add work up in 64-bit words that stay at their maximum.  Here the saturating
operations are brought down to sums of natural numbers: `workBefore` is the work
of the packets before a place, and a loop that adds up the packets of a range
holds the difference of two of its values.
-/
import RunD.PartitionPlan

namespace RunD.Planner

/-! ### Saturating words -/

/-- `ScalarSatSub`. -/
def scalarSatSub (value amount : UInt64) : UInt64 :=
  value - if amount > value then value else amount

/-- `ScalarSatMul`. -/
def scalarSatMul (lhs rhs : UInt64) : UInt64 :=
  if lhs ≠ 0 ∧ rhs > 0xFFFFFFFFFFFFFFFF / lhs then 0xFFFFFFFFFFFFFFFF else lhs * rhs

theorem toNat_scalarSatSub (value amount : UInt64) :
    (scalarSatSub value amount).toNat = value.toNat - amount.toNat := by
  rw [scalarSatSub]
  by_cases h : amount > value
  · rw [if_pos h, UInt64.sub_self]
    rw [gt_iff_lt, UInt64.lt_iff_toNat_lt] at h
    exact (Nat.sub_eq_zero_of_le h.le).symm
  · rw [if_neg h]
    exact UInt64.toNat_sub_of_le _ _ (UInt64.le_iff_toNat_le.mpr
      (not_lt.mp fun hlt => h (UInt64.lt_iff_toNat_lt.mpr hlt)))

/-- The product of two words as long as it is a word. -/
theorem toNat_scalarSatMul_fits {lhs rhs : UInt64} (h : lhs.toNat * rhs.toNat < 2 ^ 64) :
    (scalarSatMul lhs rhs).toNat = lhs.toNat * rhs.toNat := by
  have hno : ¬ (lhs ≠ 0 ∧ rhs > 0xFFFFFFFFFFFFFFFF / lhs) := by
    rintro ⟨hne, hlarge⟩
    have hpos : 0 < lhs.toNat := Nat.pos_of_ne_zero fun h0 => hne (UInt64.toNat_inj.mp h0)
    rw [gt_iff_lt, UInt64.lt_iff_toNat_lt, UInt64.toNat_div,
      Nat.div_lt_iff_lt_mul hpos] at hlarge
    rw [Nat.mul_comm] at hlarge
    have hmax : (0xFFFFFFFFFFFFFFFF : UInt64).toNat = 2 ^ 64 - 1 := rfl
    omega
  rw [scalarSatMul, if_neg hno, UInt64.toNat_mul, Nat.mod_eq_of_lt h]

/-- The product of two words, the largest word when it is none. -/
theorem toNat_scalarSatMul (lhs rhs : UInt64) :
    (scalarSatMul lhs rhs).toNat = min maxLoad (lhs.toNat * rhs.toNat) := by
  by_cases hfits : lhs.toNat * rhs.toNat < 2 ^ 64
  · rw [toNat_scalarSatMul_fits hfits, min_eq_right]
    rw [maxLoad]
    omega
  · have hmax : (0xFFFFFFFFFFFFFFFF : UInt64).toNat = 2 ^ 64 - 1 := rfl
    have hpos : 0 < lhs.toNat := by
      apply Nat.pos_of_ne_zero
      intro hzero
      rw [hzero, Nat.zero_mul] at hfits
      exact hfits (by decide)
    have hover : lhs ≠ 0 ∧ rhs > 0xFFFFFFFFFFFFFFFF / lhs := by
      constructor
      · rintro rfl
        exact absurd hpos (lt_irrefl _)
      · rw [gt_iff_lt, UInt64.lt_iff_toNat_lt, UInt64.toNat_div, hmax,
          Nat.div_lt_iff_lt_mul hpos, Nat.mul_comm]
        omega
    rw [scalarSatMul, if_pos hover, hmax, maxLoad]
    omega

/-! ### The work before a place -/

/-- The work of a packet: its units, with zero counted as one. -/
def workOf (works : List UInt64) (packet : ℕ) : ℕ :=
  (normalizeWorkUnits (works.getD packet 0)).toNat

/-- The work of the packets before `place`. -/
def workBefore (works : List UInt64) (place : ℕ) : ℕ := cutOfWidths (workOf works) place

@[simp] theorem workBefore_zero (works : List UInt64) : workBefore works 0 = 0 := rfl

theorem workBefore_succ (works : List UInt64) (place : ℕ) :
    workBefore works (place + 1) = workBefore works place + workOf works place :=
  cutOfWidths_succ _ _

theorem workBefore_mono (works : List UInt64) {a b : ℕ} (h : a ≤ b) :
    workBefore works a ≤ workBefore works b := cutOfWidths_mono _ h

theorem toNat_normalize {works : List UInt64} {packet : ℕ} {units : UInt64}
    (h : works[packet]? = some units) : (normalizeWorkUnits units).toNat = workOf works packet := by
  rw [workOf, List.getD_eq_getElem?_getD, h]
  rfl

/-- The saturating sum of the work of all packets. -/
def totalWork (works : List UInt64) : UInt64 :=
  works.foldl (fun total units => scalarSatAdd total (normalizeWorkUnits units)) 0

theorem toNat_totalWork (works : List UInt64) :
    (totalWork works).toNat = min maxLoad (workBefore works works.length) := by
  have hprefix : ∀ m, m ≤ works.length →
      ((works.take m).foldl (fun total units => scalarSatAdd total (normalizeWorkUnits units))
        0).toNat = min maxLoad (workBefore works m) := by
    intro m hm
    induction m with
    | zero => rw [List.take_zero, List.foldl_nil, workBefore_zero, Nat.min_zero]; rfl
    | succ m ih =>
        obtain ⟨units, hget⟩ : ∃ units, works[m]? = some units :=
          ⟨works[m], List.getElem?_eq_getElem hm⟩
        -- rewritten step by step: the kernel must not evaluate a saturating sum
        rw [List.take_add_one, hget, Option.toList_some, List.foldl_append, List.foldl_cons,
          List.foldl_nil, toNat_scalarSatAdd, ih (Nat.le_of_succ_le hm), toNat_normalize hget,
          workBefore_succ]
        omega
  have hall := hprefix works.length (le_refl _)
  rw [List.take_length] at hall
  rw [totalWork, hall]

end RunD.Planner
