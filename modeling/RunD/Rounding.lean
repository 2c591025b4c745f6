/-
Rounding to integers in four directions.

`roundTo mode x` is the integer that `mode` makes of `x`, for `x` in any floor
ring.  A program that divides integers has a truncated quotient and a remainder,
which is a part of one on the side of zero of the quotient (`abs_tmod_div`,
`tmod_div_neg_iff`); `roundNearestEven_above` and `roundNearestEven_below` say by
twice that part which neighbour is the nearest.
-/
import Mathlib.Algebra.Order.Floor.Ring
import Mathlib.Data.Int.Basic
import Mathlib.Tactic.FieldSimp
import Mathlib.Tactic.Linarith
import Mathlib.Tactic.Ring

namespace RunD

/-- The directions of rounding. -/
inductive Rounding where
  | towardZero
  | down
  | up
  | nearestEven
  deriving DecidableEq, Repr

variable {K : Type*} [Field K] [LinearOrder K] [IsStrictOrderedRing K] [FloorRing K]

/-- The nearer of the two integers around `x`, the even one halfway. -/
def roundNearestEven (x : K) : ℤ :=
  if Int.fract x < 1 - Int.fract x then ⌊x⌋
  else if 1 - Int.fract x < Int.fract x then ⌊x⌋ + 1
  else if ⌊x⌋ % 2 = 0 then ⌊x⌋ else ⌊x⌋ + 1

/-- The integer that a direction of rounding makes of `x`. -/
def roundTo (mode : Rounding) (x : K) : ℤ :=
  match mode with
  | .towardZero => if 0 ≤ x then ⌊x⌋ else ⌈x⌉
  | .down => ⌊x⌋
  | .up => ⌈x⌉
  | .nearestEven => roundNearestEven x

/-- Integers are left alone. -/
@[simp] theorem roundTo_intCast (mode : Rounding) (n : ℤ) : roundTo mode (n : K) = n := by
  cases mode with
  | towardZero => simp [roundTo]
  | down => simp [roundTo]
  | up => simp [roundTo]
  | nearestEven =>
      rw [roundTo, roundNearestEven, Int.fract_intCast, Int.floor_intCast, if_pos (by norm_num)]

/-- A number that is not an integer, above `q` and by less than one. -/
theorem floor_ceil_of_pos {q : ℤ} {ρ : K} (h0 : 0 < ρ) (h1 : ρ < 1) :
    ⌊(q : K) + ρ⌋ = q ∧ ⌈(q : K) + ρ⌉ = q + 1 ∧ Int.fract ((q : K) + ρ) = ρ := by
  have hfloor : ⌊(q : K) + ρ⌋ = q := by
    rw [Int.floor_eq_iff]
    exact ⟨by linarith, by linarith⟩
  refine ⟨hfloor, ?_, ?_⟩
  · rw [Int.ceil_eq_iff]
    push_cast
    exact ⟨by linarith, by linarith⟩
  · rw [Int.fract, hfloor]
    ring

/-- A number that is not an integer, below `q` and by less than one. -/
theorem floor_ceil_of_neg {q : ℤ} {ρ : K} (h0 : ρ < 0) (h1 : -1 < ρ) :
    ⌊(q : K) + ρ⌋ = q - 1 ∧ ⌈(q : K) + ρ⌉ = q ∧ Int.fract ((q : K) + ρ) = 1 + ρ := by
  have hfloor : ⌊(q : K) + ρ⌋ = q - 1 := by
    rw [Int.floor_eq_iff]
    push_cast
    exact ⟨by linarith, by linarith⟩
  refine ⟨hfloor, ?_, ?_⟩
  · rw [Int.ceil_eq_iff]
    exact ⟨by linarith, by linarith⟩
  · rw [Int.fract, hfloor]
    push_cast
    ring

/-- The nearest integer of a number above `q`: the next one past halfway, and at halfway when `q` is
odd. -/
theorem roundNearestEven_above {q : ℤ} {ρ : K} (h0 : 0 < ρ) (h1 : ρ < 1) :
    roundNearestEven ((q : K) + ρ) =
      if 1 < 2 * ρ ∨ 2 * ρ = 1 ∧ q % 2 ≠ 0 then q + 1 else q := by
  obtain ⟨hfloor, -, hfract⟩ := floor_ceil_of_pos (q := q) h0 h1
  rw [roundNearestEven, hfloor, hfract]
  rcases lt_trichotomy (2 * ρ) 1 with hless | heq | hmore
  · have hno : ¬ (1 < 2 * ρ ∨ 2 * ρ = 1 ∧ q % 2 ≠ 0) := by
      rintro (h | ⟨h, -⟩)
      · exact absurd hless (not_lt.mpr h.le)
      · exact absurd hless (not_lt.mpr h.ge)
    rw [if_pos (by linarith), if_neg hno]
  · rw [if_neg (by linarith), if_neg (by linarith)]
    by_cases heven : q % 2 = 0
    · have hno : ¬ (1 < 2 * ρ ∨ 2 * ρ = 1 ∧ q % 2 ≠ 0) := by
        rintro (h | ⟨-, h⟩)
        · exact absurd heq.symm (ne_of_lt h)
        · exact h heven
      rw [if_pos heven, if_neg hno]
    · rw [if_neg heven, if_pos (Or.inr ⟨heq, heven⟩)]
  · rw [if_neg (by linarith), if_pos (by linarith), if_pos (Or.inl hmore)]

/-- The nearest integer of a number below `q`. -/
theorem roundNearestEven_below {q : ℤ} {ρ : K} (h0 : ρ < 0) (h1 : -1 < ρ) :
    roundNearestEven ((q : K) + ρ) =
      if 1 < 2 * -ρ ∨ 2 * -ρ = 1 ∧ q % 2 ≠ 0 then q - 1 else q := by
  obtain ⟨hfloor, -, hfract⟩ := floor_ceil_of_neg (q := q) h0 h1
  rw [roundNearestEven, hfloor, hfract]
  rcases lt_trichotomy (2 * -ρ) 1 with hless | heq | hmore
  · have hno : ¬ (1 < 2 * -ρ ∨ 2 * -ρ = 1 ∧ q % 2 ≠ 0) := by
      rintro (h | ⟨h, -⟩)
      · exact absurd hless (not_lt.mpr h.le)
      · exact absurd hless (not_lt.mpr h.ge)
    rw [if_neg (by linarith), if_pos (by linarith), if_neg hno, Int.sub_add_cancel]
  · -- halfway between `q - 1` and `q`
    rw [if_neg (by linarith), if_neg (by linarith)]
    by_cases heven : q % 2 = 0
    · have hno : ¬ (1 < 2 * -ρ ∨ 2 * -ρ = 1 ∧ q % 2 ≠ 0) := by
        rintro (h | ⟨-, h⟩)
        · exact absurd heq.symm (ne_of_lt h)
        · exact h heven
      rw [if_neg (by omega), if_neg hno, Int.sub_add_cancel]
    · rw [if_pos (by omega), if_pos (Or.inr ⟨heq, heven⟩)]
  · rw [if_pos (by linarith), if_pos (Or.inl hmore)]

/-! ### Truncated division -/

/-- The rest that a truncated division leaves, as a part of the divisor. -/
theorem div_eq_tdiv_add {F : Type*} [Field F] [CharZero F] {n d : ℤ} (hd : d ≠ 0) :
    (n : F) / d = (n.tdiv d : ℤ) + (n.tmod d : ℤ) / (d : F) := by
  have hd' : (d : F) ≠ 0 := Int.cast_ne_zero.mpr hd
  have hsplit : (d : F) * (n.tdiv d : ℤ) + (n.tmod d : ℤ) = n := by
    rw [← Int.cast_mul, ← Int.cast_add, Int.mul_tdiv_add_tmod]
  rw [← hsplit]
  field_simp

/-- The rest is less than the divisor, as a part of it. -/
theorem abs_tmod_div {n d : ℤ} (hd : d ≠ 0) :
    |((n.tmod d : ℤ) : K) / d| = ((n.tmod d).natAbs : K) / d.natAbs ∧
      ((n.tmod d).natAbs : K) / d.natAbs < 1 := by
  have hpos : (0 : K) < d.natAbs := by exact_mod_cast Int.natAbs_pos.mpr hd
  have hlt : (n.tmod d).natAbs < d.natAbs := by
    rw [Int.natAbs_tmod]
    exact Nat.mod_lt _ (Int.natAbs_pos.mpr hd)
  constructor
  · rw [abs_div, Nat.cast_natAbs, Nat.cast_natAbs, Int.cast_abs, Int.cast_abs]
  · rw [div_lt_one hpos]
    exact_mod_cast hlt

/-- The rest is on the side of zero on which the quotient is. -/
theorem tmod_div_neg_iff {n d : ℤ} (hd : d ≠ 0) (hr : n.tmod d ≠ 0) :
    ((n.tmod d : ℤ) : K) / d < 0 ↔ (n : K) / d < 0 := by
  have hd' : (d : K) ≠ 0 := Int.cast_ne_zero.mpr hd
  have hsame : (0 < n.tmod d ↔ 0 < n) ∧ (n.tmod d < 0 ↔ n < 0) := by
    rcases lt_trichotomy n 0 with hn | hn | hn
    · have hopposite := Int.tmod_nonneg d (Int.neg_nonneg_of_nonpos hn.le)
      rw [Int.neg_tmod] at hopposite
      omega
    · rw [hn, Int.zero_tmod] at hr
      exact absurd rfl hr
    · have := Int.tmod_nonneg d hn.le
      omega
  rw [div_neg_iff, div_neg_iff]
  have hcast : ((0 : K) < (n.tmod d : ℤ) ↔ (0 : K) < (n : ℤ)) ∧
      (((n.tmod d : ℤ) : K) < 0 ↔ ((n : ℤ) : K) < 0) := by
    exact_mod_cast hsame
  rw [hcast.1, hcast.2]

end RunD
