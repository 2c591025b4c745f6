/-
The square root of the kernel's fixed-point arithmetic.

The root is found bit by bit.  With `half` the weight of the next bit and `P` the
root so far, the loop keeps `P * 2 * half` in place of `P`, the square of `half`
and what `P * P` leaves of the target, so that adding a bit costs one addition
and one comparison (`rootLoop_eq`).  What is left at the end decides the
rounding: it exceeds the root exactly if the real root is past halfway
(`roundRoot_eq`).

The rounded root fits the word but for one case: the largest raw value of a
format with one integer bit, rounded up, has the root one, which the format does
not have (`rounded_le_highest_iff`).
-/
import RunD.FixedArithmetic
import Mathlib.Analysis.Real.Sqrt

namespace RunD.Fixed

variable {w : ℕ}

/-! ### The operation -/

/-- The result of an unsigned 128-bit subtraction, if it does not wrap. -/
def sub128 (lhs rhs : ℕ) : Option ℕ := if rhs ≤ lhs then some (lhs - rhs) else none

/-- The first loop: the highest power of four that is not above the target. -/
def shrinkBit (target bit : ℕ) : ℕ :=
  if bit > target then shrinkBit target (bit / 4) else bit
termination_by bit
decreasing_by omega

/-- One round of the second loop: the root and the remainder. -/
def rootStep (root bit remainder : ℕ) : Option (ℕ × ℕ) := do
  let step ← u128 (root + bit)
  if remainder ≥ step then
    let next ← u128 (root / 2 + bit)
    some (next, remainder - step)
  else some (root / 2, remainder)

/-- The second loop. -/
def rootLoop (root bit remainder : ℕ) : Option (ℕ × ℕ) :=
  if bit = 0 then some (root, remainder)
  else (rootStep root bit remainder).bind fun next => rootLoop next.1 (bit / 4) next.2
termination_by bit
decreasing_by omega

/-- Both loops. -/
def integerRoot (target : ℕ) : Option (ℕ × ℕ) :=
  rootLoop 0 (shrinkBit target (2 ^ 126)) target

/-- The rounding of a root by its remainder. -/
def roundRoot (root remainder : ℕ) (rounding : UInt8) : Option ℕ :=
  if remainder = 0 then some root
  else if rounding = kUp then u128 (root + 1)
  else if rounding = kNearestEven then do
    let double ← u128 (root * 2 + 1)
    let upperDistance ← sub128 double remainder
    if remainder > upperDistance ∨ (remainder = upperDistance ∧ root % 2 ≠ 0) then u128 (root + 1)
    else some root
  else some root

/-- `static_cast<u128>(value) << format.fraction_bits`, of a positive value. -/
def sqrtTarget (value : BitVec w) (format : ComputeFixedFormat) : ℕ :=
  value.toInt.toNat * 2 ^ format.fractionBits.toNat

/-- `Sqrt`. -/
def sqrt (value : BitVec w) (format : ComputeFixedFormat) : Option (BitVec w) :=
  if value.toInt ≤ 0 then some 0
  else do
    let target ← u128 (sqrtTarget value format)
    let (root, remainder) ← integerRoot target
    let rounded ← roundRoot root remainder format.rounding
    let result ← i128 rounded
    some (narrow w result format.overflow)

/-! ### The root -/

/-- The highest power of four not above a target. -/
theorem shrinkBit_eq {target k : ℕ} (hpos : 0 < target) (htarget : target < 4 ^ (k + 1)) :
    ∃ j ≤ k, shrinkBit target (4 ^ k) = 4 ^ j ∧ target < 4 ^ (j + 1) := by
  induction k with
  | zero =>
      refine ⟨0, le_refl 0, ?_, htarget⟩
      rw [shrinkBit, if_neg (not_lt.mpr hpos)]
  | succ k ih =>
      rw [shrinkBit]
      by_cases habove : 4 ^ (k + 1) > target
      · obtain ⟨j, hj, hbit, hless⟩ := ih habove
        refine ⟨j, Nat.le_succ_of_le hj, ?_, hless⟩
        rw [if_pos habove, pow_succ, Nat.mul_div_cancel _ (by decide), hbit]
      · refine ⟨k + 1, le_refl _, ?_, htarget⟩
        rw [if_neg habove]

/-- **One round** tries the bit `2 ^ e`: adding it to `P` adds the step to the square of `P`. -/
theorem rootStep_eq {target P remainder e : ℕ} (htarget : target < 2 ^ 126) (he : e + 1 ≤ 63)
    (hsum : P * P + remainder = target) :
    rootStep (P * 2 ^ (e + 1)) (4 ^ e) remainder =
      some (if (P + 2 ^ e) * (P + 2 ^ e) ≤ target then
          ((P + 2 ^ e) * 2 ^ e, target - (P + 2 ^ e) * (P + 2 ^ e))
        else (P * 2 ^ e, remainder)) := by
  have hhalf : P * 2 ^ (e + 1) / 2 = P * 2 ^ e := by
    rw [pow_succ, ← mul_assoc, Nat.mul_div_cancel _ (by decide)]
  have hsquare : (2 : ℕ) ^ e * 2 ^ e = 4 ^ e := (mul_pow 2 2 e).symm
  have hstep : (P + 2 ^ e) * (P + 2 ^ e) = P * P + (P * 2 ^ (e + 1) + 4 ^ e) := by
    rw [← hsquare, pow_succ]
    ring
  have hnext : P * 2 ^ e + 4 ^ e = (P + 2 ^ e) * 2 ^ e := by
    rw [← hsquare]
    ring
  -- everything stays far below `2 ^ 128`
  have hP : P < 2 ^ 63 := by
    apply Nat.mul_self_lt_mul_self_iff.mp
    exact lt_of_le_of_lt (Nat.le.intro hsum) htarget
  have hpow : 2 ^ (e + 1) ≤ 2 ^ 63 := Nat.pow_le_pow_right (by decide) he
  have hfour : 4 ^ e ≤ 2 ^ 126 := by
    rw [← hsquare]
    have hpow' : 2 ^ e ≤ 2 ^ 63 := Nat.pow_le_pow_right (by decide) (Nat.le_of_succ_le he)
    exact le_trans (Nat.mul_le_mul hpow' hpow') (by decide)
  have hlarge : P * 2 ^ (e + 1) ≤ 2 ^ 126 := le_trans (Nat.mul_le_mul hP.le hpow) (by decide)
  have hfirst : u128 (P * 2 ^ (e + 1) + 4 ^ e) = some (P * 2 ^ (e + 1) + 4 ^ e) :=
    if_pos (by omega)
  have hsecond : u128 (P * 2 ^ e + 4 ^ e) = some (P * 2 ^ e + 4 ^ e) :=
    if_pos (by omega)
  rw [rootStep, hfirst, Option.bind_eq_bind, Option.bind_some, hhalf, hsecond, hnext, hstep]
  by_cases hfits : remainder ≥ P * 2 ^ (e + 1) + 4 ^ e
  · rw [if_pos hfits, if_pos (by omega), Option.bind_some, ← hsum, Nat.add_sub_add_left]
  · rw [if_neg hfits, if_neg (by omega)]

/-- **The second loop** finds the root: `P` is the root so far, and the bits below `2 ^ e` are
missing. -/
theorem rootLoop_eq {target : ℕ} (htarget : target < 2 ^ 126) (e : ℕ) :
    ∀ {P remainder : ℕ}, e ≤ 63 → P * P + remainder = target →
      target < (P + 2 ^ e) * (P + 2 ^ e) →
      rootLoop (P * 2 ^ e) (4 ^ e / 4) remainder =
        some (Nat.sqrt target, target - Nat.sqrt target * Nat.sqrt target) := by
  induction e with
  | zero =>
      intro P remainder _ hsum hless
      have hroot : P = Nat.sqrt target := by
        apply Nat.eq_sqrt.mpr
        exact ⟨by omega, hless⟩
      rw [rootLoop, if_pos (by decide), ← hroot, ← hsum, Nat.add_sub_cancel_left, pow_zero, mul_one]
  | succ e ih =>
      intro P remainder he hsum hless
      have hbit : 4 ^ (e + 1) / 4 = 4 ^ e := by
        rw [pow_succ, Nat.mul_div_cancel _ (by decide)]
      have hdouble : P + 2 ^ (e + 1) = P + 2 ^ e + 2 ^ e := by
        rw [pow_succ]
        ring
      rw [rootLoop, hbit, if_neg (by positivity), rootStep_eq htarget he hsum, Option.bind_some]
      by_cases hfits : (P + 2 ^ e) * (P + 2 ^ e) ≤ target
      · rw [if_pos hfits]
        apply ih (Nat.le_of_succ_le he) (Nat.add_sub_cancel' hfits)
        rw [← hdouble]
        exact hless
      · rw [if_neg hfits]
        exact ih (Nat.le_of_succ_le he) hsum (not_le.mp hfits)

/-- The root of every target below `2 ^ 126`, and what its square leaves. -/
theorem integerRoot_eq {target : ℕ} (hpos : 0 < target) (htarget : target < 2 ^ 126) :
    integerRoot target =
      some (Nat.sqrt target, target - Nat.sqrt target * Nat.sqrt target) := by
  have hfour : (2 : ℕ) ^ 126 = 4 ^ 63 := by decide
  have habove : 4 ^ 63 > target := hfour ▸ htarget
  -- the first bit tried is above every target
  rw [integerRoot, hfour, shrinkBit, if_pos habove, show 4 ^ 63 / 4 = 4 ^ 62 by decide]
  obtain ⟨j, hj, hbit, hless⟩ := shrinkBit_eq (k := 62) hpos habove
  have hsquare : (0 + 2 ^ (j + 1)) * (0 + 2 ^ (j + 1)) = 4 ^ (j + 1) := by
    rw [zero_add]
    exact (mul_pow 2 2 (j + 1)).symm
  have hrun := rootLoop_eq htarget (j + 1) (P := 0) (Nat.succ_le_succ hj) (Nat.zero_add target)
    (hsquare ▸ hless)
  rw [zero_mul, pow_succ, Nat.mul_div_cancel _ (by decide)] at hrun
  rw [hbit, hrun]

/-! ### The rounding of the root -/

/-- What a root leaves is at most twice the root. -/
theorem sub_sqrt_le (target : ℕ) :
    target - Nat.sqrt target * Nat.sqrt target ≤ 2 * Nat.sqrt target := by
  have hless := Nat.sqrt_le_add target
  omega

/-- A real root is past halfway exactly if more than the integer root is left. -/
theorem past_half_sqrt_iff {target root : ℕ} (hle : root * root ≤ target) :
    1 < 2 * (√(target : ℝ) - root) ↔ root < target - root * root := by
  have hsquare : ((root : ℝ) + 1 / 2) ^ 2 = ((root * root + root : ℕ) : ℝ) + 1 / 4 := by
    push_cast
    ring
  have hhalf : 1 < 2 * (√(target : ℝ) - root) ↔ (root : ℝ) + 1 / 2 < √(target : ℝ) := by
    constructor
    · intro h
      linarith
    · intro h
      linarith
  rw [hhalf, Real.lt_sqrt (by positivity), hsquare]
  constructor
  · intro h
    have hless : ((root * root + root : ℕ) : ℝ) < target := by linarith
    have hless' := Nat.cast_lt.mp hless
    omega
  · intro h
    have hless : root * root + root + 1 ≤ target := by omega
    have hless' : ((root * root + root : ℕ) : ℝ) + 1 ≤ target := by exact_mod_cast hless
    linarith

/-- A real root is never halfway between two integers. -/
theorem sqrt_ne_half (target root : ℕ) : 2 * (√(target : ℝ) - root) ≠ 1 := by
  intro h
  have hroot : √(target : ℝ) = root + 1 / 2 := by linarith
  have hsquare := Real.mul_self_sqrt (Nat.cast_nonneg (α := ℝ) target)
  rw [hroot] at hsquare
  have hparity : ((4 * (root * root + root) + 1 : ℕ) : ℝ) = ((4 * target : ℕ) : ℝ) := by
    push_cast
    rw [← hsquare]
    ring
  have hparity' := Nat.cast_injective hparity
  omega

/-- The rounding of a real root by what the integer root leaves. -/
theorem roundTo_sqrt (mode : Rounding) (target : ℕ) :
    roundTo mode (√(target : ℝ)) =
      if target - Nat.sqrt target * Nat.sqrt target = 0 then (Nat.sqrt target : ℤ)
      else match mode with
        | .towardZero => (Nat.sqrt target : ℤ)
        | .down => (Nat.sqrt target : ℤ)
        | .up => (Nat.sqrt target : ℤ) + 1
        | .nearestEven =>
            if Nat.sqrt target < target - Nat.sqrt target * Nat.sqrt target then
              (Nat.sqrt target : ℤ) + 1
            else (Nat.sqrt target : ℤ) := by
  have hle := Nat.sqrt_le target
  have hhigh : √(target : ℝ) < Nat.sqrt target + 1 := Real.real_sqrt_lt_nat_sqrt_succ
  generalize Nat.sqrt target = root at hle hhigh ⊢
  by_cases hexact : target - root * root = 0
  · have htarget : (target : ℝ) = (root : ℝ) * root := by
      exact_mod_cast le_antisymm (Nat.sub_eq_zero_iff_le.mp hexact) hle
    rw [if_pos hexact, htarget, Real.sqrt_mul_self (Nat.cast_nonneg root)]
    exact roundTo_intCast mode (root : ℤ)
  have hlow : (root : ℝ) < √(target : ℝ) := by
    apply Real.lt_sqrt_of_sq_lt
    have hless : root ^ 2 < target := by
      rw [pow_two]
      omega
    exact_mod_cast hless
  have hhalf := past_half_sqrt_iff hle
  have htie := sqrt_ne_half target root
  have hnonneg : 0 ≤ √(target : ℝ) := Real.sqrt_nonneg _
  -- the root and a part of one
  obtain ⟨ρ, hρ⟩ : ∃ ρ, ρ = √(target : ℝ) - root := ⟨_, rfl⟩
  have hwhole : √(target : ℝ) = ((root : ℤ) : ℝ) + ρ := by
    rw [hρ, Int.cast_natCast]
    ring
  have hpos : 0 < ρ := by linarith
  have hone : ρ < 1 := by linarith
  rw [← hρ] at hhalf htie
  rw [hwhole] at hnonneg ⊢
  obtain ⟨hfloor, hceil, -⟩ := floor_ceil_of_pos (q := (root : ℤ)) hpos hone
  rw [if_neg hexact]
  cases mode with
  | towardZero =>
      rw [roundTo, if_pos hnonneg]
      exact hfloor
  | down => exact hfloor
  | up => exact hceil
  | nearestEven =>
      rw [roundTo, roundNearestEven_above hpos hone]
      simp only [htie, false_and, or_false, hhalf]

/-- **The rounding of the root** is the rounding of the real root. -/
theorem roundRoot_eq {target : ℕ} (htarget : target < 2 ^ 126) {rounding : UInt8}
    (hrounding : rounding = kTowardZero ∨ rounding = kDown ∨ rounding = kUp ∨
      rounding = kNearestEven) :
    ∃ rounded, roundRoot (Nat.sqrt target) (target - Nat.sqrt target * Nat.sqrt target) rounding =
        some rounded ∧
      (rounded : ℤ) = roundTo (roundingOf rounding) (√(target : ℝ)) ∧ rounded ≤ 2 ^ 63 := by
  have hrest := sub_sqrt_le target
  have hroot : Nat.sqrt target < 2 ^ 63 := by
    rw [Nat.sqrt_lt']
    exact lt_of_lt_of_le htarget (by decide)
  rw [roundTo_sqrt]
  generalize target - Nat.sqrt target * Nat.sqrt target = remainder at hrest ⊢
  generalize Nat.sqrt target = root at hrest hroot ⊢
  have hnext : u128 (root + 1) = some (root + 1) := if_pos (by omega)
  have hdouble : u128 (root * 2 + 1) = some (root * 2 + 1) := if_pos (by omega)
  have hupper : sub128 (root * 2 + 1) remainder = some (root * 2 + 1 - remainder) :=
    if_pos (by omega)
  rw [roundRoot]
  by_cases hexact : remainder = 0
  · rw [if_pos hexact, if_pos hexact]
    exact ⟨root, rfl, rfl, hroot.le⟩
  rw [if_neg hexact, if_neg hexact]
  rcases hrounding with rfl | rfl | rfl | rfl
  · exact ⟨root, rfl, rfl, hroot.le⟩
  · exact ⟨root, rfl, rfl, hroot.le⟩
  · exact ⟨root + 1, hnext, Nat.cast_succ root, hroot⟩
  · show ∃ rounded, (u128 (root * 2 + 1)).bind _ = some rounded ∧ _
    rw [hdouble, Option.bind_some, hupper, Option.bind_eq_bind, Option.bind_some, hnext]
    -- what is left is compared with its distance to the next square
    have hpast : (remainder > root * 2 + 1 - remainder ∨
        remainder = root * 2 + 1 - remainder ∧ root % 2 ≠ 0) ↔ root < remainder := by
      omega
    simp only [hpast]
    show ∃ rounded : ℕ, _ = some rounded ∧
      ((rounded : ℤ) = if root < remainder then (root : ℤ) + 1 else root) ∧ rounded ≤ 2 ^ 63
    by_cases hmore : root < remainder
    · rw [if_pos hmore, if_pos hmore]
      exact ⟨root + 1, rfl, Nat.cast_succ root, hroot⟩
    · rw [if_neg hmore, if_neg hmore]
      exact ⟨root, rfl, rfl, hroot.le⟩

/-! ### The largest root -/

/-- Only the largest raw value, scaled by one more than itself, has a root as large. -/
theorem sqrt_eq_top_iff {raw scale m : ℕ} (hm : 2 ≤ m) (hraw : raw ≤ m)
    (hscale : scale = m + 1 ∨ 2 * scale ≤ m + 1) :
    Nat.sqrt (raw * scale) = m ↔ scale = m + 1 ∧ raw = m := by
  constructor
  · intro h
    have hsquare := Nat.sqrt_le (raw * scale)
    rw [h] at hsquare
    rcases hscale with rfl | hsmall
    · refine ⟨rfl, le_antisymm hraw ?_⟩
      by_contra hless
      have hraw' : raw + 1 ≤ m := not_le.mp hless
      have hprod : (raw + 1) * (m + 1) ≤ m * (m + 1) := Nat.mul_le_mul_right _ hraw'
      nlinarith only [hsquare, hprod]
    · have hprod : raw * (2 * scale) ≤ m * (m + 1) := Nat.mul_le_mul hraw hsmall
      nlinarith only [hsquare, hprod, hm]
  · rintro ⟨rfl, rfl⟩
    symm
    apply Nat.eq_sqrt.mpr
    constructor
    · exact Nat.mul_le_mul_left _ (Nat.le_succ _)
    · exact Nat.mul_lt_mul_of_pos_right (Nat.lt_succ_self _) (Nat.succ_pos _)

/-- The rounded root of a raw value is one too large in exactly one case. -/
theorem rounded_le_iff {mode : Rounding} {raw scale m : ℕ} (hm : 2 ≤ m) (hraw : raw ≤ m)
    (hscale : scale = m + 1 ∨ 2 * scale ≤ m + 1) :
    roundTo mode (√((raw * scale : ℕ) : ℝ)) ≤ m ↔ ¬ (scale = m + 1 ∧ raw = m ∧ mode = .up) := by
  have htop := sqrt_eq_top_iff hm hraw hscale
  have hroot : Nat.sqrt (raw * scale) ≤ m := by
    apply Nat.lt_succ_iff.mp
    rw [Nat.sqrt_lt]
    have hscale' : scale ≤ m + 1 := by omega
    exact lt_of_le_of_lt (Nat.mul_le_mul_left _ hscale')
      (Nat.mul_lt_mul_of_pos_right (Nat.lt_succ_of_le hraw) (Nat.succ_pos _))
  rw [roundTo_sqrt]
  by_cases heq : Nat.sqrt (raw * scale) = m
  · obtain ⟨rfl, rfl⟩ := htop.mp heq
    have hrest : raw * (raw + 1) - raw * raw = raw := by
      rw [Nat.mul_succ, Nat.add_sub_cancel_left]
    rw [heq, hrest, if_neg (by omega)]
    cases mode with
    | towardZero => simp
    | down => simp
    | up => simp
    | nearestEven => simp
  · have hless := lt_of_le_of_ne hroot heq
    have hno : ¬ (scale = m + 1 ∧ raw = m ∧ mode = .up) := by
      rintro ⟨h1, h2, -⟩
      exact heq (htop.mpr ⟨h1, h2⟩)
    simp only [hno, not_false_eq_true, iff_true]
    generalize raw * scale - Nat.sqrt (raw * scale) * Nat.sqrt (raw * scale) = rest
    generalize Nat.sqrt (raw * scale) = root at hless ⊢
    by_cases hexact : rest = 0
    · rw [if_pos hexact]
      omega
    rw [if_neg hexact]
    cases mode with
    | towardZero => exact Nat.cast_le.mpr hless.le
    | down => exact Nat.cast_le.mpr hless.le
    | up => exact Int.add_one_le_of_lt (Nat.cast_lt.mpr hless)
    | nearestEven =>
        show (if root < rest then (root : ℤ) + 1 else root) ≤ m
        split
        · exact Int.add_one_le_of_lt (Nat.cast_lt.mpr hless)
        · exact Nat.cast_le.mpr hless.le

/-- Settling leaves a value alone exactly if the word has it. -/
theorem settle_eq_self_iff (hw : 0 < w) {overflow : UInt8} {value : ℤ} :
    settle w overflow value = value ↔ lowest w ≤ value ∧ value ≤ highest w := by
  have horder := lowest_le_highest w
  constructor
  · intro h
    have hword := toInt_narrow hw value overflow
    rw [h] at hword
    rw [← hword]
    exact ⟨BitVec.le_toInt _, Int.le_sub_one_of_lt BitVec.toInt_lt⟩
  · rintro ⟨hlow, hhigh⟩
    rw [settle]
    split
    · rw [min_eq_left hhigh, max_eq_right hlow]
    · rw [← BitVec.toInt_ofInt]
      exact toInt_ofInt_of_mem hw hlow hhigh

/-! ### The result -/

/-- The root of a scaled value is the scaled root. -/
theorem sqrt_fixedValue_mul {value : BitVec w} {format : ComputeFixedFormat}
    (hpos : 0 < value.toInt) :
    √(fixedValue format.fractionBits.toNat value : ℝ) * 2 ^ format.fractionBits.toNat =
      √(sqrtTarget value format : ℝ) := by
  have hscale : (0 : ℝ) < 2 ^ format.fractionBits.toNat := by positivity
  have htarget : (sqrtTarget value format : ℝ) =
      fixedValue format.fractionBits.toNat value *
        (2 ^ format.fractionBits.toNat) ^ 2 := by
    have hcast : ((value.toInt.toNat : ℤ) : ℝ) = (value.toInt : ℝ) := by
      rw [Int.toNat_of_nonneg hpos.le]
    rw [sqrtTarget, fixedValue, Nat.cast_mul, ← Int.cast_natCast, hcast]
    push_cast
    field_simp
  rw [htarget, Real.sqrt_mul' _ (by positivity), Real.sqrt_sq hscale.le]

section Exact

variable {format : ComputeFixedFormat} (hw : 3 ≤ w) (hwBound : w ≤ 64)
  (hfraction : format.fractionBits.toNat < w)

include hwBound hfraction

theorem sqrtTarget_lt {value : BitVec w} (hpos : 0 < value.toInt) :
    0 < sqrtTarget value format ∧ sqrtTarget value format < 2 ^ 126 := by
  have hraw := natAbs_toInt_le hwBound value
  have htop := value.toInt_lt
  have hpow : 2 ^ format.fractionBits.toNat ≤ 2 ^ 63 := Nat.pow_le_pow_right (by decide) (by omega)
  have hmono : (2 : ℤ) ^ (w - 1) ≤ 2 ^ 63 := by
    apply pow_le_pow_right₀ (by norm_num)
    omega
  constructor
  · exact Nat.mul_pos (by omega) (by positivity)
  · have hless : value.toInt.toNat < 2 ^ 63 := by omega
    have hproduct := Nat.mul_lt_mul_of_lt_of_le hless hpow (by decide)
    exact lt_of_lt_of_le hproduct (by decide)

/-- **`Sqrt` is exact** before it settles. -/
theorem sqrt_exact_of_pos {value : BitVec w} (hpos : 0 < value.toInt)
    (hrounding : format.rounding = kTowardZero ∨ format.rounding = kDown ∨
      format.rounding = kUp ∨ format.rounding = kNearestEven) :
    ∃ root remainder rounded : ℕ,
      integerRoot (sqrtTarget value format) = some (root, remainder) ∧
      root ^ 2 ≤ sqrtTarget value format ∧ sqrtTarget value format < (root + 1) ^ 2 ∧
      roundRoot root remainder format.rounding = some rounded ∧
      (rounded : ℤ) = roundTo (roundingOf format.rounding)
        (√(fixedValue format.fractionBits.toNat value : ℝ) * 2 ^ format.fractionBits.toNat) ∧
      sqrt value format = some (narrow w rounded format.overflow) := by
  obtain ⟨htarget, hbound⟩ := sqrtTarget_lt hwBound hfraction hpos
  obtain ⟨rounded, hrounded, hexact, hless⟩ := roundRoot_eq hbound hrounding
  have hroot := integerRoot_eq htarget hbound
  refine ⟨_, _, rounded, hroot, Nat.sqrt_le' _, Nat.lt_succ_sqrt' _, hrounded, ?_, ?_⟩
  · rw [hexact, sqrt_fixedValue_mul hpos]
  · have htarget' : u128 (sqrtTarget value format) = some (sqrtTarget value format) :=
      if_pos (lt_trans hbound (by decide))
    have hfits : i128 rounded = some (rounded : ℤ) := by
      apply i128_of_natAbs
      rw [Int.natAbs_natCast]
      exact le_trans hless (by decide)
    rw [sqrt, if_neg (not_le.mpr hpos)]
    rw [htarget', Option.bind_eq_bind, Option.bind_some, hroot, Option.bind_eq_bind,
      Option.bind_some]
    show (roundRoot _ _ _).bind _ = _
    rw [hrounded, Option.bind_some, hfits]
    rfl

include hw

/-- The rounded root fits the word but for the largest value of one integer bit, rounded up. -/
theorem rounded_le_highest_iff {value : BitVec w} (hpos : 0 < value.toInt) (mode : Rounding) :
    roundTo mode (√(sqrtTarget value format : ℝ)) ≤ highest w ↔
      ¬ (format.fractionBits.toNat + 1 = w ∧ value.toInt = highest w ∧ mode = .up) := by
  obtain ⟨m, hm⟩ := Nat.exists_eq_add_of_le' (Nat.one_le_two_pow (n := w - 1))
  have hfour : 2 ^ 2 ≤ 2 ^ (w - 1) := Nat.pow_le_pow_right (by decide) (by omega)
  have htop : highest w = (m : ℤ) := by
    rw [highest]
    have hcast : (2 : ℤ) ^ (w - 1) = ((2 ^ (w - 1) : ℕ) : ℤ) := by push_cast; rfl
    rw [hcast, hm]
    push_cast
    ring
  have hraw : value.toInt ≤ highest w := Int.le_sub_one_of_lt value.toInt_lt
  have hscale : 2 ^ format.fractionBits.toNat = m + 1 ↔ format.fractionBits.toNat + 1 = w := by
    rw [← hm, Nat.pow_right_inj (by decide)]
    omega
  have hsmall : format.fractionBits.toNat + 1 ≠ w →
      2 * 2 ^ format.fractionBits.toNat ≤ m + 1 := by
    intro h
    rw [← hm, ← pow_succ']
    exact Nat.pow_le_pow_right (by decide) (by omega)
  rw [htop] at hraw ⊢
  have hcases : 2 ^ format.fractionBits.toNat = m + 1 ∨
      2 * 2 ^ format.fractionBits.toNat ≤ m + 1 := by
    rw [hscale]
    exact (em _).imp_right hsmall
  rw [sqrtTarget, rounded_le_iff (by omega) (by omega) hcases, hscale]
  have hvalue : value.toInt.toNat = m ↔ value.toInt = m := by omega
  rw [hvalue]

end Exact

theorem roundingOf_eq_up_iff {rounding : UInt8}
    (hrounding : rounding = kTowardZero ∨ rounding = kDown ∨ rounding = kUp ∨
      rounding = kNearestEven) : roundingOf rounding = .up ↔ rounding = kUp := by
  rcases hrounding with rfl | rfl | rfl | rfl <;> decide

/-- **The square root is exact** but for the word: in every valid format the integer root of the
scaled operand is found, its rounding is the rounding of the real root, and the result is that,
saturated or wrapped.  This leaves it alone except for the largest raw value of a format with one
integer bit, rounded up. -/
theorem sqrt_exact {scalar : ComputeScalar} {format : ComputeFixedFormat}
    (hvalid : computeFixedFormatValid scalar format = true)
    (value : BitVec (computeScalarBits scalar)) :
    (value.toInt ≤ 0 → sqrt value format = some 0) ∧
    (0 < value.toInt → ∃ (root remainder rounded : ℕ) (result : BitVec (computeScalarBits scalar)),
      integerRoot (sqrtTarget value format) = some (root, remainder) ∧
      root ^ 2 ≤ sqrtTarget value format ∧ sqrtTarget value format < (root + 1) ^ 2 ∧
      roundRoot root remainder format.rounding = some rounded ∧
      (rounded : ℤ) = roundTo (roundingOf format.rounding)
        (√(fixedValue format.fractionBits.toNat value : ℝ) * 2 ^ format.fractionBits.toNat) ∧
      sqrt value format = some result ∧
      result.toInt = settle (computeScalarBits scalar) format.overflow rounded ∧
      (result.toInt = rounded ↔
        ¬ (format.integerBits = 1 ∧ value.toInt = highest (computeScalarBits scalar) ∧
          format.rounding = kUp))) := by
  obtain ⟨hbound, hinteger, -, hwidth, hrounding⟩ := policy_of_valid hvalid
  have hfraction : format.fractionBits.toNat < computeScalarBits scalar := by omega
  have hw : 3 ≤ computeScalarBits scalar := by
    cases scalar with
    | lane32 => decide
    | lane64 => decide
    | invalid => exact absurd hfraction (Nat.not_lt_zero _)
  constructor
  · intro hneg
    rw [sqrt, if_pos hneg]
  · intro hpos
    obtain ⟨root, remainder, rounded, hroot, hlow, hhigh, hrounded, hexact, hresult⟩ :=
      sqrt_exact_of_pos hbound hfraction hpos hrounding
    have hnarrow := toInt_narrow (Nat.zero_lt_of_lt hw) (rounded : ℤ) format.overflow
    have hnonneg : lowest (computeScalarBits scalar) ≤ rounded :=
      le_trans (lowest_nonpos _) (Int.natCast_nonneg rounded)
    have hone : format.fractionBits.toNat + 1 = computeScalarBits scalar ↔
        format.integerBits = 1 := by
      rw [← UInt8.toNat_inj, show (1 : UInt8).toNat = 1 from rfl]
      omega
    refine ⟨root, remainder, rounded, _, hroot, hlow, hhigh, hrounded, hexact, hresult, hnarrow, ?_⟩
    rw [hnarrow, settle_eq_self_iff (Nat.zero_lt_of_lt hw), hexact, sqrt_fixedValue_mul hpos,
      rounded_le_highest_iff hw hbound hfraction hpos, hone, roundingOf_eq_up_iff hrounding]
    rw [← sqrt_fixedValue_mul hpos, ← hexact]
    simp [hnonneg]

/-- The root of two, in 16 and 16 bits. -/
theorem sqrt_exact_two :
    sqrt (BitVec.ofInt 32 131072) ⟨16, 16, kNearestEven, kSaturate, 1⟩ =
        some (BitVec.ofInt 32 92682) ∧
      roundTo .nearestEven (√(fixedValue 16 (BitVec.ofInt 32 131072) : ℝ) * 2 ^ 16) = 92682 := by
  obtain ⟨-, hpos⟩ := sqrt_exact (show computeFixedFormatValid .lane32
    ⟨16, 16, kNearestEven, kSaturate, 1⟩ = true by decide) (BitVec.ofInt 32 131072)
  obtain ⟨root, remainder, rounded, result, -, -, -, -, hexact, hresult, -, hsettle⟩ :=
    hpos (by decide)
  have heval : sqrt (BitVec.ofInt 32 131072) ⟨16, 16, kNearestEven, kSaturate, 1⟩ =
      some (BitVec.ofInt 32 92682) := by decide +kernel
  have hsame := Option.some.inj (hresult.symm.trans heval)
  have hrounded := hsettle.mpr fun h => absurd h.1 (by decide)
  rw [hsame] at hrounded
  exact ⟨heval, hexact.symm.trans hrounded.symm⟩

/-- The root of one raw unit less than one, in one integer bit, rounds up to one and wraps to minus
one. -/
theorem not_sqrt_exact :
    computeFixedFormatValid .lane32 ⟨1, 31, kUp, 2, 1⟩ = true ∧
      ∀ result, sqrt (BitVec.ofInt 32 (2 ^ 31 - 1)) ⟨1, 31, kUp, 2, 1⟩ = some result →
        result.toInt ≠ roundTo .up
          (√(fixedValue 31 (BitVec.ofInt 32 (2 ^ 31 - 1)) : ℝ) * 2 ^ 31) := by
  refine ⟨by decide, ?_⟩
  intro result hresult hexact
  have heval : sqrt (BitVec.ofInt 32 (2 ^ 31 - 1)) ⟨1, 31, kUp, 2, 1⟩ =
      some (BitVec.ofInt 32 (-2 ^ 31)) := by decide +kernel
  have hsame := Option.some.inj (hresult.symm.trans heval)
  have hnonneg : (0 : ℤ) ≤ roundTo .up
      (√(fixedValue 31 (BitVec.ofInt 32 (2 ^ 31 - 1)) : ℝ) * 2 ^ 31) :=
    Int.ceil_nonneg (by positivity)
  rw [← hexact, hsame] at hnonneg
  exact absurd hnonneg (by decide)

end RunD.Fixed
