/-
Fixed-point products of `math64` and `math32`, lane and scalar.

A raw value of `w` bits stands for itself over `2 ^ (w - 1)`.  The lanes of
`math64` multiply magnitudes from halves of a word and put the sign back; the
lanes of `math32` multiply in twice the width and correct the shift of a
negative product.  Both are the exact product, truncated and saturated, and so
are the scalar functions.  A product and an addend are saturated twice by the
lanes and once by the scalar functions.
-/
import RunD.MathLane

namespace RunD

open RunD.Word
open RunD.Fixed (lowest highest lowest_nonpos highest_nonneg lowest_le_highest toInt_ofInt_of_mem)
open RunD.Lane

/-! ### The scalar functions -/

namespace Lane

variable {w : ℕ}

/-- `ScalarMulFixed`, with intermediate values of `W` bits. -/
def scalarMulFixed (W : ℕ) (lhs rhs : BitVec w) : Option (BitVec w) := do
  let product ← exactly W (lhs.toInt * rhs.toInt)
  let quotient ← exactly W (product.tdiv (2 ^ (w - 1) : ℕ))
  some (scalarClamp w quotient)

/-- `ScalarMulHigh`. -/
def scalarMulHigh (W : ℕ) (lhs rhs : BitVec w) : BitVec w :=
  ((lhs.setWidth W * rhs.setWidth W) >>> w).setWidth w

/-- `ScalarMulAddFixed`. -/
def scalarMulAddFixed (W : ℕ) (lhs rhs addend : BitVec w) : Option (BitVec w) := do
  let product ← exactly W (lhs.toInt * rhs.toInt)
  let term ← exactly W (product.tdiv (2 ^ (w - 1) : ℕ))
  let sum ← exactly W (term + addend.toInt)
  some (scalarClamp w sum)

end Lane

/-! ### `math64` -/

namespace Math64

def mulUnsignedHigh64 (lhs rhs : BitVec 64) : BitVec 64 := limbHigh 32 lhs rhs

def mulUnsignedShift63 (lhs rhs : BitVec 64) : BitVec 64 :=
  limbHigh 32 lhs rhs <<< 1 ||| ((limbCarry 32 lhs rhs >>> 31) &&& 1#64)

/-- `simd::Min` of unsigned lanes. -/
def min (lhs rhs : BitVec 64) : BitVec 64 := select (ltUnsigned lhs rhs) lhs rhs

def clampSignedMagnitude64 (negative magnitude : BitVec 64) : BitVec 64 :=
  let positive := min magnitude (fixedMax 64)
  let negativeValue :=
    select (geUnsigned magnitude (BitVec.twoPow 64 63)) (fixedMin 64) (0#64 - magnitude)
  select negative negativeValue positive

def mulHigh (lhs rhs : BitVec 64) : BitVec 64 := mulUnsignedHigh64 lhs rhs

def mulFixed (lhs rhs : BitVec 64) : BitVec 64 :=
  clampSignedMagnitude64 (ltSigned lhs 0#64 ^^^ ltSigned rhs 0#64)
    (mulUnsignedShift63 (absMagnitude lhs) (absMagnitude rhs))

def mulFixedScaled (value scaledCoefficient : BitVec 64) : BitVec 64 :=
  clampSignedMagnitude64 (ltSigned value 0#64)
    (mulUnsignedShift63 (absMagnitude value) scaledCoefficient)

def clampI128x2ToI64x (value : BitVec 128) : BitVec 64 :=
  let high := BitVec.ofInt 128 (highest 64)
  let low := BitVec.ofInt 128 (lowest 64)
  let boundedHigh := select (gtSigned value high) high value
  let bounded := select (ltSigned boundedHigh low) low boundedHigh
  bounded.setWidth 64

def addSat (lhs rhs : BitVec 64) : BitVec 64 :=
  clampI128x2ToI64x (widen 128 lhs + widen 128 rhs)

def mulAddFixed (lhs rhs addend : BitVec 64) : BitVec 64 := addSat (mulFixed lhs rhs) addend

def scalarMulFixed (lhs rhs : BitVec 64) : Option (BitVec 64) := Lane.scalarMulFixed 128 lhs rhs

def scalarMulFixedScaled (value scaledCoefficient : BitVec 64) : Option (BitVec 64) := do
  let product ← exactly 128 (value.toInt * scaledCoefficient.toNat)
  let quotient ← exactly 128 (product.tdiv (2 ^ 63 : ℕ))
  some (scalarClamp 64 quotient)

def scalarMulHigh (lhs rhs : BitVec 64) : BitVec 64 := Lane.scalarMulHigh 128 lhs rhs

def scalarMulAddFixed (lhs rhs addend : BitVec 64) : Option (BitVec 64) :=
  Lane.scalarMulAddFixed 128 lhs rhs addend

end Math64

/-! ### `math32` -/

namespace Math32

def divFixedScale (product : BitVec 64) : BitVec 64 :=
  let shifted := product.sshiftRight 31
  let remainder := product &&& BitVec.ofNat 64 (2 ^ 31 - 1)
  let correctionMask := ltSigned product 0#64 &&& ~~~eqLane remainder 0#64
  shifted + select correctionMask 1#64 0#64

def clampWideToI32x (value : BitVec 64) : BitVec 32 :=
  let low := select (ltSigned value (BitVec.ofInt 64 (lowest 32))) (BitVec.ofInt 64 (lowest 32)) value
  let clamped :=
    select (gtSigned low (BitVec.ofInt 64 (highest 32))) (BitVec.ofInt 64 (highest 32)) low
  clamped.setWidth 32

def mulHigh (lhs rhs : BitVec 32) : BitVec 32 := limbHigh 16 lhs rhs

def mulFixed (lhs rhs : BitVec 32) : BitVec 32 :=
  clampWideToI32x (divFixedScale (widen 64 lhs * widen 64 rhs))

def mulFixedScaled (value scaledCoefficient : BitVec 32) : BitVec 32 :=
  clampWideToI32x (divFixedScale (widen 64 value * scaledCoefficient.setWidth 64))

def addSat (lhs rhs : BitVec 32) : BitVec 32 := clampWideToI32x (widen 64 lhs + widen 64 rhs)

def mulAddFixed (lhs rhs addend : BitVec 32) : BitVec 32 := addSat (mulFixed lhs rhs) addend

def scalarMulFixed (lhs rhs : BitVec 32) : Option (BitVec 32) := Lane.scalarMulFixed 64 lhs rhs

/-- The coefficient is a wide word here; the quotient is converted to a narrower one. -/
def scalarMulFixedScaled (value : BitVec 32) (scaledCoefficient : BitVec 64) :
    Option (BitVec 32) := do
  let product ← exactly 128 (value.toInt * scaledCoefficient.toNat)
  let quotient ← exactly 128 (product.tdiv (2 ^ 31 : ℕ))
  some (scalarClamp 32 (BitVec.ofInt 64 quotient).toInt)

def scalarMulHigh (lhs rhs : BitVec 32) : BitVec 32 := Lane.scalarMulHigh 64 lhs rhs

def scalarMulAddFixed (lhs rhs addend : BitVec 32) : Option (BitVec 32) :=
  Lane.scalarMulAddFixed 64 lhs rhs addend

end Math32

/-! ### The scalar functions are exact -/

namespace Lane

variable {w W : ℕ}

theorem natAbs_tdiv_le (value : ℤ) (s : ℕ) : (value.tdiv s).natAbs ≤ value.natAbs := by
  rw [Int.natAbs_tdiv, Int.natAbs_natCast]
  exact Nat.div_le_self _ _

/-- A truncated quotient is in the word when the dividend is inside it. -/
theorem exactly_tdiv {value : ℤ} (h : value.natAbs < 2 ^ (W - 1)) (s : ℕ) :
    exactly W (value.tdiv s) = some (value.tdiv s) := by
  obtain ⟨hlow, hhigh⟩ := mem_of_natAbs_lt (lt_of_le_of_lt (natAbs_tdiv_le value s) h)
  exact exactly_of_mem hlow hhigh

theorem exactly_of_natAbs_lt {value : ℤ} (h : value.natAbs < 2 ^ (W - 1)) :
    exactly W value = some value :=
  exactly_of_mem (mem_of_natAbs_lt h).1 (mem_of_natAbs_lt h).2

theorem scalarMulFixed_eq (hw : 0 < w) (hW : W = 2 * w) (lhs rhs : BitVec w) :
    scalarMulFixed W lhs rhs =
      some (scalarClamp w ((lhs.toInt * rhs.toInt).tdiv (2 ^ (w - 1) : ℕ))) := by
  have hprod := natAbs_mul_lt hw hW lhs rhs
  rw [scalarMulFixed, exactly_of_natAbs_lt hprod]
  show (exactly W _ >>= fun quotient => some (scalarClamp w quotient)) = _
  rw [exactly_tdiv hprod]
  rfl

theorem scalarMulAddFixed_eq (hw : 1 < w) (hW : W = 2 * w) (lhs rhs addend : BitVec w) :
    scalarMulAddFixed W lhs rhs addend = some (scalarClamp w
      ((lhs.toInt * rhs.toInt).tdiv (2 ^ (w - 1) : ℕ) + addend.toInt)) := by
  have hprod := natAbs_mul_lt (Nat.zero_lt_of_lt hw) hW lhs rhs
  -- the quotient is one bit wider than a raw value at most
  have hterm : ((lhs.toInt * rhs.toInt).tdiv (2 ^ (w - 1) : ℕ)).natAbs ≤ 2 ^ (w - 1) := by
    rw [Int.natAbs_tdiv, Int.natAbs_mul, Int.natAbs_natCast]
    apply Nat.div_le_of_le_mul
    exact Nat.mul_le_mul (natAbs_toInt_le lhs) (natAbs_toInt_le rhs)
  have hsum : ((lhs.toInt * rhs.toInt).tdiv (2 ^ (w - 1) : ℕ) + addend.toInt).natAbs <
      2 ^ (W - 1) := by
    have hadd := natAbs_toInt_le addend
    have hle := Int.natAbs_add_le ((lhs.toInt * rhs.toInt).tdiv (2 ^ (w - 1) : ℕ)) addend.toInt
    have hpow : 2 ^ (w - 1) + 2 ^ (w - 1) < 2 ^ (W - 1) := by
      rw [← two_mul, two_mul_pow_pred (Nat.zero_lt_of_lt hw)]
      exact Nat.pow_lt_pow_right (by decide) (by omega)
    exact lt_of_le_of_lt (hle.trans (Nat.add_le_add hterm hadd)) hpow
  rw [scalarMulAddFixed, exactly_of_natAbs_lt hprod]
  show (exactly W _ >>= fun term => exactly W (term + addend.toInt) >>= fun sum =>
    some (scalarClamp w sum)) = _
  rw [exactly_tdiv hprod]
  show (exactly W _ >>= fun sum => some (scalarClamp w sum)) = _
  rw [exactly_of_natAbs_lt hsum]
  rfl

theorem toNat_scalarMulHigh (hW : W = 2 * w) (lhs rhs : BitVec w) :
    (scalarMulHigh W lhs rhs).toNat = lhs.toNat * rhs.toNat / 2 ^ w := by
  have hpow : 2 ^ W = 2 ^ w * 2 ^ w := by rw [hW, two_mul, pow_add]
  have hlt : lhs.toNat * rhs.toNat < 2 ^ W := by
    rw [hpow]
    exact Nat.mul_lt_mul'' lhs.isLt rhs.isLt
  have hle : w ≤ W := by omega
  have hwide : ∀ x : BitVec w, (x.setWidth W).toNat = x.toNat :=
    fun _ => BitVec.toNat_setWidth_of_le hle
  have hmul : (lhs.setWidth W * rhs.setWidth W).toNat = lhs.toNat * rhs.toNat := by
    rw [toNat_mul_of_lt] <;> rw [hwide, hwide]
    exact hlt
  rw [scalarMulHigh, BitVec.toNat_setWidth, toNat_shiftRight, hmul]
  apply Nat.mod_eq_of_lt
  exact Nat.div_lt_of_lt_mul (hpow ▸ hlt)

end Lane

/-! ### `math64` is exact -/

namespace Math64

theorem toInt_clampSignedMagnitude64 (negative : Bool) (magnitude : BitVec 64) :
    (clampSignedMagnitude64 (maskLane 64 negative) magnitude).toInt =
      clampTo 64 (if negative then -(magnitude.toNat : ℤ) else magnitude.toNat) := by
  have hlow : lowest 64 = -2 ^ 63 := rfl
  have hhigh : highest 64 = 2 ^ 63 - 1 := rfl
  have hmax : (fixedMax 64).toNat = 2 ^ 63 - 1 := by decide
  have hlimit : (BitVec.twoPow 64 63).toNat = 2 ^ 63 := by decide
  rw [clampSignedMagnitude64, select_maskLane]
  cases negative with
  | true =>
      simp only [if_true, geUnsigned, select_maskLane, decide_eq_true_eq, ge_iff_le,
        BitVec.le_def, hlimit]
      split_ifs with hge
      · rw [toInt_fixedMin (by decide), clampTo_of_le]
        omega
      · rw [BitVec.zero_sub, toInt_neg_magnitude (by decide) (by omega), clampTo_of_mem] <;> omega
  | false =>
      simp only [Bool.false_eq_true, if_false, min, ltUnsigned, select_maskLane,
        decide_eq_true_eq, BitVec.lt_def, hmax]
      split_ifs with hlt
      · rw [toInt_of_toNat_lt (by decide) (by omega), clampTo_of_mem] <;> omega
      · rw [toInt_fixedMax (by decide), clampTo_of_ge]
        omega

theorem toNat_mulUnsignedShift63 {lhs rhs : BitVec 64}
    (hfits : lhs.toNat * rhs.toNat / 2 ^ 63 < 2 ^ 64) :
    (mulUnsignedShift63 lhs rhs).toNat = lhs.toNat * rhs.toNat / 2 ^ 63 :=
  toNat_limbShift (w := 64) rfl (by decide) lhs rhs hfits

theorem toInt_mulFixed (lhs rhs : BitVec 64) :
    (mulFixed lhs rhs).toInt = clampTo 64 ((lhs.toInt * rhs.toInt).tdiv (2 ^ 63 : ℕ)) := by
  have hfits : (absMagnitude lhs).toNat * (absMagnitude rhs).toNat / 2 ^ 63 < 2 ^ 64 := by
    rw [toNat_absMagnitude (by decide), toNat_absMagnitude (by decide)]
    have hle := Nat.mul_le_mul (natAbs_toInt_le lhs) (natAbs_toInt_le rhs)
    exact lt_of_le_of_lt (Nat.div_le_of_le_mul hle) (by decide)
  rw [mulFixed, ltSigned, ltSigned, maskLane_xor, toInt_clampSignedMagnitude64,
    toNat_mulUnsignedShift63 hfits, toNat_absMagnitude (by decide),
    toNat_absMagnitude (by decide), tdiv_of_signs]
  rfl

theorem toInt_mulFixedScaled (value coefficient : BitVec 64) :
    (mulFixedScaled value coefficient).toInt =
      clampTo 64 ((value.toInt * coefficient.toNat).tdiv (2 ^ 63 : ℕ)) := by
  have hfits : (absMagnitude value).toNat * coefficient.toNat / 2 ^ 63 < 2 ^ 64 := by
    rw [toNat_absMagnitude (by decide)]
    apply Nat.div_lt_of_lt_mul
    exact lt_of_le_of_lt (Nat.mul_le_mul_right _ (natAbs_toInt_le value))
      (Nat.mul_lt_mul_of_pos_left coefficient.isLt (by decide))
  rw [mulFixedScaled, ltSigned, toInt_clampSignedMagnitude64, toNat_mulUnsignedShift63 hfits,
    toNat_absMagnitude (by decide), tdiv_of_signs, Int.natAbs_natCast,
    decide_eq_false (not_lt.mpr (Int.natCast_nonneg coefficient.toNat)), Bool.xor_false]
  rfl

theorem scalarMulFixedScaled_eq (value coefficient : BitVec 64) :
    scalarMulFixedScaled value coefficient =
      some (scalarClamp 64 ((value.toInt * coefficient.toNat).tdiv (2 ^ 63 : ℕ))) := by
  have hprod : (value.toInt * coefficient.toNat).natAbs < 2 ^ (128 - 1) := by
    rw [Int.natAbs_mul, Int.natAbs_natCast]
    exact lt_of_le_of_lt (Nat.mul_le_mul_right _ (natAbs_toInt_le value))
      (Nat.mul_lt_mul_of_pos_left coefficient.isLt (by decide))
  rw [scalarMulFixedScaled, exactly_of_natAbs_lt hprod]
  show (exactly 128 _ >>= fun quotient => some (scalarClamp 64 quotient)) = _
  rw [exactly_tdiv hprod]
  rfl

theorem toInt_clampI128x2ToI64x (value : BitVec 128) :
    (clampI128x2ToI64x value).toInt = clampTo 64 value.toInt := by
  have hhigh : (BitVec.ofInt 128 (highest 64)).toInt = highest 64 := by decide
  have hlow : (BitVec.ofInt 128 (lowest 64)).toInt = lowest 64 := by decide
  have horder := lowest_le_highest 64
  simp only [clampI128x2ToI64x, gtSigned, ltSigned, select_maskLane, hhigh, hlow,
    decide_eq_true_eq]
  rcases lt_or_ge (highest 64) value.toInt with hgt | hle
  · rw [if_pos hgt, hhigh, if_neg (not_lt.mpr horder), clampTo_of_ge hgt.le,
      toInt_setWidth_of_mem (by decide) (by decide)] <;> rw [hhigh]
    exact horder
  · rw [if_neg (not_lt.mpr hle)]
    rcases lt_or_ge value.toInt (lowest 64) with hlt | hge
    · rw [if_pos hlt, clampTo_of_le hlt.le, toInt_setWidth_of_mem (by decide) (by decide)] <;>
        rw [hlow]
      exact horder
    · rw [if_neg (not_lt.mpr hge), clampTo_of_mem hge hle,
        toInt_setWidth_of_mem (by decide) (by decide) hge hle]

theorem toInt_addSat (lhs rhs : BitVec 64) :
    (addSat lhs rhs).toInt = clampTo 64 (lhs.toInt + rhs.toInt) := by
  rw [addSat, toInt_clampI128x2ToI64x, toInt_widen_add (by decide) (by decide)]

end Math64

/-! ### `math32` is exact -/

namespace Math32

/-- Rounding down, corrected where the dividend is negative and not a multiple. -/
theorem toInt_divFixedScale (product : BitVec 64) :
    (divFixedScale product).toInt = product.toInt.tdiv (2 ^ 31 : ℕ) := by
  have hremainder : (product &&& BitVec.ofNat 64 (2 ^ 31 - 1)).toNat = product.toNat % 2 ^ 31 :=
    toNat_lowBits (by decide) product
  have hzero : (product &&& BitVec.ofNat 64 (2 ^ 31 - 1) == 0#64) =
      decide ((2 ^ 31 : ℤ) ∣ product.toInt) := by
    rw [Bool.eq_iff_iff, beq_iff_eq, decide_eq_true_eq, ← BitVec.toNat_inj, hremainder]
    rw [BitVec.toInt_eq_toNat_cond]
    split_ifs <;> simp <;> omega
  have hshift : (product.sshiftRight 31).toInt = product.toInt / 2 ^ 31 := by
    rw [BitVec.toInt_sshiftRight, Int.shiftRight_eq_div_pow]
    rfl
  have hlow := toInt_lowest_le product
  have hhigh := toInt_le_highest product
  have hlowest : lowest 64 = -2 ^ 63 := rfl
  have hhighest : highest 64 = 2 ^ 63 - 1 := rfl
  rw [divFixedScale, ltSigned, eqLane, hzero, not_maskLane, maskLane_and, select_maskLane,
    BitVec.toInt_zero, Int.tdiv_eq_ediv]
  have hmask : (decide (product.toInt < 0) && !decide ((2 ^ 31 : ℤ) ∣ product.toInt)) = true ↔
      ¬ (0 ≤ product.toInt ∨ ((2 ^ 31 : ℕ) : ℤ) ∣ product.toInt) := by
    simp
  by_cases hcorrect : 0 ≤ product.toInt ∨ ((2 ^ 31 : ℕ) : ℤ) ∣ product.toInt
  · rw [if_neg (fun h => hmask.mp h hcorrect), if_pos hcorrect, BitVec.add_zero, hshift, add_zero]
    rfl
  · rw [if_pos (hmask.mpr hcorrect), if_neg hcorrect, toInt_add_of_mem (by decide)] <;>
      rw [hshift, show (1#64).toInt = 1 from rfl]
    · rfl
    · omega
    · omega

theorem toInt_clampWideToI32x (value : BitVec 64) :
    (clampWideToI32x value).toInt = clampTo 32 value.toInt := by
  have hhigh : (BitVec.ofInt 64 (highest 32)).toInt = highest 32 := by decide
  have hlow : (BitVec.ofInt 64 (lowest 32)).toInt = lowest 32 := by decide
  have horder := lowest_le_highest 32
  simp only [clampWideToI32x, gtSigned, ltSigned, select_maskLane, hhigh, hlow, decide_eq_true_eq]
  rcases lt_or_ge value.toInt (lowest 32) with hlt | hge
  · rw [if_pos hlt, hlow, if_neg (not_lt.mpr horder), clampTo_of_le hlt.le,
      toInt_setWidth_of_mem (by decide) (by decide)] <;> rw [hlow]
    exact horder
  · rw [if_neg (not_lt.mpr hge)]
    rcases lt_or_ge (highest 32) value.toInt with hgt | hle
    · rw [if_pos hgt, clampTo_of_ge hgt.le, toInt_setWidth_of_mem (by decide) (by decide)] <;>
        rw [hhigh]
      exact horder
    · rw [if_neg (not_lt.mpr hle), clampTo_of_mem hge hle,
        toInt_setWidth_of_mem (by decide) (by decide) hge hle]

theorem toInt_mulFixed (lhs rhs : BitVec 32) :
    (mulFixed lhs rhs).toInt = clampTo 32 ((lhs.toInt * rhs.toInt).tdiv (2 ^ 31 : ℕ)) := by
  have hprod : (widen 64 lhs * widen 64 rhs).toInt = lhs.toInt * rhs.toInt := by
    obtain ⟨hlow, hhigh⟩ := mem_of_natAbs_lt (natAbs_mul_lt (by decide) rfl lhs rhs)
    rw [toInt_mul_of_mem (by decide)] <;> simp only [toInt_widen (by decide : 32 ≤ 64)]
    · exact hlow
    · exact hhigh
  rw [mulFixed, toInt_clampWideToI32x, toInt_divFixedScale, hprod]

/-- The product of a raw value and a coefficient. -/
theorem natAbs_mul_coefficient_lt (value coefficient : BitVec 32) :
    (value.toInt * coefficient.toNat).natAbs < 2 ^ (64 - 1) := by
  rw [Int.natAbs_mul, Int.natAbs_natCast]
  exact lt_of_le_of_lt (Nat.mul_le_mul_right _ (natAbs_toInt_le value))
    (Nat.mul_lt_mul_of_pos_left coefficient.isLt (by decide))

theorem toInt_mulFixedScaled (value coefficient : BitVec 32) :
    (mulFixedScaled value coefficient).toInt =
      clampTo 32 ((value.toInt * coefficient.toNat).tdiv (2 ^ 31 : ℕ)) := by
  have hwide : (coefficient.setWidth 64).toInt = coefficient.toNat := by
    have hlt := coefficient.isLt
    have hnat : (coefficient.setWidth 64).toNat = coefficient.toNat :=
      BitVec.toNat_setWidth_of_le (by decide)
    rw [toInt_of_toNat_lt (by decide) (by omega), hnat]
  have hprod : (widen 64 value * coefficient.setWidth 64).toInt =
      value.toInt * coefficient.toNat := by
    obtain ⟨hlow, hhigh⟩ := mem_of_natAbs_lt (natAbs_mul_coefficient_lt value coefficient)
    rw [toInt_mul_of_mem (by decide)] <;> simp only [toInt_widen (by decide : 32 ≤ 64), hwide]
    · exact hlow
    · exact hhigh
  rw [mulFixedScaled, toInt_clampWideToI32x, toInt_divFixedScale, hprod]

/-- A coefficient of the width of a lane keeps the quotient inside the narrower word. -/
theorem scalarMulFixedScaled_eq (value coefficient : BitVec 32) :
    scalarMulFixedScaled value (coefficient.setWidth 64) =
      some (scalarClamp 32 ((value.toInt * coefficient.toNat).tdiv (2 ^ 31 : ℕ))) := by
  have hprod := natAbs_mul_coefficient_lt value coefficient
  have hwide : (coefficient.setWidth 64).toNat = coefficient.toNat :=
    BitVec.toNat_setWidth_of_le (by decide)
  have hwider : (value.toInt * coefficient.toNat).natAbs < 2 ^ (128 - 1) :=
    hprod.trans (by decide)
  obtain ⟨hlow, hhigh⟩ := mem_of_natAbs_lt (lt_of_le_of_lt
    (natAbs_tdiv_le (value.toInt * coefficient.toNat) (2 ^ 31)) hprod)
  rw [scalarMulFixedScaled, hwide, exactly_of_natAbs_lt hwider]
  show (exactly 128 _ >>= fun quotient =>
    some (scalarClamp 32 (BitVec.ofInt 64 quotient).toInt)) = _
  rw [exactly_tdiv hwider]
  show some (scalarClamp 32 (BitVec.ofInt 64 _).toInt) = _
  rw [toInt_ofInt_of_mem (by decide) hlow hhigh]

theorem toInt_addSat (lhs rhs : BitVec 32) :
    (addSat lhs rhs).toInt = clampTo 32 (lhs.toInt + rhs.toInt) := by
  rw [addSat, toInt_clampWideToI32x, toInt_widen_add (by decide) (by decide)]

end Math32

/-! ### Products -/

/-- **Lane products are exact**: the products of `math64` from halves of a word and those of
`math32` in a wider one are the exact products, shifted, truncated and saturated as the scalar
functions compute them, on every pair of raw values. -/
theorem laneProducts_exact :
    (∀ lhs rhs : BitVec 64,
      ((Math64.mulFixed lhs rhs).toInt =
          clampTo 64 ((lhs.toInt * rhs.toInt).tdiv (2 ^ 63 : ℕ)) ∧
        Math64.scalarMulFixed lhs rhs = some (Math64.mulFixed lhs rhs)) ∧
      ((Math64.mulFixedScaled lhs rhs).toInt =
          clampTo 64 ((lhs.toInt * rhs.toNat).tdiv (2 ^ 63 : ℕ)) ∧
        Math64.scalarMulFixedScaled lhs rhs = some (Math64.mulFixedScaled lhs rhs)) ∧
      (Math64.mulHigh lhs rhs).toNat = lhs.toNat * rhs.toNat / 2 ^ 64 ∧
        Math64.scalarMulHigh lhs rhs = Math64.mulHigh lhs rhs) ∧
    ∀ lhs rhs : BitVec 32,
      ((Math32.mulFixed lhs rhs).toInt =
          clampTo 32 ((lhs.toInt * rhs.toInt).tdiv (2 ^ 31 : ℕ)) ∧
        Math32.scalarMulFixed lhs rhs = some (Math32.mulFixed lhs rhs)) ∧
      ((Math32.mulFixedScaled lhs rhs).toInt =
          clampTo 32 ((lhs.toInt * rhs.toNat).tdiv (2 ^ 31 : ℕ)) ∧
        Math32.scalarMulFixedScaled lhs (rhs.setWidth 64) = some (Math32.mulFixedScaled lhs rhs)) ∧
      (Math32.mulHigh lhs rhs).toNat = lhs.toNat * rhs.toNat / 2 ^ 32 ∧
        Math32.scalarMulHigh lhs rhs = Math32.mulHigh lhs rhs := by
  -- a lane and a scalar result with the same value are the same word
  have hsame : ∀ {w : ℕ} {value : ℤ} {lane : BitVec w}, 0 < w → lane.toInt = clampTo w value →
      some (scalarClamp w value) = some lane := by
    intro w value lane hw hlane
    rw [Option.some.injEq, ← BitVec.toInt_inj, toInt_scalarClamp hw, hlane]
  refine ⟨fun lhs rhs => ⟨⟨Math64.toInt_mulFixed lhs rhs, ?_⟩,
    ⟨Math64.toInt_mulFixedScaled lhs rhs, ?_⟩, ?_⟩, fun lhs rhs =>
    ⟨⟨Math32.toInt_mulFixed lhs rhs, ?_⟩, ⟨Math32.toInt_mulFixedScaled lhs rhs, ?_⟩, ?_⟩⟩
  · rw [Math64.scalarMulFixed, scalarMulFixed_eq (by decide) rfl]
    exact hsame (by decide) (Math64.toInt_mulFixed lhs rhs)
  · rw [Math64.scalarMulFixedScaled_eq]
    exact hsame (by decide) (Math64.toInt_mulFixedScaled lhs rhs)
  · have hhigh : (Math64.mulHigh lhs rhs).toNat = lhs.toNat * rhs.toNat / 2 ^ 64 :=
      (toNat_limbs (w := 64) rfl (by decide) lhs rhs).1
    refine ⟨hhigh, BitVec.eq_of_toNat_eq ?_⟩
    rw [Math64.scalarMulHigh, toNat_scalarMulHigh rfl, hhigh]
  · rw [Math32.scalarMulFixed, scalarMulFixed_eq (by decide) rfl]
    exact hsame (by decide) (Math32.toInt_mulFixed lhs rhs)
  · rw [Math32.scalarMulFixedScaled_eq]
    exact hsame (by decide) (Math32.toInt_mulFixedScaled lhs rhs)
  · have hhigh : (Math32.mulHigh lhs rhs).toNat = lhs.toNat * rhs.toNat / 2 ^ 32 :=
      (toNat_limbs (w := 32) rfl (by decide) lhs rhs).1
    refine ⟨hhigh, BitVec.eq_of_toNat_eq ?_⟩
    rw [Math32.scalarMulHigh, toNat_scalarMulHigh rfl, hhigh]

/-! ### Products and addends -/

namespace Lane

variable {w : ℕ}

theorem toInt_eq_lowest_iff (hw : 0 < w) (x : BitVec w) : x.toInt = lowest w ↔ x = fixedMin w := by
  rw [← toInt_fixedMin hw, BitVec.toInt_inj]

/-- The truncated product of two raw values, and the one pair that leaves the range. -/
theorem product_range (hw : 0 < w) (lhs rhs : BitVec w) :
    lowest w ≤ (lhs.toInt * rhs.toInt).tdiv (2 ^ (w - 1) : ℕ) ∧
      (lhs.toInt * rhs.toInt).tdiv (2 ^ (w - 1) : ℕ) ≤
        if lhs = fixedMin w ∧ rhs = fixedMin w then highest w + 1 else highest w := by
  set scale := 2 ^ (w - 1) with hscale
  have hpos : 0 < scale := Nat.two_pow_pos _
  have hlowest : lowest w = -(scale : ℤ) := by simp [lowest, hscale]
  have hhighest : highest w = (scale : ℤ) - 1 := by simp [highest, hscale]
  have hlhs := natAbs_toInt_le lhs
  have hrhs := natAbs_toInt_le rhs
  have habs : ((lhs.toInt * rhs.toInt).tdiv scale).natAbs =
      lhs.toInt.natAbs * rhs.toInt.natAbs / scale := by
    rw [Int.natAbs_tdiv, Int.natAbs_mul, Int.natAbs_natCast]
    rfl
  have hquot : lhs.toInt.natAbs * rhs.toInt.natAbs / scale ≤ scale :=
    Nat.div_le_of_le_mul (Nat.mul_le_mul hlhs hrhs)
  refine ⟨by omega, ?_⟩
  split_ifs with hboth
  · omega
  · -- one of the magnitudes is below the scale, so the quotient is
    have hless : lhs.toInt.natAbs * rhs.toInt.natAbs < scale * scale := by
      rcases not_and_or.mp hboth with hne | hne
      · have hlow := toInt_lowest_le lhs
        have hhigh := toInt_le_highest lhs
        have hother : lhs.toInt ≠ lowest w := fun h => hne ((toInt_eq_lowest_iff hw lhs).mp h)
        exact Nat.mul_lt_mul_of_lt_of_le (by omega) hrhs hpos
      · have hlow := toInt_lowest_le rhs
        have hhigh := toInt_le_highest rhs
        have hother : rhs.toInt ≠ lowest w := fun h => hne ((toInt_eq_lowest_iff hw rhs).mp h)
        exact Nat.mul_lt_mul_of_le_of_lt hlhs (by omega) hpos
    have hlt := Nat.div_lt_of_lt_mul hless
    omega

theorem product_fixedMin (hw : 0 < w) :
    ((fixedMin w).toInt * (fixedMin w).toInt).tdiv (2 ^ (w - 1) : ℕ) = highest w + 1 := by
  rw [tdiv_of_signs, toInt_fixedMin hw]
  have habs : (lowest w).natAbs = 2 ^ (w - 1) := by
    simp [lowest, Int.natAbs_pow]
  rw [Bool.xor_self, if_neg (by decide), habs, Nat.mul_div_cancel _ (Nat.two_pow_pos _)]
  simp [highest]

/-- Saturating the product first changes the sum exactly when the product leaves the range and
the addend would bring it back. -/
theorem clampTo_product_add_iff (hw : 0 < w) (lhs rhs addend : BitVec w) :
    clampTo w (clampTo w ((lhs.toInt * rhs.toInt).tdiv (2 ^ (w - 1) : ℕ)) + addend.toInt) =
        clampTo w ((lhs.toInt * rhs.toInt).tdiv (2 ^ (w - 1) : ℕ) + addend.toInt) ↔
      ¬ (lhs = fixedMin w ∧ rhs = fixedMin w ∧ addend.toInt < 0) := by
  obtain ⟨hlow, hhigh⟩ := product_range hw lhs rhs
  by_cases hboth : lhs = fixedMin w ∧ rhs = fixedMin w
  · obtain ⟨rfl, rfl⟩ := hboth
    rw [product_fixedMin hw, clampTo_of_ge (v := highest w + 1) (by omega)]
    have haddLow := toInt_lowest_le addend
    have hlowest : lowest w = -(highest w + 1) := by
      rw [lowest, highest, sub_add_cancel]
    rcases lt_or_ge addend.toInt 0 with hneg | hpos
    · have hhighest := highest_nonneg w
      rw [clampTo_of_mem (v := highest w + addend.toInt) (by omega) (by omega),
        clampTo_of_mem (v := highest w + 1 + addend.toInt) (by omega) (by omega)]
      refine iff_of_false (by omega) fun h => h ⟨rfl, rfl, hneg⟩
    · rw [clampTo_of_ge (v := highest w + addend.toInt) (by omega),
        clampTo_of_ge (v := highest w + 1 + addend.toInt) (by omega)]
      exact iff_of_true rfl fun h => absurd h.2.2 (not_lt.mpr hpos)
  · rw [if_neg hboth] at hhigh
    rw [clampTo_of_mem hlow hhigh]
    exact iff_of_true rfl fun h => hboth ⟨h.1, h.2.1⟩

end Lane

/-- **Lane and scalar `MulAddFixed` agree**, on the exact product plus the addend with one
saturation, exactly where the factors are not both the lowest raw value or the addend is not
negative. -/
theorem mulAddFixed_agree_iff (lhs rhs addend : BitVec 64) (lhs' rhs' addend' : BitVec 32) :
    ((Math64.scalarMulAddFixed lhs rhs addend = some (Math64.mulAddFixed lhs rhs addend) ∧
        (Math64.mulAddFixed lhs rhs addend).toInt =
          clampTo 64 ((lhs.toInt * rhs.toInt).tdiv (2 ^ 63 : ℕ) + addend.toInt)) ↔
      ¬ (lhs = fixedMin 64 ∧ rhs = fixedMin 64 ∧ addend.toInt < 0)) ∧
    ((Math32.scalarMulAddFixed lhs' rhs' addend' = some (Math32.mulAddFixed lhs' rhs' addend') ∧
        (Math32.mulAddFixed lhs' rhs' addend').toInt =
          clampTo 32 ((lhs'.toInt * rhs'.toInt).tdiv (2 ^ 31 : ℕ) + addend'.toInt)) ↔
      ¬ (lhs' = fixedMin 32 ∧ rhs' = fixedMin 32 ∧ addend'.toInt < 0)) := by
  have hagree : ∀ {w : ℕ} {value : ℤ} {lane : BitVec w}, 0 < w →
      ((some (scalarClamp w value) = some lane ∧ lane.toInt = clampTo w value) ↔
        lane.toInt = clampTo w value) := by
    intro w value lane hw
    rw [Option.some.injEq, ← BitVec.toInt_inj, toInt_scalarClamp hw]
    exact ⟨fun h => h.2, fun h => ⟨h.symm, h⟩⟩
  constructor
  · rw [Math64.scalarMulAddFixed, scalarMulAddFixed_eq (by decide) rfl, hagree (by decide),
      Math64.mulAddFixed, Math64.toInt_addSat, Math64.toInt_mulFixed]
    exact clampTo_product_add_iff (by decide) lhs rhs addend
  · rw [Math32.scalarMulAddFixed, scalarMulAddFixed_eq (by decide) rfl, hagree (by decide),
      Math32.mulAddFixed, Math32.toInt_addSat, Math32.toInt_mulFixed]
    exact clampTo_product_add_iff (by decide) lhs' rhs' addend'

/-- The square of the lowest raw value and a negative addend: the lanes lose one unit. -/
theorem mulAddFixed_fixedMin :
    Math64.mulAddFixed (fixedMin 64) (fixedMin 64) (-1) = 9223372036854775806 ∧
      Math64.scalarMulAddFixed (fixedMin 64) (fixedMin 64) (-1) = some 9223372036854775807 ∧
      Math32.mulAddFixed (fixedMin 32) (fixedMin 32) (-1) = 2147483646 ∧
      Math32.scalarMulAddFixed (fixedMin 32) (fixedMin 32) (-1) = some 2147483647 := by
  decide

end RunD
