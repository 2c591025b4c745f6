/-
Fixed-point quotients of `math64` and `math32`, lane and scalar.

A lane divides magnitudes in twice its width, one bit at a time from the bit
below the sign bit down, and puts the sign back; the scalar functions divide
wide signed integers.  Both give the exact quotient, truncated and saturated. A
divisor of zero gives the end of the range on the side of the dividend, or zero,
and a reciprocal of zero the highest raw value.
-/
import RunD.MathMul

namespace RunD

open RunD.Word
open RunD.Fixed (lowest highest lowest_nonpos highest_nonneg lowest_le_highest toInt_ofInt_of_mem)
open RunD.Lane

/-! ### The operations -/

namespace Lane

variable {w W : ℕ}

/-- One round of `UnsignedDiv128` and `UnsignedDiv64`. -/
def unsignedDivRound (numerator safeDenominator : BitVec W) (bit : ℕ) (state : DivState W) :
    DivState W :=
  let remainder := state.remainder <<< 1 ||| ((numerator >>> bit) &&& 1#W)
  let ge := geUnsigned remainder safeDenominator
  { quotient := state.quotient ||| select ge (BitVec.twoPow W bit) 0#W
    remainder := select ge (remainder - safeDenominator) remainder }

/-- `for (int bit = n - 1; bit >= 0; --bit)`. -/
def unsignedDivRounds (numerator safeDenominator : BitVec W) : ℕ → DivState W → DivState W
  | 0, state => state
  | bit + 1, state =>
      unsignedDivRounds numerator safeDenominator bit
        (unsignedDivRound numerator safeDenominator bit state)

/-- `UnsignedDiv128` and `UnsignedDiv64`, from the bit below `bits` on. -/
def unsignedDiv (bits : ℕ) (numerator denominator : BitVec W) : BitVec W :=
  let safeDenominator := select (eqLane denominator 0#W) 1#W denominator
  (unsignedDivRounds numerator safeDenominator bits { quotient := 0, remainder := 0 }).quotient

/-- `DivFixed`, with the division and the clamp of the width. -/
def divFixed (div : BitVec W → BitVec W → BitVec W) (clamp : BitVec W → BitVec W → BitVec w)
    (lhs rhs : BitVec w) : BitVec w :=
  let lhsMag := absMagnitudeWide W lhs
  let rhsMag := absMagnitudeWide W rhs
  let quotient := div (lhsMag <<< (w - 1)) rhsMag
  let negative := ltSigned (widen W lhs) 0#W ^^^ ltSigned (widen W rhs) 0#W
  let divided := clamp negative quotient
  let zeroRhs := select (gtSigned lhs 0#w) (fixedMax w) (select (ltSigned lhs 0#w) (fixedMin w) 0#w)
  select ((eqLane rhsMag 0#W).setWidth w) zeroRhs divided

/-- `Recip`, with the division and the clamp of the width. -/
def recip (div : BitVec W → BitVec W → BitVec W) (clamp : BitVec W → BitVec W → BitVec w)
    (value : BitVec w) : BitVec w :=
  let magnitude := absMagnitudeWide W value
  let quotient := div (BitVec.twoPow W (2 * (w - 1))) magnitude
  let negative := ltSigned (widen W value) 0#W
  select (eqLane value 0#w) (fixedMax w) (clamp negative quotient)

/-- `ScalarDivFixed`, with intermediate values of `W` bits. -/
def scalarDivFixed (W : ℕ) (lhs rhs : BitVec w) : Option (BitVec w) :=
  if rhs = 0#w then
    some (if lhs.toInt > 0 then fixedMax w else if lhs.toInt < 0 then fixedMin w else 0#w)
  else do
    let numerator ← exactly W (lhs.toInt * (2 ^ (w - 1) : ℕ))
    let quotient ← exactly W (numerator.tdiv rhs.toInt)
    some (scalarClamp w quotient)

/-- `ScalarRecip`. -/
def scalarRecip (W : ℕ) (value : BitVec w) : Option (BitVec w) :=
  if value = 0#w then some (fixedMax w)
  else do
    let numerator ← exactly W ((2 ^ (w - 1) : ℕ) * (2 ^ (w - 1) : ℕ))
    let quotient ← exactly W (numerator.tdiv value.toInt)
    some (scalarClamp w quotient)

end Lane

namespace Math64

def unsignedDiv128 (numerator denominator : BitVec 128) : BitVec 128 :=
  unsignedDiv 127 numerator denominator

def clampSignedMagnitude128 (negative magnitude : BitVec 128) : BitVec 64 :=
  let fixedMinMagnitude := BitVec.twoPow 128 63
  let fixedMaxMagnitude := BitVec.ofNat 128 (2 ^ 63 - 1)
  let positive := select (gtUnsigned magnitude fixedMaxMagnitude) fixedMaxMagnitude magnitude
  let negativeValue :=
    -select (geUnsigned magnitude fixedMinMagnitude) fixedMinMagnitude magnitude
  (select negative negativeValue positive).setWidth 64

def divFixed (lhs rhs : BitVec 64) : BitVec 64 :=
  Lane.divFixed unsignedDiv128 clampSignedMagnitude128 lhs rhs

def recip (value : BitVec 64) : BitVec 64 :=
  Lane.recip unsignedDiv128 clampSignedMagnitude128 value

def scalarDivFixed (lhs rhs : BitVec 64) : Option (BitVec 64) := Lane.scalarDivFixed 128 lhs rhs

def scalarRecip (value : BitVec 64) : Option (BitVec 64) := Lane.scalarRecip 128 value

end Math64

namespace Math32

def unsignedDiv64 (numerator denominator : BitVec 64) : BitVec 64 :=
  unsignedDiv 63 numerator denominator

/-- `Min64`. -/
def min64 (lhs rhs : BitVec 64) : BitVec 64 := select (geUnsigned lhs rhs) rhs lhs

def clampU64x4ToI32x (value : BitVec 64) : BitVec 32 :=
  (min64 value (BitVec.ofNat 64 (2 ^ 31 - 1))).setWidth 32

def clampSignedMagnitude64 (negative magnitude : BitVec 64) : BitVec 32 :=
  let posMag := min64 magnitude (BitVec.ofNat 64 (2 ^ 31 - 1))
  let negMag := min64 magnitude (BitVec.twoPow 64 31)
  (select negative (-negMag) posMag).setWidth 32

def divFixed (lhs rhs : BitVec 32) : BitVec 32 :=
  Lane.divFixed unsignedDiv64 clampSignedMagnitude64 lhs rhs

def recip (value : BitVec 32) : BitVec 32 :=
  Lane.recip unsignedDiv64 clampSignedMagnitude64 value

def scalarDivFixed (lhs rhs : BitVec 32) : Option (BitVec 32) := Lane.scalarDivFixed 64 lhs rhs

def scalarRecip (value : BitVec 32) : Option (BitVec 32) := Lane.scalarRecip 64 value

end Math32

/-! ### The exact results -/

namespace Lane

variable {w W : ℕ}

/-- What a division of raw values is meant to be: the truncated quotient, saturated, and the end
of the range on the side of the dividend where the divisor is zero. -/
def exactQuotient (w : ℕ) (lhs rhs : ℤ) : ℤ :=
  if rhs = 0 then if lhs > 0 then highest w else if lhs < 0 then lowest w else 0
  else clampTo w ((lhs * (2 ^ (w - 1) : ℕ)).tdiv rhs)

/-- What a reciprocal is meant to be. -/
def exactReciprocal (w : ℕ) (value : ℤ) : ℤ :=
  if value = 0 then highest w
  else clampTo w (((2 ^ (w - 1) : ℕ) * (2 ^ (w - 1) : ℕ) : ℤ).tdiv value)

/-! ### The division of magnitudes -/

theorem unsignedDivRound_eq (numerator denominator : BitVec W) (bit : ℕ) (state : DivState W) :
    unsignedDivRound numerator denominator bit state =
      divRound numerator denominator bit state := by
  rw [unsignedDivRound, divRound]
  simp only [geUnsigned, select_maskLane, decide_eq_true_eq, ge_iff_le]
  split_ifs <;> simp

theorem unsignedDivRounds_eq (numerator denominator : BitVec W) (n : ℕ) (state : DivState W) :
    unsignedDivRounds numerator denominator n state = divRounds numerator denominator n state := by
  induction n generalizing state with
  | zero => rfl
  | succ n ih =>
      rw [unsignedDivRounds, divRounds, unsignedDivRound_eq]
      exact ih _

theorem toNat_unsignedDiv {n : ℕ} {numerator denominator : BitVec W} (hn : n ≤ W)
    (hnumerator : numerator.toNat < 2 ^ n) (hpos : 0 < denominator.toNat) :
    (unsignedDiv n numerator denominator).toNat = numerator.toNat / denominator.toNat := by
  have hne : (denominator == 0#W) = false := by
    apply beq_eq_false_iff_ne.mpr
    rintro rfl
    simp at hpos
  rw [unsignedDiv, eqLane, select_maskLane, hne, if_neg (by decide), unsignedDivRounds_eq]
  exact (divRounds_eq hn hnumerator hpos).1

/-- A raw value that is not negative, shifted as a numerator. -/
theorem toNat_numerator (hw : 0 < w) (hW : W = 2 * w) {value : BitVec w}
    (h : 0 ≤ value.toInt) :
    (value.setWidth W <<< (w - 1)).toNat = value.toInt.toNat * 2 ^ (w - 1) ∧
      value.toInt.toNat * 2 ^ (w - 1) < 2 ^ (W - 1) := by
  have hle := toInt_le_highest value
  have hnat : value.toNat = value.toInt.toNat := by
    rw [toNat_eq_natAbs hw h]
    omega
  have hbelow : value.toInt.toNat < 2 ^ (w - 1) := by
    rw [highest] at hle
    zify
    rw [Int.toNat_of_nonneg h]
    linarith
  have hproduct : value.toInt.toNat * 2 ^ (w - 1) < 2 ^ (W - 1) := by
    calc value.toInt.toNat * 2 ^ (w - 1) < 2 ^ (w - 1) * 2 ^ (w - 1) :=
          Nat.mul_lt_mul_of_pos_right hbelow (Nat.two_pow_pos _)
      _ = 2 ^ (w - 1 + (w - 1)) := (pow_add ..).symm
      _ ≤ 2 ^ (W - 1) := Nat.pow_le_pow_right two_pos (by omega)
  refine ⟨?_, hproduct⟩
  rw [BitVec.toNat_shiftLeft, BitVec.toNat_setWidth_of_le (by omega), hnat, Nat.shiftLeft_eq,
    Nat.mod_eq_of_lt]
  exact hproduct.trans (Nat.pow_lt_pow_right (by decide) (by omega))

/-- A quotient narrowed after the minimum with a word of the lane. -/
theorem toNat_setWidth_select (quotient top : BitVec W) (htop : top.toNat < 2 ^ w) :
    ((select (geUnsigned quotient top) top quotient).setWidth w).toNat =
      min quotient.toNat top.toNat := by
  have hmin : (select (geUnsigned quotient top) top quotient).toNat =
      min quotient.toNat top.toNat := by
    rw [geUnsigned, select_maskLane]
    simp only [ge_iff_le, decide_eq_true_eq, BitVec.le_def]
    split_ifs with hge
    · exact (min_eq_right hge).symm
    · exact (min_eq_left (not_le.mp hge).le).symm
  rw [BitVec.toNat_setWidth, hmin]
  exact Nat.mod_eq_of_lt (lt_of_le_of_lt (min_le_right _ _) htop)

theorem select_gtUnsigned (quotient top : BitVec W) :
    select (gtUnsigned quotient top) top quotient =
      select (geUnsigned quotient top) top quotient := by
  rw [gtUnsigned, geUnsigned, select_maskLane, select_maskLane]
  simp only [decide_eq_true_eq, gt_iff_lt, ge_iff_le, BitVec.lt_def, BitVec.le_def]
  split_ifs with hgt hge hge
  · rfl
  · exact absurd hgt.le hge
  · exact BitVec.eq_of_toNat_eq (le_antisymm (not_lt.mp hgt) hge)
  · rfl

/-- A minimum with the greatest raw value is the saturated quotient. -/
theorem toInt_of_toNat_min (hw : 0 < w) {value : BitVec w} {quotient : ℕ}
    (h : value.toNat = min quotient (2 ^ (w - 1) - 1)) : value.toInt = clampTo w quotient := by
  have hpow : 0 < 2 ^ (w - 1) := Nat.two_pow_pos _
  have hlowest : lowest w = -((2 ^ (w - 1) : ℕ) : ℤ) := by simp [lowest]
  have hhighest : highest w = ((2 ^ (w - 1) : ℕ) : ℤ) - 1 := by simp [highest]
  rw [toInt_of_toNat_lt hw (by omega), h, clampTo, hlowest, hhighest]
  omega

/-! ### Quotients of raw values -/

/-- The truncated quotient, from the magnitudes and the signs. -/
theorem tdiv_eq_of_signs (n d : ℤ) :
    n.tdiv d = if decide (n < 0) ^^ decide (d < 0)
      then -((n.natAbs / d.natAbs : ℕ) : ℤ) else ((n.natAbs / d.natAbs : ℕ) : ℤ) := by
  have hquot : ∀ a b : ℕ, (a : ℤ).tdiv b = ((a / b : ℕ) : ℤ) := fun a b => Int.ofNat_tdiv a b
  rcases lt_or_ge n 0 with hn | hn <;> rcases lt_or_ge d 0 with hd | hd
  · have hboth : n.tdiv d = (n.natAbs : ℤ).tdiv d.natAbs := by
      rw [Int.ofNat_natAbs_of_nonpos hn.le, Int.ofNat_natAbs_of_nonpos hd.le, Int.neg_tdiv,
        Int.tdiv_neg, neg_neg]
    rw [hboth, hquot]
    simp [hn, hd]
  · have hneg : n.tdiv d = -(n.natAbs : ℤ).tdiv d.natAbs := by
      rw [Int.ofNat_natAbs_of_nonpos hn.le, Int.natAbs_of_nonneg hd, Int.neg_tdiv, neg_neg]
    rw [hneg, hquot]
    simp [hn, not_lt.mpr hd]
  · have hneg : n.tdiv d = -(n.natAbs : ℤ).tdiv d.natAbs := by
      rw [Int.natAbs_of_nonneg hn, Int.ofNat_natAbs_of_nonpos hd.le, Int.tdiv_neg, neg_neg]
    rw [hneg, hquot]
    simp [not_lt.mpr hn, hd]
  · have hboth : n.tdiv d = (n.natAbs : ℤ).tdiv d.natAbs := by
      rw [Int.natAbs_of_nonneg hn, Int.natAbs_of_nonneg hd]
    rw [hboth, hquot]
    simp [not_lt.mpr hn, not_lt.mpr hd]

theorem toInt_eq_zero_iff (x : BitVec w) : x.toInt = 0 ↔ x = 0#w := by
  rw [← BitVec.toInt_zero (w := w), BitVec.toInt_inj]

/-- `ScalarDivFixed` of a divisor that is not zero stays in the wide word. -/
theorem scalarDivFixed_eq (hw : 0 < w) (hW : W = 2 * w) (lhs rhs : BitVec w) :
    ∃ result, scalarDivFixed W lhs rhs = some result ∧
      result.toInt = exactQuotient w lhs.toInt rhs.toInt := by
  rw [scalarDivFixed, exactQuotient]
  by_cases hzero : rhs = 0#w
  · rw [if_pos hzero, if_pos ((toInt_eq_zero_iff rhs).mpr hzero)]
    refine ⟨_, rfl, ?_⟩
    split_ifs
    · exact toInt_fixedMax hw
    · exact toInt_fixedMin hw
    · exact BitVec.toInt_zero
  · have hnumerator : (lhs.toInt * (2 ^ (w - 1) : ℕ)).natAbs < 2 ^ (W - 1) := by
      rw [Int.natAbs_mul, Int.natAbs_natCast]
      calc lhs.toInt.natAbs * 2 ^ (w - 1) ≤ 2 ^ (w - 1) * 2 ^ (w - 1) :=
            Nat.mul_le_mul_right _ (natAbs_toInt_le lhs)
        _ = 2 ^ (w - 1 + (w - 1)) := (pow_add ..).symm
        _ < 2 ^ (W - 1) := Nat.pow_lt_pow_right (by decide) (by omega)
    have hquotient : ((lhs.toInt * (2 ^ (w - 1) : ℕ)).tdiv rhs.toInt).natAbs < 2 ^ (W - 1) := by
      rw [Int.natAbs_tdiv]
      exact lt_of_le_of_lt (Nat.div_le_self _ _) hnumerator
    rw [if_neg hzero, if_neg (mt (toInt_eq_zero_iff rhs).mp hzero),
      exactly_of_natAbs_lt hnumerator]
    refine ⟨scalarClamp w ((lhs.toInt * (2 ^ (w - 1) : ℕ)).tdiv rhs.toInt), ?_,
      toInt_scalarClamp hw _⟩
    show (exactly W _ >>= fun quotient => some (scalarClamp w quotient)) = _
    rw [exactly_of_natAbs_lt hquotient]
    rfl

theorem scalarRecip_eq (hw : 0 < w) (hW : W = 2 * w) (value : BitVec w) :
    ∃ result, scalarRecip W value = some result ∧
      result.toInt = exactReciprocal w value.toInt := by
  rw [scalarRecip, exactReciprocal]
  by_cases hzero : value = 0#w
  · rw [if_pos hzero, if_pos ((toInt_eq_zero_iff value).mpr hzero)]
    exact ⟨_, rfl, toInt_fixedMax hw⟩
  · have hnumerator : ((2 ^ (w - 1) : ℕ) * (2 ^ (w - 1) : ℕ) : ℤ).natAbs < 2 ^ (W - 1) := by
      rw [Int.natAbs_mul, Int.natAbs_natCast, ← pow_add]
      exact Nat.pow_lt_pow_right (by decide) (by omega)
    have hquotient :
        (((2 ^ (w - 1) : ℕ) * (2 ^ (w - 1) : ℕ) : ℤ).tdiv value.toInt).natAbs < 2 ^ (W - 1) := by
      rw [Int.natAbs_tdiv]
      exact lt_of_le_of_lt (Nat.div_le_self _ _) hnumerator
    rw [if_neg hzero, if_neg (mt (toInt_eq_zero_iff value).mp hzero),
      exactly_of_natAbs_lt hnumerator]
    refine ⟨scalarClamp w (((2 ^ (w - 1) : ℕ) * (2 ^ (w - 1) : ℕ) : ℤ).tdiv value.toInt), ?_,
      toInt_scalarClamp hw _⟩
    show (exactly W _ >>= fun quotient => some (scalarClamp w quotient)) = _
    rw [exactly_of_natAbs_lt hquotient]
    rfl

section Wide

variable {div : BitVec W → BitVec W → BitVec W} {clamp : BitVec W → BitVec W → BitVec w}
variable (hw : 0 < w) (hW : W = 2 * w)
variable (hdiv : ∀ numerator denominator : BitVec W, numerator.toNat < 2 ^ (W - 1) →
  0 < denominator.toNat → (div numerator denominator).toNat = numerator.toNat / denominator.toNat)
variable (hclamp : ∀ (negative : Bool) (magnitude : BitVec W),
  (clamp (maskLane W negative) magnitude).toInt =
    clampTo w (if negative then -(magnitude.toNat : ℤ) else magnitude.toNat))
include hw hW hdiv hclamp

/-- A magnitude over the magnitude of a raw value, with a sign put to it. -/
theorem toInt_clamp_div {numerator : BitVec W} {value : BitVec w} (negative : Bool)
    (hnumerator : numerator.toNat < 2 ^ (W - 1)) (hvalue : value.toInt ≠ 0) :
    (clamp (maskLane W negative) (div numerator (absMagnitudeWide W value))).toInt =
      clampTo w (if negative then -((numerator.toNat / value.toInt.natAbs : ℕ) : ℤ)
        else ((numerator.toNat / value.toInt.natAbs : ℕ) : ℤ)) := by
  have hmagnitude := toNat_absMagnitudeWide (W := W) (by omega) (by omega) value
  rw [hclamp, hdiv _ _ hnumerator] <;> rw [hmagnitude]
  exact Int.natAbs_pos.mpr hvalue

theorem toInt_divFixed (lhs rhs : BitVec w) :
    (divFixed div clamp lhs rhs).toInt = exactQuotient w lhs.toInt rhs.toInt := by
  have hle : w ≤ W := by omega
  have hrhs := toNat_absMagnitudeWide (W := W) (by omega) hle rhs
  have hmask : (absMagnitudeWide W rhs == 0#W) = decide (rhs.toInt = 0) := by
    rw [Bool.eq_iff_iff, beq_iff_eq, decide_eq_true_eq, ← BitVec.toNat_inj, hrhs]
    simp
  simp only [divFixed, exactQuotient, eqLane, hmask, gtSigned, ltSigned, setWidth_maskLane hle,
    select_maskLane, maskLane_xor, toInt_widen hle, BitVec.toInt_zero, decide_eq_true_eq]
  by_cases hzero : rhs.toInt = 0
  · rw [if_pos hzero, if_pos hzero]
    split_ifs
    · exact toInt_fixedMax hw
    · exact toInt_fixedMin hw
    · exact BitVec.toInt_zero
  · -- the shifted magnitude stays below the sign bit of the wide word
    have hshift : lhs.toInt.natAbs * 2 ^ (w - 1) < 2 ^ (W - 1) := by
      calc lhs.toInt.natAbs * 2 ^ (w - 1) ≤ 2 ^ (w - 1) * 2 ^ (w - 1) :=
            Nat.mul_le_mul_right _ (natAbs_toInt_le lhs)
        _ = 2 ^ (w - 1 + (w - 1)) := (pow_add ..).symm
        _ < 2 ^ (W - 1) := Nat.pow_lt_pow_right (by decide) (by omega)
    have hnumerator : (absMagnitudeWide W lhs <<< (w - 1)).toNat =
        lhs.toInt.natAbs * 2 ^ (w - 1) := by
      rw [BitVec.toNat_shiftLeft, toNat_absMagnitudeWide (by omega) hle, Nat.shiftLeft_eq]
      exact Nat.mod_eq_of_lt (hshift.trans (Nat.pow_lt_pow_right (by decide) (by omega)))
    have hsign : decide (lhs.toInt * (2 ^ (w - 1) : ℕ) < 0) = decide (lhs.toInt < 0) := by
      rw [decide_eq_decide, mul_neg_iff]
      simp
    rw [if_neg hzero, if_neg hzero,
      toInt_clamp_div hw hW hdiv hclamp _ (hnumerator ▸ hshift) hzero, hnumerator,
      tdiv_eq_of_signs, hsign, Int.natAbs_mul, Int.natAbs_natCast]

theorem toInt_recip (value : BitVec w) :
    (recip div clamp value).toInt = exactReciprocal w value.toInt := by
  have hle : w ≤ W := by omega
  have hmask : (value == 0#w) = decide (value.toInt = 0) := by
    rw [Bool.eq_iff_iff, beq_iff_eq, decide_eq_true_eq, toInt_eq_zero_iff]
  simp only [recip, exactReciprocal, eqLane, hmask, ltSigned, select_maskLane, toInt_widen hle,
    BitVec.toInt_zero, decide_eq_true_eq]
  by_cases hzero : value.toInt = 0
  · rw [if_pos hzero, if_pos hzero]
    exact toInt_fixedMax hw
  · have hnumerator : (BitVec.twoPow W (2 * (w - 1))).toNat = 2 ^ (w - 1) * 2 ^ (w - 1) := by
      rw [BitVec.toNat_twoPow, Nat.mod_eq_of_lt (Nat.pow_lt_pow_right (by decide) (by omega)),
        two_mul, pow_add]
    have hbelow : (BitVec.twoPow W (2 * (w - 1))).toNat < 2 ^ (W - 1) := by
      rw [hnumerator, ← pow_add]
      exact Nat.pow_lt_pow_right (by decide) (by omega)
    have hsign : decide (((2 ^ (w - 1) : ℕ) * (2 ^ (w - 1) : ℕ) : ℤ) < 0) = false :=
      decide_eq_false (not_lt.mpr (by positivity))
    rw [if_neg hzero, if_neg hzero, toInt_clamp_div hw hW hdiv hclamp _ hbelow hzero, hnumerator,
      tdiv_eq_of_signs, hsign, Bool.false_xor, Int.natAbs_mul, Int.natAbs_natCast]

end Wide

end Lane

/-! ### The two widths -/

namespace Math64

theorem toInt_clampSignedMagnitude128 (negative : Bool) (magnitude : BitVec 128) :
    (clampSignedMagnitude128 (maskLane 128 negative) magnitude).toInt =
      clampTo 64 (if negative then -(magnitude.toNat : ℤ) else magnitude.toNat) := by
  have hlow : lowest 64 = -2 ^ 63 := rfl
  have hhigh : highest 64 = 2 ^ 63 - 1 := rfl
  have hmin : (BitVec.twoPow 128 63).toNat = 2 ^ 63 := by decide
  have hmax : (BitVec.ofNat 128 (2 ^ 63 - 1)).toNat = 2 ^ 63 - 1 := by decide
  simp only [clampSignedMagnitude128, select_maskLane]
  cases negative with
  | true =>
      simp only [if_true, geUnsigned, select_maskLane, decide_eq_true_eq, ge_iff_le,
        BitVec.le_def, hmin]
      split_ifs with hge
      · have hneg : (-BitVec.twoPow 128 63).toInt = -2 ^ 63 := by decide
        rw [toInt_setWidth_of_mem (by decide) (by decide), hneg, clampTo_of_le] <;> omega
      · have hneg := toInt_neg_magnitude (w := 128) (by decide) (x := magnitude) (by omega)
        rw [toInt_setWidth_of_mem (by decide) (by decide), hneg, clampTo_of_mem] <;> omega
  | false =>
      simp only [Bool.false_eq_true, if_false, gtUnsigned, select_maskLane, decide_eq_true_eq,
        gt_iff_lt, BitVec.lt_def, hmax]
      split_ifs with hgt
      · have hpos : (BitVec.ofNat 128 (2 ^ 63 - 1)).toInt = 2 ^ 63 - 1 := by decide
        rw [toInt_setWidth_of_mem (by decide) (by decide), hpos, clampTo_of_ge] <;> omega
      · have hpos := toInt_of_toNat_lt (w := 128) (by decide) (x := magnitude) (by omega)
        rw [toInt_setWidth_of_mem (by decide) (by decide), hpos, clampTo_of_mem] <;> omega

theorem toInt_divFixed (lhs rhs : BitVec 64) :
    (divFixed lhs rhs).toInt = exactQuotient 64 lhs.toInt rhs.toInt :=
  Lane.toInt_divFixed (by decide) rfl
    (fun _ _ hnumerator hpos => toNat_unsignedDiv (by decide) hnumerator hpos)
    toInt_clampSignedMagnitude128 lhs rhs

theorem toInt_recip (value : BitVec 64) : (recip value).toInt = exactReciprocal 64 value.toInt :=
  Lane.toInt_recip (by decide) rfl
    (fun _ _ hnumerator hpos => toNat_unsignedDiv (by decide) hnumerator hpos)
    toInt_clampSignedMagnitude128 value

end Math64

namespace Math32

theorem toInt_clampSignedMagnitude64 (negative : Bool) (magnitude : BitVec 64) :
    (clampSignedMagnitude64 (maskLane 64 negative) magnitude).toInt =
      clampTo 32 (if negative then -(magnitude.toNat : ℤ) else magnitude.toNat) := by
  have hlow : lowest 32 = -2 ^ 31 := rfl
  have hhigh : highest 32 = 2 ^ 31 - 1 := rfl
  have hmin : (BitVec.twoPow 64 31).toNat = 2 ^ 31 := by decide
  have hmax : (BitVec.ofNat 64 (2 ^ 31 - 1)).toNat = 2 ^ 31 - 1 := by decide
  simp only [clampSignedMagnitude64, min64, geUnsigned, select_maskLane, decide_eq_true_eq,
    ge_iff_le, BitVec.le_def, hmin, hmax]
  cases negative with
  | true =>
      simp only [if_true]
      split_ifs with hge
      · have hneg : (-BitVec.twoPow 64 31).toInt = -2 ^ 31 := by decide
        rw [toInt_setWidth_of_mem (by decide) (by decide), hneg, clampTo_of_le] <;> omega
      · have hneg := toInt_neg_magnitude (w := 64) (by decide) (x := magnitude) (by omega)
        rw [toInt_setWidth_of_mem (by decide) (by decide), hneg, clampTo_of_mem] <;> omega
  | false =>
      simp only [Bool.false_eq_true, if_false]
      split_ifs with hge
      · have hpos : (BitVec.ofNat 64 (2 ^ 31 - 1)).toInt = 2 ^ 31 - 1 := by decide
        rw [toInt_setWidth_of_mem (by decide) (by decide), hpos, clampTo_of_ge] <;> omega
      · have hpos := toInt_of_toNat_lt (w := 64) (by decide) (x := magnitude) (by omega)
        rw [toInt_setWidth_of_mem (by decide) (by decide), hpos, clampTo_of_mem] <;> omega

theorem toInt_divFixed (lhs rhs : BitVec 32) :
    (divFixed lhs rhs).toInt = exactQuotient 32 lhs.toInt rhs.toInt :=
  Lane.toInt_divFixed (by decide) rfl
    (fun _ _ hnumerator hpos => toNat_unsignedDiv (by decide) hnumerator hpos)
    toInt_clampSignedMagnitude64 lhs rhs

theorem toInt_recip (value : BitVec 32) : (recip value).toInt = exactReciprocal 32 value.toInt :=
  Lane.toInt_recip (by decide) rfl
    (fun _ _ hnumerator hpos => toNat_unsignedDiv (by decide) hnumerator hpos)
    toInt_clampSignedMagnitude64 value

end Math32

/-! ### Quotients -/

/-- **Lane division is exact**: the quotients and the reciprocals that the lanes find bit by bit
are the exact ones, truncated and saturated, with the results of a zero divisor, and the scalar
functions have the same results on every pair of raw values. -/
theorem laneQuotients_exact :
    (∀ lhs rhs : BitVec 64,
      ((Math64.divFixed lhs rhs).toInt = exactQuotient 64 lhs.toInt rhs.toInt ∧
        Math64.scalarDivFixed lhs rhs = some (Math64.divFixed lhs rhs)) ∧
      (Math64.recip rhs).toInt = exactReciprocal 64 rhs.toInt ∧
        Math64.scalarRecip rhs = some (Math64.recip rhs)) ∧
    ∀ lhs rhs : BitVec 32,
      ((Math32.divFixed lhs rhs).toInt = exactQuotient 32 lhs.toInt rhs.toInt ∧
        Math32.scalarDivFixed lhs rhs = some (Math32.divFixed lhs rhs)) ∧
      (Math32.recip rhs).toInt = exactReciprocal 32 rhs.toInt ∧
        Math32.scalarRecip rhs = some (Math32.recip rhs) := by
  -- a lane and a scalar result with the same value are the same word
  have hsame : ∀ {w : ℕ} {scalar : Option (BitVec w)} {lane : BitVec w} {value : ℤ},
      (∃ result, scalar = some result ∧ result.toInt = value) → lane.toInt = value →
        scalar = some lane := by
    rintro w _ lane value ⟨result, rfl, hresult⟩ hlane
    rw [Option.some.injEq, ← BitVec.toInt_inj, hresult, hlane]
  refine ⟨fun lhs rhs => ⟨⟨Math64.toInt_divFixed lhs rhs, ?_⟩, Math64.toInt_recip rhs, ?_⟩,
    fun lhs rhs => ⟨⟨Math32.toInt_divFixed lhs rhs, ?_⟩, Math32.toInt_recip rhs, ?_⟩⟩
  · exact hsame (scalarDivFixed_eq (by decide) rfl lhs rhs) (Math64.toInt_divFixed lhs rhs)
  · exact hsame (scalarRecip_eq (by decide) rfl rhs) (Math64.toInt_recip rhs)
  · exact hsame (scalarDivFixed_eq (by decide) rfl lhs rhs) (Math32.toInt_divFixed lhs rhs)
  · exact hsame (scalarRecip_eq (by decide) rfl rhs) (Math32.toInt_recip rhs)

end RunD
