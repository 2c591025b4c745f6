/-
Requantisation of `math64` and `math32`.

An accumulator is multiplied in twice its width, shifted down with rounding, put
on a zero point and clamped to a small integer type.  The rounding is to the
nearest, halves away from zero: the magnitude is rounded and the sign put back.
Signed wide arithmetic that leaves its word has no result here.
-/
import Mathlib.Algebra.Order.Round
import RunD.MathMul

namespace RunD

open RunD.Word
open RunD.Fixed (lowest highest lowest_nonpos highest_nonneg lowest_le_highest toInt_ofInt_of_mem)
open RunD.Lane

/-! ### The operations -/

namespace Lane

variable {w W : ℕ}

/-- A signed result that its word can hold, or nothing. -/
def signedExact (W : ℕ) (value : ℤ) : Option (BitVec W) :=
  (exactly W value).map (BitVec.ofInt W)

/-- An unsigned result that its word can hold, or nothing. -/
def unsignedExact (W value : ℕ) : Option (BitVec W) :=
  if value < 2 ^ W then some (BitVec.ofNat W value) else none

structure RequantResult (w : ℕ) where
  value : BitVec w
  validShift : BitVec w
  deriving DecidableEq, Repr

/-- `RequantI64To` and `RequantI32To`, with the last admitted shift and the clamp of the width. -/
def requantTo (limit : ℕ) (clampWide : BitVec W → BitVec w)
    (value multiplier shift zeroPoint lower upper : BitVec w) : Option (RequantResult w) := do
  let product ← signedExact W ((widen W value).toInt * (widen W multiplier).toInt)
  let shiftWide := shift.setWidth W
  let last := BitVec.ofNat W limit
  let valid := geUnsigned last shiftWide
  let negative := ltSigned product 0#W
  let negated ← signedExact W (-product.toInt)
  let magnitude := select negative negated product
  let safeShift := select (geUnsigned shiftWide last) last shiftWide
  let nonZeroShift := ~~~eqLane safeShift 0#W
  -- the difference of a shift of zero wraps, and is not picked
  let roundingShift := select nonZeroShift (safeShift - 1#W) 0#W
  let rounding := select nonZeroShift (1#W <<< roundingShift) 0#W
  let sum ← unsignedExact W (magnitude.toNat + rounding.toNat)
  let rounded := sum >>> safeShift
  let negatedRounded ← signedExact W (-rounded.toInt)
  let signedRounded := select negative negatedRounded rounded
  let wide ← signedExact W (signedRounded.toInt + (widen W zeroPoint).toInt)
  some { value := clamp (clampWide wide) lower upper, validShift := valid.setWidth w }

end Lane

namespace Math64

def requantI64To (value multiplier shift zeroPoint lower upper : BitVec 64) :
    Option (RequantResult 64) :=
  requantTo 126 clampI128x2ToI64x value multiplier shift zeroPoint lower upper

def requantI64ToI8 (value multiplier shift zeroPoint : BitVec 64) : Option (RequantResult 64) :=
  requantI64To value multiplier shift zeroPoint (BitVec.ofInt 64 (-128)) (BitVec.ofInt 64 127)

def requantI64ToI16 (value multiplier shift zeroPoint : BitVec 64) : Option (RequantResult 64) :=
  requantI64To value multiplier shift zeroPoint (BitVec.ofInt 64 (-32768)) (BitVec.ofInt 64 32767)

def requantI64ToU8 (value multiplier shift zeroPoint : BitVec 64) : Option (RequantResult 64) :=
  requantI64To value multiplier shift zeroPoint (BitVec.ofInt 64 0) (BitVec.ofInt 64 255)

end Math64

namespace Math32

def requantI32To (value multiplier shift zeroPoint lower upper : BitVec 32) :
    Option (RequantResult 32) :=
  requantTo 62 clampWideToI32x value multiplier shift zeroPoint lower upper

def requantI32ToI8 (value multiplier shift zeroPoint : BitVec 32) : Option (RequantResult 32) :=
  requantI32To value multiplier shift zeroPoint (BitVec.ofInt 32 (-128)) (BitVec.ofInt 32 127)

def requantI32ToI16 (value multiplier shift zeroPoint : BitVec 32) : Option (RequantResult 32) :=
  requantI32To value multiplier shift zeroPoint (BitVec.ofInt 32 (-32768)) (BitVec.ofInt 32 32767)

def requantI32ToU8 (value multiplier shift zeroPoint : BitVec 32) : Option (RequantResult 32) :=
  requantI32To value multiplier shift zeroPoint (BitVec.ofInt 32 0) (BitVec.ofInt 32 255)

end Math32

/-! ### Rounding halves away from zero -/

/-- The nearest integer, the one farther from zero where there are two. -/
def roundHalfAway (q : ℚ) : ℤ := if q < 0 then -round (-q) else round q

/-- What is added to a magnitude before it is shifted. -/
def roundingOffset (shift : ℕ) : ℕ := if shift = 0 then 0 else 2 ^ (shift - 1)

theorem round_div_two_pow (n shift : ℕ) :
    round ((n : ℚ) / (2 ^ shift : ℕ)) = ((n + roundingOffset shift) / 2 ^ shift : ℕ) := by
  cases shift with
  | zero => simp [roundingOffset]
  | succ shift =>
      have hsum : (n : ℚ) / (2 ^ (shift + 1) : ℕ) + 1 / 2 =
          ((n + 2 ^ shift : ℕ) : ℚ) / (2 ^ (shift + 1) : ℕ) := by
        push_cast
        rw [pow_succ]
        field_simp
      rw [round_eq, hsum, Rat.floor_natCast_div_natCast]
      rfl

/-- The magnitude is rounded and the sign put back. -/
theorem roundHalfAway_div_two_pow (n : ℤ) (shift : ℕ) :
    roundHalfAway ((n : ℚ) / (2 ^ shift : ℕ)) = if n < 0
      then -(((n.natAbs + roundingOffset shift) / 2 ^ shift : ℕ) : ℤ)
      else ((n.natAbs + roundingOffset shift) / 2 ^ shift : ℕ) := by
  have hpos : (0 : ℚ) < (2 ^ shift : ℕ) := by exact_mod_cast Nat.two_pow_pos shift
  have hsign : (n : ℚ) / (2 ^ shift : ℕ) < 0 ↔ n < 0 := by
    rw [div_lt_iff₀ hpos, zero_mul]
    exact Int.cast_lt_zero
  rw [roundHalfAway]
  by_cases hneg : n < 0
  · have hmagnitude : (-((n : ℚ) / (2 ^ shift : ℕ))) = (n.natAbs : ℚ) / (2 ^ shift : ℕ) := by
      rw [← neg_div, Nat.cast_natAbs, abs_of_neg hneg, Int.cast_neg]
    rw [if_pos (hsign.mpr hneg), if_pos hneg, hmagnitude, round_div_two_pow]
  · have hmagnitude : (n : ℚ) = (n.natAbs : ℚ) := by
      rw [Nat.cast_natAbs, abs_of_nonneg (not_lt.mp hneg)]
    rw [if_neg (mt hsign.mp hneg), if_neg hneg]
    nth_rewrite 1 [hmagnitude]
    exact round_div_two_pow n.natAbs shift

/-! ### Requantisation is exact -/

namespace Lane

variable {w W : ℕ}

theorem signedExact_of_natAbs_lt (hW : 0 < W) {v : ℤ} (h : v.natAbs < 2 ^ (W - 1)) :
    ∃ word, signedExact W v = some word ∧ word.toInt = v := by
  obtain ⟨hlow, hhigh⟩ := mem_of_natAbs_lt h
  refine ⟨BitVec.ofInt W v, ?_, toInt_ofInt_of_mem hW hlow hhigh⟩
  rw [signedExact, exactly_of_mem hlow hhigh]
  rfl

theorem unsignedExact_of_lt {v : ℕ} (h : v < 2 ^ W) :
    ∃ word, unsignedExact W v = some word ∧ word.toNat = v := by
  refine ⟨BitVec.ofNat W v, if_pos h, ?_⟩
  rw [BitVec.toNat_ofNat, Nat.mod_eq_of_lt h]

/-- What a requantisation is meant to be: the product over the power of two, rounded, on the zero
point, and between the bounds. -/
def exactRequant (value multiplier : ℤ) (shift : ℕ) (zeroPoint lower upper : ℤ) : ℤ :=
  min (max (roundHalfAway (((value * multiplier : ℤ) : ℚ) / (2 ^ shift : ℕ)) + zeroPoint) lower)
    upper

theorem roundingOffset_lt (shift : ℕ) : roundingOffset shift < 2 ^ shift := by
  rw [roundingOffset]
  split_ifs with hzero
  · exact Nat.two_pow_pos shift
  · exact Nat.pow_lt_pow_right (by decide) (Nat.sub_one_lt hzero)

/-- The offset that the masks select. -/
theorem toNat_rounding {safeShift : BitVec W} (h : safeShift.toNat < W) :
    (select (~~~eqLane safeShift 0#W)
        (1#W <<< select (~~~eqLane safeShift 0#W) (safeShift - 1#W) 0#W) 0#W).toNat =
      roundingOffset safeShift.toNat := by
  have hmask : (safeShift == 0#W) = decide (safeShift.toNat = 0) := by
    rw [Bool.eq_iff_iff, beq_iff_eq, decide_eq_true_eq, ← BitVec.toNat_inj]
    rfl
  rw [eqLane, hmask, not_maskLane, select_maskLane, select_maskLane, roundingOffset]
  by_cases hzero : safeShift.toNat = 0
  · simp [hzero]
  · have hW : 0 < W := Nat.zero_lt_of_lt h
    have hone : (1#W).toNat = 1 := by
      rw [BitVec.toNat_ofNat, Nat.mod_eq_of_lt (Nat.one_lt_two_pow hW.ne')]
    have hless : (safeShift - 1#W).toNat = safeShift.toNat - 1 := by
      rw [toNat_sub_of_le] <;> rw [hone]
      exact Nat.one_le_iff_ne_zero.mpr hzero
    rw [decide_eq_false hzero, Bool.not_false, if_pos rfl, if_pos rfl, if_neg hzero,
      BitVec.shiftLeft_eq', hless, BitVec.toNat_shiftLeft, hone, Nat.one_shiftLeft]
    apply Nat.mod_eq_of_lt
    exact Nat.pow_lt_pow_right (by decide) (lt_of_le_of_lt (Nat.sub_le _ _) h)

/-- A shift that is admitted is not changed. -/
theorem safeShift_eq {shift last : BitVec W} (h : shift ≤ last) :
    select (geUnsigned shift last) last shift = shift := by
  rw [geUnsigned, select_maskLane]
  split_ifs with hge
  · exact BitVec.le_antisymm (of_decide_eq_true hge) h
  · rfl

/-- **Requantisation is exact**, and none of its wide words overflows. -/
theorem requantTo_eq (hw : 1 < w) (hW : W = 2 * w) {clampWide : BitVec W → BitVec w}
    (hclamp : ∀ wide, (clampWide wide).toInt = clampTo w wide.toInt)
    (value multiplier shift zeroPoint lower upper : BitVec w) (hshift : shift.toNat ≤ W - 2) :
    ∃ result,
      requantTo (W - 2) clampWide value multiplier shift zeroPoint lower upper = some result ∧
        result.validShift = BitVec.allOnes w ∧
        result.value.toInt = exactRequant value.toInt multiplier.toInt shift.toNat
          zeroPoint.toInt lower.toInt upper.toInt := by
  have hle : w ≤ W := by omega
  have hpos : 0 < W := by omega
  set s := shift.toNat with hs
  set p := value.toInt * multiplier.toInt with hp
  set rounded := (p.natAbs + roundingOffset s) / 2 ^ s with hrounded
  -- the magnitudes, against a quarter of the wide word
  set quarter := 2 ^ (W - 2) with hquarter
  have hhalf : 2 ^ (W - 1) = 2 * quarter := by
    rw [hquarter, ← pow_succ']
    congr 1
    omega
  have hfull : 2 ^ W = 4 * quarter := by
    rw [← two_mul_pow_pred hpos, hhalf]
    ring
  have hproductLe : p.natAbs ≤ quarter := by
    rw [hp, Int.natAbs_mul, hquarter, show W - 2 = w - 1 + (w - 1) by omega, pow_add]
    exact Nat.mul_le_mul (natAbs_toInt_le value) (natAbs_toInt_le multiplier)
  have hoffset := roundingOffset_lt s
  have hpow : 2 ^ s ≤ quarter := Nat.pow_le_pow_right two_pos hshift
  have hroundedLe : rounded ≤ quarter := by
    apply Nat.le_of_lt_succ
    apply Nat.div_lt_of_lt_mul
    have hmul : quarter ≤ 2 ^ s * quarter := Nat.le_mul_of_pos_left _ (Nat.two_pow_pos s)
    rw [Nat.mul_succ]
    omega
  have hzeroPoint : zeroPoint.toInt.natAbs < quarter :=
    lt_of_le_of_lt (natAbs_toInt_le zeroPoint) (Nat.pow_lt_pow_right (by decide) (by omega))
  have hquarterPos : 0 < quarter := Nat.two_pow_pos _
  -- the product, its negative and its magnitude
  obtain ⟨product, hproduct, hproductInt⟩ :=
    signedExact_of_natAbs_lt hpos (v := p) (by omega)
  obtain ⟨negated, hnegated, hnegatedInt⟩ :=
    signedExact_of_natAbs_lt hpos (v := -p) (by omega)
  have hmagnitude : (select (maskLane W (decide (p < 0))) negated product).toNat = p.natAbs := by
    rw [select_maskLane]
    split_ifs with hneg
    · rw [toNat_eq_natAbs hpos] <;> rw [hnegatedInt]
      · exact Int.natAbs_neg p
      · exact (neg_pos.mpr (of_decide_eq_true hneg)).le
    · rw [toNat_eq_natAbs hpos] <;> rw [hproductInt]
      exact not_lt.mp (fun hlt => hneg (decide_eq_true hlt))
  -- the shift
  have hshiftNat : (shift.setWidth W).toNat = s := BitVec.toNat_setWidth_of_le hle
  have hlast : (BitVec.ofNat W (W - 2)).toNat = W - 2 := by
    rw [BitVec.toNat_ofNat]
    exact Nat.mod_eq_of_lt (lt_of_le_of_lt (Nat.sub_le _ _) Nat.lt_two_pow_self)
  have hadmitted : shift.setWidth W ≤ BitVec.ofNat W (W - 2) := by
    rw [BitVec.le_def, hshiftNat, hlast]
    exact hshift
  have hinside : (shift.setWidth W).toNat < W := by omega
  have hrounding := toNat_rounding hinside
  rw [hshiftNat] at hrounding
  -- the rounded magnitude and its sign
  obtain ⟨sum, hsum, hsumNat⟩ :=
    unsignedExact_of_lt (W := W) (v := p.natAbs + roundingOffset s) (by omega)
  have hdown : (sum >>> shift.setWidth W).toNat = rounded := by
    rw [BitVec.ushiftRight_eq', toNat_shiftRight, hshiftNat, hsumNat]
  have hdownInt : (sum >>> shift.setWidth W).toInt = rounded := by
    rw [toInt_of_toNat_lt hpos (by omega), hdown]
  obtain ⟨negatedRounded, hnegatedRounded, hnegatedRoundedInt⟩ :=
    signedExact_of_natAbs_lt hpos (v := -(rounded : ℤ)) (by omega)
  set signed : ℤ := if p < 0 then -(rounded : ℤ) else rounded with hsigned
  have hsignedInt : (select (maskLane W (decide (p < 0))) negatedRounded
      (sum >>> shift.setWidth W)).toInt = signed := by
    rw [select_maskLane, hsigned]
    by_cases hneg : p < 0
    · rw [decide_eq_true hneg, if_pos rfl, if_pos hneg, hnegatedRoundedInt]
    · rw [decide_eq_false hneg, if_neg (by decide), if_neg hneg, hdownInt]
  have hsignedLe : signed.natAbs ≤ quarter := by
    rw [hsigned]
    split_ifs <;> omega
  obtain ⟨wide, hwide, hwideInt⟩ :=
    signedExact_of_natAbs_lt hpos (v := signed + zeroPoint.toInt) (by omega)
  refine ⟨{ value := clamp (clampWide wide) lower upper, validShift := BitVec.allOnes w },
    ?_, rfl, ?_⟩
  · simp only [requantTo, toInt_widen hle, ← hp, hproduct, Option.bind_eq_bind, Option.bind_some,
      ltSigned, hproductInt, BitVec.toInt_zero, hnegated, safeShift_eq hadmitted, hmagnitude,
      hrounding, hsum, hdownInt, hnegatedRounded, hsignedInt, hwide]
    rw [geUnsigned, decide_eq_true hadmitted, setWidth_maskLane hle]
    rfl
  · rw [toInt_clamp, hclamp, min_max_clampTo, hwideInt, exactRequant,
      roundHalfAway_div_two_pow, ← hp]

end Lane

/-! ### The targets -/

/-- What a requantisation function of `w` bits does, with shifts up to `last`. -/
def RequantExact {w : ℕ} (last : ℕ)
    (requant : BitVec w → BitVec w → BitVec w → BitVec w → Option (RequantResult w))
    (lower upper : ℤ) : Prop :=
  ∀ value multiplier shift zeroPoint : BitVec w, shift.toNat ≤ last →
    ∃ result, requant value multiplier shift zeroPoint = some result ∧
      result.validShift = BitVec.allOnes w ∧
      result.value.toInt =
        exactRequant value.toInt multiplier.toInt shift.toNat zeroPoint.toInt lower upper

theorem Math64.requantI64To_exact (lower upper : BitVec 64) :
    RequantExact 126 (fun value multiplier shift zeroPoint =>
      Math64.requantI64To value multiplier shift zeroPoint lower upper) lower.toInt upper.toInt :=
  fun value multiplier shift zeroPoint hshift =>
    requantTo_eq (by decide) rfl Math64.toInt_clampI128x2ToI64x value multiplier shift zeroPoint
      lower upper hshift

theorem Math32.requantI32To_exact (lower upper : BitVec 32) :
    RequantExact 62 (fun value multiplier shift zeroPoint =>
      Math32.requantI32To value multiplier shift zeroPoint lower upper) lower.toInt upper.toInt :=
  fun value multiplier shift zeroPoint hshift =>
    requantTo_eq (by decide) rfl Math32.toInt_clampWideToI32x value multiplier shift zeroPoint
      lower upper hshift

/-- **Requantisation is exact**: at every admitted shift each of the functions is the product over
the power of two, rounded with halves away from zero, on the zero point and clamped to its target,
and no wide word overflows on the way. -/
theorem requant_exact :
    ((∀ lower upper : BitVec 64, RequantExact 126 (fun value multiplier shift zeroPoint =>
        Math64.requantI64To value multiplier shift zeroPoint lower upper)
          lower.toInt upper.toInt) ∧
      RequantExact 126 Math64.requantI64ToI8 (-2 ^ 7) (2 ^ 7 - 1) ∧
      RequantExact 126 Math64.requantI64ToI16 (-2 ^ 15) (2 ^ 15 - 1) ∧
      RequantExact 126 Math64.requantI64ToU8 0 (2 ^ 8 - 1)) ∧
    (∀ lower upper : BitVec 32, RequantExact 62 (fun value multiplier shift zeroPoint =>
        Math32.requantI32To value multiplier shift zeroPoint lower upper)
          lower.toInt upper.toInt) ∧
      RequantExact 62 Math32.requantI32ToI8 (-2 ^ 7) (2 ^ 7 - 1) ∧
      RequantExact 62 Math32.requantI32ToI16 (-2 ^ 15) (2 ^ 15 - 1) ∧
      RequantExact 62 Math32.requantI32ToU8 0 (2 ^ 8 - 1) :=
  ⟨⟨Math64.requantI64To_exact, Math64.requantI64To_exact _ _, Math64.requantI64To_exact _ _,
    Math64.requantI64To_exact _ _⟩, Math32.requantI32To_exact, Math32.requantI32To_exact _ _,
    Math32.requantI32To_exact _ _, Math32.requantI32To_exact _ _⟩

end RunD
