/-
Lanes of the vector mathematics, `math64` and `math32`.

A vector operation acts on each of its lanes alone, so one lane is modelled: a
word of 64 or 32 bits, and of 128 or 64 bits where an operation is widened.  A
comparison fills a lane with ones or zeros and a selection picks by its bits;
signed arithmetic is two's complement.  The scalar functions compute with wide
signed integers, and a scalar computation whose intermediate is not one of them
has no result (`exactly`).
-/
import RunD.FixedArithmetic
import RunD.WordArithmetic

namespace RunD.Lane

open RunD.Word
open RunD.Fixed (lowest highest lowest_nonpos highest_nonneg lowest_le_highest toInt_ofInt_of_mem)

variable {w W : ℕ}

/-! ### Masks -/

/-- What a comparison puts into a lane, `MaskLane`. -/
def maskLane (w : ℕ) (holds : Bool) : BitVec w := if holds then BitVec.allOnes w else 0#w

/-- `Select`. -/
def select (mask whenTrue whenFalse : BitVec w) : BitVec w :=
  (mask &&& whenTrue) ||| (~~~mask &&& whenFalse)

def eqLane (lhs rhs : BitVec w) : BitVec w := maskLane w (lhs == rhs)

/-- `Lt` of signed lanes. -/
def ltSigned (lhs rhs : BitVec w) : BitVec w := maskLane w (decide (lhs.toInt < rhs.toInt))

/-- `Gt` of signed lanes. -/
def gtSigned (lhs rhs : BitVec w) : BitVec w := maskLane w (decide (lhs.toInt > rhs.toInt))

/-- `Lt` of unsigned lanes. -/
def ltUnsigned (lhs rhs : BitVec w) : BitVec w := maskLane w (decide (lhs < rhs))

/-- `Gt` of unsigned lanes. -/
def gtUnsigned (lhs rhs : BitVec w) : BitVec w := maskLane w (decide (lhs > rhs))

/-- `Ge` of unsigned lanes. -/
def geUnsigned (lhs rhs : BitVec w) : BitVec w := maskLane w (decide (lhs ≥ rhs))

/-- `simd::Min` of signed lanes. -/
def minSigned (lhs rhs : BitVec w) : BitVec w := select (ltSigned lhs rhs) lhs rhs

/-- `simd::Max` of signed lanes. -/
def maxSigned (lhs rhs : BitVec w) : BitVec w := select (gtSigned lhs rhs) lhs rhs

/-- `Clamp`. -/
def clamp (value lower upper : BitVec w) : BitVec w := minSigned (maxSigned value lower) upper

@[simp] theorem select_maskLane (holds : Bool) (whenTrue whenFalse : BitVec w) :
    select (maskLane w holds) whenTrue whenFalse = if holds then whenTrue else whenFalse := by
  cases holds <;> simp [select, maskLane]

@[simp] theorem maskLane_xor (a b : Bool) :
    maskLane w a ^^^ maskLane w b = maskLane w (a ^^ b) := by
  cases a <;> cases b <;> simp [maskLane]

@[simp] theorem maskLane_and (a b : Bool) :
    maskLane w a &&& maskLane w b = maskLane w (a && b) := by
  cases a <;> cases b <;> simp [maskLane]

@[simp] theorem not_maskLane (a : Bool) : ~~~maskLane w a = maskLane w (!a) := by
  cases a <;> simp [maskLane]

/-- `NarrowMask`. -/
@[simp] theorem setWidth_maskLane (h : w ≤ W) (a : Bool) :
    (maskLane W a).setWidth w = maskLane w a := by
  cases a with
  | false => simp [maskLane]
  | true =>
      apply BitVec.eq_of_getLsbD_eq
      intro i hi
      have hi' : i < W := lt_of_lt_of_le hi h
      simp [maskLane, hi, hi']

/-! ### Signed words -/

/-- A signed result that the word can hold, or nothing. -/
def exactly (n : ℕ) (value : ℤ) : Option ℤ :=
  if lowest n ≤ value ∧ value ≤ highest n then some value else none

theorem exactly_of_mem {n : ℕ} {value : ℤ} (hlow : lowest n ≤ value)
    (hhigh : value ≤ highest n) : exactly n value = some value :=
  if_pos ⟨hlow, hhigh⟩

/-- Wrapping changes nothing in the range. -/
theorem bmod_of_mem (hw : 0 < w) {value : ℤ} (hlow : lowest w ≤ value)
    (hhigh : value ≤ highest w) : value.bmod (2 ^ w) = value := by
  rw [← BitVec.toInt_ofInt]
  exact toInt_ofInt_of_mem hw hlow hhigh

theorem toInt_add_of_mem (hw : 0 < w) {x y : BitVec w} (hlow : lowest w ≤ x.toInt + y.toInt)
    (hhigh : x.toInt + y.toInt ≤ highest w) : (x + y).toInt = x.toInt + y.toInt := by
  rw [BitVec.toInt_add, bmod_of_mem hw hlow hhigh]

theorem toInt_sub_of_mem (hw : 0 < w) {x y : BitVec w} (hlow : lowest w ≤ x.toInt - y.toInt)
    (hhigh : x.toInt - y.toInt ≤ highest w) : (x - y).toInt = x.toInt - y.toInt := by
  rw [BitVec.toInt_sub, bmod_of_mem hw hlow hhigh]

theorem toInt_mul_of_mem (hw : 0 < w) {x y : BitVec w} (hlow : lowest w ≤ x.toInt * y.toInt)
    (hhigh : x.toInt * y.toInt ≤ highest w) : (x * y).toInt = x.toInt * y.toInt := by
  rw [BitVec.toInt_mul, bmod_of_mem hw hlow hhigh]

/-- Narrowing keeps what the narrow word can hold. -/
theorem toInt_setWidth_of_mem (hw : 0 < w) (h : w ≤ W) {x : BitVec W}
    (hlow : lowest w ≤ x.toInt) (hhigh : x.toInt ≤ highest w) :
    (x.setWidth w).toInt = x.toInt := by
  have hdvd : (2 : ℕ) ^ w ∣ 2 ^ W := Nat.pow_dvd_pow 2 h
  have hmod : ((x.toNat : ℤ)).bmod (2 ^ w) = x.toInt.bmod (2 ^ w) := by
    rw [BitVec.toInt_eq_toNat_bmod]
    exact (Int.bmod_bmod_of_dvd hdvd).symm
  rw [BitVec.toInt_setWidth, hmod, bmod_of_mem hw hlow hhigh]

theorem two_mul_pow_pred (hw : 0 < w) : 2 * 2 ^ (w - 1) = 2 ^ w := by
  rw [← pow_succ', Nat.sub_add_cancel hw]

/-- A word below the sign bit is its own number. -/
theorem toInt_of_toNat_lt (hw : 0 < w) {x : BitVec w} (h : x.toNat < 2 ^ (w - 1)) :
    x.toInt = x.toNat := by
  apply BitVec.toInt_eq_toNat_of_lt
  rw [← two_mul_pow_pred hw]
  exact Nat.mul_lt_mul_of_pos_left h two_pos

/-- The negative of a magnitude, the one of the lowest word included. -/
theorem toInt_neg_magnitude (hw : 0 < w) {x : BitVec w} (h : x.toNat ≤ 2 ^ (w - 1)) :
    (-x).toInt = -(x.toNat : ℤ) := by
  have hneg : -x = BitVec.ofInt w (-(x.toNat : ℤ)) := by
    rw [BitVec.ofInt_neg, BitVec.ofInt_natCast, BitVec.ofNat_toNat, BitVec.setWidth_eq]
  have hle : (x.toNat : ℤ) ≤ 2 ^ (w - 1) := by exact_mod_cast h
  rw [hneg]
  apply toInt_ofInt_of_mem hw
  · exact neg_le_neg hle
  · exact (neg_nonpos_of_nonneg (Int.natCast_nonneg _)).trans (highest_nonneg w)

/-! ### Saturation -/

/-- The nearest value that the word can hold. -/
def clampTo (w : ℕ) (value : ℤ) : ℤ := max (lowest w) (min value (highest w))

theorem clampTo_of_mem {v : ℤ} (hlow : lowest w ≤ v) (hhigh : v ≤ highest w) :
    clampTo w v = v := by
  rw [clampTo, min_eq_left hhigh, max_eq_right hlow]

theorem clampTo_of_le {v : ℤ} (h : v ≤ lowest w) : clampTo w v = lowest w := by
  rw [clampTo, max_eq_left ((min_le_left _ _).trans h)]

theorem clampTo_of_ge {v : ℤ} (h : highest w ≤ v) : clampTo w v = highest w := by
  rw [clampTo, min_eq_right h, max_eq_right (lowest_le_highest w)]

theorem clampTo_mono {value value' : ℤ} (h : value ≤ value') :
    clampTo w value ≤ clampTo w value' :=
  max_le_max le_rfl (min_le_min h le_rfl)

/-- `FixedMin`. -/
def fixedMin (w : ℕ) : BitVec w := BitVec.ofInt w (lowest w)

/-- `FixedMax`. -/
def fixedMax (w : ℕ) : BitVec w := BitVec.ofInt w (highest w)

theorem toInt_fixedMin (hw : 0 < w) : (fixedMin w).toInt = lowest w :=
  toInt_ofInt_of_mem hw le_rfl (lowest_le_highest w)

theorem toInt_fixedMax (hw : 0 < w) : (fixedMax w).toInt = highest w :=
  toInt_ofInt_of_mem hw (lowest_le_highest w) le_rfl

/-- `ScalarClamp`. -/
def scalarClamp (w : ℕ) (value : ℤ) : BitVec w :=
  if value > highest w then fixedMax w
  else if value < lowest w then fixedMin w
  else BitVec.ofInt w value

theorem toInt_scalarClamp (hw : 0 < w) (value : ℤ) :
    (scalarClamp w value).toInt = clampTo w value := by
  rw [scalarClamp]
  split_ifs with hhigh hlow
  · rw [toInt_fixedMax hw, clampTo_of_ge hhigh.le]
  · rw [toInt_fixedMin hw, clampTo_of_le hlow.le]
  · rw [toInt_ofInt_of_mem hw (not_lt.mp hlow) (not_lt.mp hhigh),
      clampTo_of_mem (not_lt.mp hlow) (not_lt.mp hhigh)]

/-! ### Magnitudes -/

/-- `AbsMagnitude`. -/
def absMagnitude (value : BitVec w) : BitVec w := select (ltSigned value 0#w) (0#w - value) value

theorem toInt_lowest_le (x : BitVec w) : lowest w ≤ x.toInt := BitVec.le_toInt x

theorem toInt_le_highest (x : BitVec w) : x.toInt ≤ highest w :=
  Int.le_sub_one_of_lt (BitVec.toInt_lt)

theorem natAbs_toInt_le (x : BitVec w) : x.toInt.natAbs ≤ 2 ^ (w - 1) := by
  have hlow := toInt_lowest_le x
  have hhigh := toInt_le_highest x
  rw [lowest] at hlow
  rw [highest] at hhigh
  zify
  exact abs_le.mpr ⟨hlow, by linarith⟩

theorem toNat_absMagnitude (hw : 0 < w) (x : BitVec w) :
    (absMagnitude x).toNat = x.toInt.natAbs := by
  have hpow := two_mul_pow_pred hw
  have hlt := x.isLt
  rw [absMagnitude, ltSigned, select_maskLane, BitVec.toInt_zero]
  rcases lt_or_ge x.toInt 0 with hneg | hpos
  · rw [decide_eq_true hneg, if_pos rfl, BitVec.zero_sub, BitVec.toNat_neg]
    rw [BitVec.toInt_eq_toNat_cond] at hneg ⊢
    split_ifs at hneg ⊢ with hcase
    · exact absurd hneg (not_lt.mpr (Int.natCast_nonneg _))
    · rw [Nat.mod_eq_of_lt (by omega)]
      omega
  · rw [decide_eq_false (not_lt.mpr hpos), if_neg (by decide)]
    rw [BitVec.toInt_eq_toNat_cond] at hpos ⊢
    split_ifs at hpos ⊢ with hcase
    · exact (Int.natAbs_natCast _).symm
    · omega

theorem toNat_eq_natAbs (hW : 0 < W) {x : BitVec W} (h : 0 ≤ x.toInt) :
    x.toNat = x.toInt.natAbs := by
  have hmagnitude := toNat_absMagnitude hW x
  rwa [absMagnitude, ltSigned, select_maskLane, BitVec.toInt_zero,
    decide_eq_false (not_lt.mpr h), if_neg (by decide)] at hmagnitude

theorem natCast_toNat (hw : 0 < w) {x : BitVec w} (h : 0 ≤ x.toInt) : (x.toNat : ℤ) = x.toInt := by
  rw [toNat_eq_natAbs hw h, Int.natAbs_of_nonneg h]

/-! ### Between two words -/

theorem toInt_minSigned (x y : BitVec w) : (minSigned x y).toInt = min x.toInt y.toInt := by
  rw [minSigned, ltSigned, select_maskLane]
  rcases lt_or_ge x.toInt y.toInt with hlt | hge
  · rw [decide_eq_true hlt, if_pos rfl, min_eq_left hlt.le]
  · rw [decide_eq_false (not_lt.mpr hge), if_neg (by decide), min_eq_right hge]

theorem toInt_maxSigned (x y : BitVec w) : (maxSigned x y).toInt = max x.toInt y.toInt := by
  rw [maxSigned, gtSigned, select_maskLane]
  rcases lt_or_ge y.toInt x.toInt with hlt | hge
  · rw [decide_eq_true hlt, if_pos rfl, max_eq_left hlt.le]
  · rw [decide_eq_false (not_lt.mpr hge), if_neg (by decide), max_eq_right hge]

theorem toInt_clamp (value lower upper : BitVec w) :
    (clamp value lower upper).toInt = min (max value.toInt lower.toInt) upper.toInt := by
  rw [clamp, toInt_minSigned, toInt_maxSigned]

/-- A clamp between words needs no saturation before it. -/
theorem min_max_clampTo (value : ℤ) (lower upper : BitVec w) :
    min (max (clampTo w value) lower.toInt) upper.toInt =
      min (max value lower.toInt) upper.toInt := by
  have hlower := toInt_lowest_le lower
  have hupper := toInt_le_highest upper
  rcases le_or_gt value (lowest w) with hlow | hlow
  · rw [clampTo_of_le hlow, max_eq_right hlower, max_eq_right (hlow.trans hlower)]
  rcases le_or_gt (highest w) value with hhigh | hhigh
  · rw [clampTo_of_ge hhigh, min_eq_right (hupper.trans (le_max_left _ _)),
      min_eq_right (hupper.trans (hhigh.trans (le_max_left _ _)))]
  · rw [clampTo_of_mem hlow.le hhigh.le]

/-! ### Widened lanes -/

/-- `Widen128` and `Widen64` of signed lanes. -/
def widen (W : ℕ) (value : BitVec w) : BitVec W := value.signExtend W

@[simp] theorem toInt_widen (h : w ≤ W) (x : BitVec w) : (widen W x).toInt = x.toInt :=
  BitVec.toInt_signExtend_of_le h

/-- `AbsMagnitude128` and `AbsMagnitudeWide`. -/
def absMagnitudeWide (W : ℕ) (value : BitVec w) : BitVec W :=
  select (ltSigned (widen W value) 0#W) (-widen W value) (widen W value)

theorem toNat_absMagnitudeWide (hW : 0 < W) (h : w ≤ W) (x : BitVec w) :
    (absMagnitudeWide W x).toNat = x.toInt.natAbs := by
  have habs := toNat_absMagnitude hW (widen W x)
  rw [toInt_widen h] at habs
  rw [← habs, absMagnitudeWide, absMagnitude, BitVec.zero_sub]

/-! ### Bounds -/

theorem mem_of_natAbs_lt {n : ℕ} {v : ℤ} (h : v.natAbs < 2 ^ (n - 1)) :
    lowest n ≤ v ∧ v ≤ highest n := by
  rw [lowest, highest]
  zify at h
  obtain ⟨hlow, hhigh⟩ := abs_lt.mp h
  exact ⟨hlow.le, Int.le_sub_one_of_lt hhigh⟩

/-- With two more bits neither a sum nor a difference wraps. -/
theorem natAbs_add_lt (hw : 0 < w) (hW : w + 1 < W) (x y : BitVec w) :
    (x.toInt + y.toInt).natAbs < 2 ^ (W - 1) ∧ (x.toInt - y.toInt).natAbs < 2 ^ (W - 1) := by
  have hx := natAbs_toInt_le x
  have hy := natAbs_toInt_le y
  have hpow : 2 ^ (w - 1) + 2 ^ (w - 1) < 2 ^ (W - 1) := by
    rw [← two_mul, two_mul_pow_pred hw]
    exact Nat.pow_lt_pow_right (by decide) (by omega)
  omega

theorem toInt_widen_add (hw : 0 < w) (hW : w + 1 < W) (x y : BitVec w) :
    (widen W x + widen W y).toInt = x.toInt + y.toInt := by
  obtain ⟨hlow, hhigh⟩ := mem_of_natAbs_lt (natAbs_add_lt hw hW x y).1
  rw [toInt_add_of_mem (by omega)] <;> simp only [toInt_widen (by omega : w ≤ W)]
  · exact hlow
  · exact hhigh

theorem toInt_widen_sub (hw : 0 < w) (hW : w + 1 < W) (x y : BitVec w) :
    (widen W x - widen W y).toInt = x.toInt - y.toInt := by
  obtain ⟨hlow, hhigh⟩ := mem_of_natAbs_lt (natAbs_add_lt hw hW x y).2
  rw [toInt_sub_of_mem (by omega)] <;> simp only [toInt_widen (by omega : w ≤ W)]
  · exact hlow
  · exact hhigh

/-- A product of two signed words is a signed word of twice the width. -/
theorem natAbs_mul_lt (hw : 0 < w) (hW : W = 2 * w) (x y : BitVec w) :
    (x.toInt * y.toInt).natAbs < 2 ^ (W - 1) := by
  rw [Int.natAbs_mul]
  calc x.toInt.natAbs * y.toInt.natAbs ≤ 2 ^ (w - 1) * 2 ^ (w - 1) :=
        Nat.mul_le_mul (natAbs_toInt_le x) (natAbs_toInt_le y)
    _ = 2 ^ (w - 1 + (w - 1)) := (pow_add ..).symm
    _ < 2 ^ (W - 1) := Nat.pow_lt_pow_right (by decide) (by omega)

/-- The truncated quotient of a product, from the magnitudes and the signs. -/
theorem tdiv_of_signs (a b : ℤ) (s : ℕ) :
    (a * b).tdiv s = if decide (a < 0) ^^ decide (b < 0)
      then -((a.natAbs * b.natAbs / s : ℕ) : ℤ) else ((a.natAbs * b.natAbs / s : ℕ) : ℤ) := by
  have hquot : ∀ m n : ℕ, ((m : ℤ) * n).tdiv s = ((m * n / s : ℕ) : ℤ) := by
    intro m n
    rw [← Int.natCast_mul, Int.ofNat_tdiv]
  rcases lt_or_ge a 0 with ha | ha <;> rcases lt_or_ge b 0 with hb | hb
  · have hprod : a * b = (a.natAbs : ℤ) * b.natAbs := by
      rw [Int.ofNat_natAbs_of_nonpos ha.le, Int.ofNat_natAbs_of_nonpos hb.le, neg_mul_neg]
    rw [hprod, hquot]
    simp [ha, hb]
  · have hprod : a * b = -((a.natAbs : ℤ) * b.natAbs) := by
      rw [Int.ofNat_natAbs_of_nonpos ha.le, Int.natAbs_of_nonneg hb, neg_mul, neg_neg]
    rw [hprod, Int.neg_tdiv, hquot]
    simp [ha, not_lt.mpr hb]
  · have hprod : a * b = -((a.natAbs : ℤ) * b.natAbs) := by
      rw [Int.natAbs_of_nonneg ha, Int.ofNat_natAbs_of_nonpos hb.le, mul_neg, neg_neg]
    rw [hprod, Int.neg_tdiv, hquot]
    simp [not_lt.mpr ha, hb]
  · have hprod : a * b = (a.natAbs : ℤ) * b.natAbs := by
      rw [Int.natAbs_of_nonneg ha, Int.natAbs_of_nonneg hb]
    rw [hprod, hquot]
    simp [not_lt.mpr ha, not_lt.mpr hb]

end RunD.Lane
