/-
Fixed-point arithmetic of the kernel: products, quotients and changes of scale.

Raw values are two's complement words of 32 or 64 bits; the intermediate values
are 128 bits wide.  Every signed 128-bit operation of the model says whether its
result is one (`i128`), and a computation that leaves the 128 bits has no
result.

What an operation is for is stated in `fixedResult`: the exact result, scaled to
the format, rounded by its direction, and then saturated or wrapped.
`fixed_exact` says that all three operations do that, without leaving the 128
bits on the way.
-/
import RunD.ComputeModel
import RunD.Rounding
import Mathlib.Data.Rat.Floor

namespace RunD.Fixed

/-! ### The operations -/

/-- `ComputeRounding`. -/
def kTowardZero : UInt8 := 1
def kDown : UInt8 := 2
def kUp : UInt8 := 3
def kNearestEven : UInt8 := 4

/-- `ComputeOverflow::Saturate`. -/
def kSaturate : UInt8 := 1

/-- The result of a signed 128-bit operation, if it is one. -/
def i128 (value : ℤ) : Option ℤ := if -2 ^ 127 ≤ value ∧ value < 2 ^ 127 then some value else none

/-- The result of an unsigned 128-bit operation, if it is one. -/
def u128 (value : ℕ) : Option ℕ := if value < 2 ^ 128 then some value else none

/-- `std::numeric_limits<S>::min()`. -/
def lowest (w : ℕ) : ℤ := -2 ^ (w - 1)

/-- `std::numeric_limits<S>::max()`. -/
def highest (w : ℕ) : ℤ := 2 ^ (w - 1) - 1

/-- `Narrow`. -/
def narrow (w : ℕ) (value : ℤ) (overflow : UInt8) : BitVec w :=
  if overflow = kSaturate then
    if value < lowest w then BitVec.ofInt w (lowest w)
    else if value > highest w then BitVec.ofInt w (highest w)
    else BitVec.ofInt w value
  else BitVec.ofInt w value

/-- The magnitude of a signed 128-bit value, as an unsigned one. -/
def magnitude (value : ℤ) : Option ℕ := do
  let positive ← if value < 0 then i128 (-value) else some value
  some positive.toNat

/-- `RoundQuotient`; `quotient & 1` is the rest of the quotient by two. -/
def roundQuotient (quotient remainder divisor : ℤ) (negative : Bool) (rounding : UInt8) :
    Option ℤ :=
  if remainder = 0 then some quotient
  else if rounding = kDown ∧ negative = true then i128 (quotient - 1)
  else if rounding = kUp ∧ negative = false then i128 (quotient + 1)
  else if rounding ≠ kNearestEven then some quotient
  else do
    let magnitudeOf ← magnitude remainder
    let scale ← magnitude divisor
    let twice ← u128 (magnitudeOf * 2)
    if twice > scale ∨ (twice = scale ∧ quotient % 2 ≠ 0) then
      i128 (quotient + if negative then -1 else 1)
    else some quotient

variable {w : ℕ}

/-- `Mul`. -/
def mul (lhs rhs : BitVec w) (format : ComputeFixedFormat) : Option (BitVec w) := do
  let scale ← i128 (2 ^ format.fractionBits.toNat)
  let product ← i128 (lhs.toInt * rhs.toInt)
  let quotient ← i128 (product.tdiv scale)
  let rounded ← roundQuotient quotient (product.tmod scale) scale (product < 0) format.rounding
  some (narrow w rounded format.overflow)

/-- `bit_cast<i128>(static_cast<u128>(value) << shift)`. -/
def shiftLeft128 (value : ℤ) (shift : ℕ) : ℤ := (BitVec.ofInt 128 value <<< shift).toInt

/-- `Rescale`, of a source of `v` bits. -/
def rescale (w : ℕ) {v : ℕ} (value : BitVec v) (sourceFractionBits : UInt32)
    (format : ComputeFixedFormat) : Option (BitVec w) :=
  let scaled := value.toInt
  let sourceBits := sourceFractionBits.toNat
  let fractionBits := format.fractionBits.toNat
  if sourceBits > fractionBits then do
    let divisor ← i128 (2 ^ (sourceBits - fractionBits))
    let quotient ← i128 (scaled.tdiv divisor)
    let rounded ← roundQuotient quotient (scaled.tmod divisor) divisor (scaled < 0)
      format.rounding
    some (narrow w rounded format.overflow)
  else if sourceBits < fractionBits then do
    let shift := fractionBits - sourceBits
    let factor ← i128 (2 ^ shift)
    if format.overflow = kSaturate then
      if scaled < (lowest w).tdiv factor then some (BitVec.ofInt w (lowest w))
      else if scaled > (highest w).tdiv factor then some (BitVec.ofInt w (highest w))
      else do
        let product ← i128 (scaled * factor)
        some (narrow w product format.overflow)
    else some (narrow w (shiftLeft128 scaled shift) format.overflow)
  else some (narrow w scaled format.overflow)

/-- `Div`. -/
def div (lhs rhs : BitVec w) (format : ComputeFixedFormat) : Option (BitVec w) :=
  if rhs = 0 then some 0
  else do
    let scale ← i128 (2 ^ format.fractionBits.toNat)
    let numerator ← i128 (lhs.toInt * scale)
    let quotient ← i128 (numerator.tdiv rhs.toInt)
    let rounded ← roundQuotient quotient (numerator.tmod rhs.toInt) rhs.toInt
      (decide (lhs.toInt < 0) != decide (rhs.toInt < 0)) format.rounding
    some (narrow w rounded format.overflow)

/-! ### What the operations are for -/

/-- The direction that a rounding byte stands for. -/
def roundingOf (rounding : UInt8) : Rounding :=
  if rounding = kTowardZero then .towardZero
  else if rounding = kDown then .down
  else if rounding = kUp then .up
  else .nearestEven

/-- An integer, saturated or wrapped to `w` bits. -/
def settle (w : ℕ) (overflow : UInt8) (value : ℤ) : ℤ :=
  if overflow = kSaturate then max (lowest w) (min value (highest w)) else value.bmod (2 ^ w)

/-- An exact result as a raw value of the format: scaled, rounded, and then saturated or wrapped. -/
def fixedResult {K : Type*} [Field K] [LinearOrder K] [FloorRing K] (w : ℕ)
    (format : ComputeFixedFormat) (exact : K) : ℤ :=
  settle w format.overflow
    (roundTo (roundingOf format.rounding) (exact * 2 ^ format.fractionBits.toNat))

/-- The number that a raw value stands for. -/
def fixedValue {K : Type*} [Field K] (fractionBits : ℕ) (raw : BitVec w) : K :=
  raw.toInt / 2 ^ fractionBits

/-! ### Inside the 128 bits -/

/-- A value with a bit to spare. -/
theorem i128_of_natAbs {value : ℤ} (h : value.natAbs ≤ 2 ^ 126) : i128 value = some value :=
  if_pos (by omega)

theorem i128_step {value : ℤ} (h : value.natAbs ≤ 2 ^ 126) (step : ℤ) (hstep : step.natAbs ≤ 1) :
    i128 (value + step) = some (value + step) := if_pos (by omega)

theorem magnitude_eq {value : ℤ} (h : value.natAbs ≤ 2 ^ 126) :
    magnitude value = some value.natAbs := by
  rw [magnitude]
  by_cases hneg : value < 0
  · rw [if_pos hneg, i128_of_natAbs (by omega)]
    exact congrArg some (by omega)
  · rw [if_neg hneg]
    exact congrArg some (by omega)

/-! ### Rounding a quotient -/

/-- Twice the rest against the divisor is twice the part against one. -/
theorem past_half_iff {K : Type*} [Field K] [LinearOrder K] [IsStrictOrderedRing K] {r d : ℕ}
    (hd : 0 < d) (odd : Prop) :
    r * 2 > d ∨ r * 2 = d ∧ odd ↔ (1 : K) < 2 * ((r : K) / d) ∨ 2 * ((r : K) / d) = 1 ∧ odd := by
  have hpos : (0 : K) < d := by exact_mod_cast hd
  have htwice : 2 * ((r : K) / d) = ((r * 2 : ℕ) : K) / d := by
    push_cast
    ring
  rw [htwice, lt_div_iff₀ hpos, one_mul, div_eq_one_iff_eq (ne_of_gt hpos), Nat.cast_lt,
    Nat.cast_inj]

/-- **Rounding a quotient**: the code's choice between the truncated quotient and its neighbours is
the rounding of the exact quotient. -/
theorem roundQuotient_eq {n d : ℤ} {negative : Bool} {rounding : UInt8} (hd : d ≠ 0)
    (hn : n.natAbs ≤ 2 ^ 126) (hdBound : d.natAbs ≤ 2 ^ 126)
    (hnegative : n.tmod d ≠ 0 → (negative = true ↔ (n : ℚ) / d < 0))
    (hrounding : rounding = kTowardZero ∨ rounding = kDown ∨ rounding = kUp ∨
      rounding = kNearestEven) :
    roundQuotient (n.tdiv d) (n.tmod d) d negative rounding =
      some (roundTo (roundingOf rounding) ((n : ℚ) / d)) := by
  have hq : (n.tdiv d).natAbs ≤ 2 ^ 126 := le_trans (Int.natAbs_tdiv_le_natAbs n d) hn
  have hr : (n.tmod d).natAbs ≤ 2 ^ 126 := by
    rw [Int.natAbs_tmod]
    exact le_trans (Nat.mod_le _ _) hn
  rw [roundQuotient]
  by_cases hzero : n.tmod d = 0
  · rw [if_pos hzero, div_eq_tdiv_add hd, hzero, Int.cast_zero, zero_div, add_zero,
      roundTo_intCast]
  have hside := hnegative hzero
  have htmod := tmod_div_neg_iff (K := ℚ) hd hzero
  obtain ⟨habs, hone⟩ := abs_tmod_div (K := ℚ) (n := n) hd
  rw [← htmod] at hside
  rw [if_neg hzero, div_eq_tdiv_add hd, magnitude_eq hr, magnitude_eq hdBound]
  have hne : ((n.tmod d : ℤ) : ℚ) / d ≠ 0 :=
    div_ne_zero (Int.cast_ne_zero.mpr hzero) (Int.cast_ne_zero.mpr hd)
  have hpast := past_half_iff (K := ℚ) (r := (n.tmod d).natAbs) (d := d.natAbs)
    (Int.natAbs_pos.mpr hd) (n.tdiv d % 2 ≠ 0)
  have htwice : u128 ((n.tmod d).natAbs * 2) = some ((n.tmod d).natAbs * 2) := if_pos (by omega)
  have hwhole : (n : ℚ) / d = (n.tdiv d : ℤ) + (n.tmod d : ℤ) / (d : ℚ) := div_eq_tdiv_add hd
  rw [hwhole] at htmod
  rw [← habs] at hone hpast
  generalize hρ : ((n.tmod d : ℤ) : ℚ) / d = ρ at hside htmod hone hne hpast ⊢
  generalize n.tdiv d = q at hq htmod hpast ⊢
  have hdown := i128_step hq (-1) (by decide)
  have hup := i128_step hq 1 (by decide)
  rcases lt_or_gt_of_ne hne with hneg | hpos
  · obtain ⟨hfloor, hceil, -⟩ := floor_ceil_of_neg (q := q) hneg (neg_lt_of_abs_lt hone)
    have hnear := roundNearestEven_below (q := q) hneg (neg_lt_of_abs_lt hone)
    rw [hside.mpr hneg]
    rw [abs_of_neg hneg] at hpast
    rcases hrounding with rfl | rfl | rfl | rfl
    · show some q = some (if 0 ≤ (q : ℚ) + ρ then _ else _)
      rw [if_neg (not_le.mpr (htmod.mp hneg)), hceil]
    · show i128 (q - 1) = some ⌊(q : ℚ) + ρ⌋
      rw [hfloor, Int.sub_eq_add_neg, hdown]
    · show some q = some ⌈(q : ℚ) + ρ⌉
      rw [hceil]
    · show (u128 ((n.tmod d).natAbs * 2)).bind _ = some (roundNearestEven ((q : ℚ) + ρ))
      rw [hnear, htwice]
      show (if _ then i128 (q + -1) else some q) = _
      by_cases hnext : 1 < 2 * -ρ ∨ 2 * -ρ = 1 ∧ q % 2 ≠ 0
      · rw [if_pos hnext, if_pos (hpast.mpr hnext), hdown]
        rfl
      · rw [if_neg hnext, if_neg fun h => hnext (hpast.mp h)]
  · obtain ⟨hfloor, hceil, -⟩ := floor_ceil_of_pos (q := q) hpos (lt_of_abs_lt hone)
    have hnear := roundNearestEven_above (q := q) hpos (lt_of_abs_lt hone)
    have hfalse : negative = false := by
      cases negative with
      | false => rfl
      | true => exact absurd (hside.mp rfl) (not_lt.mpr hpos.le)
    rw [hfalse]
    rw [abs_of_pos hpos] at hpast
    rcases hrounding with rfl | rfl | rfl | rfl
    · show some q = some (if 0 ≤ (q : ℚ) + ρ then _ else _)
      rw [if_pos (not_lt.mp fun h => absurd (htmod.mpr h) (not_lt.mpr hpos.le)), hfloor]
    · show some q = some ⌊(q : ℚ) + ρ⌋
      rw [hfloor]
    · show i128 (q + 1) = some ⌈(q : ℚ) + ρ⌉
      rw [hceil, hup]
    · show (u128 ((n.tmod d).natAbs * 2)).bind _ = some (roundNearestEven ((q : ℚ) + ρ))
      rw [hnear, htwice]
      show (if _ then i128 (q + 1) else some q) = _
      by_cases hnext : 1 < 2 * ρ ∨ 2 * ρ = 1 ∧ q % 2 ≠ 0
      · rw [if_pos hnext, if_pos (hpast.mpr hnext), hup]
      · rw [if_neg hnext, if_neg fun h => hnext (hpast.mp h)]

/-! ### Settling in the word -/

theorem toInt_ofInt_of_mem (hw : 0 < w) {value : ℤ} (hlow : lowest w ≤ value)
    (hhigh : value ≤ highest w) : (BitVec.ofInt w value).toInt = value := by
  apply BitVec.toInt_ofInt_eq_self hw
  · exact hlow
  · rw [highest] at hhigh
    exact Int.lt_of_le_sub_one hhigh

theorem lowest_nonpos (w : ℕ) : lowest w ≤ 0 := by
  rw [lowest]
  exact Int.neg_nonpos_of_nonneg (by positivity)

theorem highest_nonneg (w : ℕ) : 0 ≤ highest w :=
  Int.le_sub_one_of_lt (by positivity)

theorem lowest_le_highest (w : ℕ) : lowest w ≤ highest w :=
  le_trans (lowest_nonpos w) (highest_nonneg w)

theorem settle_of_lt_lowest {value : ℤ} (h : value < lowest w) :
    settle w kSaturate value = lowest w := by
  rw [settle, if_pos rfl, min_eq_left (h.le.trans (lowest_le_highest w)), max_eq_left h.le]

theorem settle_of_highest_lt {value : ℤ} (h : highest w < value) :
    settle w kSaturate value = highest w := by
  rw [settle, if_pos rfl, min_eq_right h.le, max_eq_right (lowest_le_highest w)]

/-- `Narrow` saturates or wraps. -/
theorem toInt_narrow (hw : 0 < w) (value : ℤ) (overflow : UInt8) :
    (narrow w value overflow).toInt = settle w overflow value := by
  have horder := lowest_le_highest w
  rw [narrow]
  by_cases hsaturate : overflow = kSaturate
  · rw [if_pos hsaturate, hsaturate]
    by_cases hlow : value < lowest w
    · rw [if_pos hlow, toInt_ofInt_of_mem hw (le_refl _) horder, settle_of_lt_lowest hlow]
    · rw [if_neg hlow]
      have hlow' := not_lt.mp hlow
      by_cases hhigh : value > highest w
      · rw [if_pos hhigh, toInt_ofInt_of_mem hw horder (le_refl _), settle_of_highest_lt hhigh]
      · have hhigh' := not_lt.mp hhigh
        rw [if_neg hhigh, toInt_ofInt_of_mem hw hlow' hhigh', settle, if_pos rfl,
          min_eq_left hhigh', max_eq_right hlow']
  · rw [if_neg hsaturate, settle, if_neg hsaturate, BitVec.toInt_ofInt]

/-- A raw value of at most 64 bits is far inside the 128. -/
theorem natAbs_toInt_le {v : ℕ} (hv : v ≤ 64) (raw : BitVec v) : raw.toInt.natAbs ≤ 2 ^ 63 := by
  have hmono : (2 : ℤ) ^ (v - 1) ≤ 2 ^ 63 := by
    apply pow_le_pow_right₀ (by norm_num)
    omega
  have hlow := raw.le_toInt
  have hhigh := raw.toInt_lt
  omega

theorem natAbs_two_pow (k : ℕ) : ((2 : ℤ) ^ k).natAbs = 2 ^ k := by
  rw [Int.natAbs_pow]
  rfl

/-! ### Changes of scale -/

/-- Shifting a raw value within the 128 bits loses nothing. -/
theorem shiftLeft128_eq {value : ℤ} {shift : ℕ} (hvalue : value.natAbs ≤ 2 ^ 63)
    (hshift : shift ≤ 63) : shiftLeft128 value shift = value * 2 ^ shift := by
  have hproduct : (value * 2 ^ shift).natAbs ≤ 2 ^ 126 := by
    rw [Int.natAbs_mul, natAbs_two_pow]
    exact le_trans (Nat.mul_le_mul hvalue (Nat.pow_le_pow_right (by decide) hshift)) (by decide)
  have hshifted : BitVec.ofInt 128 value <<< shift = BitVec.ofInt 128 (value * 2 ^ shift) := by
    rw [BitVec.shiftLeft_eq_mul_twoPow, BitVec.ofInt_mul]
    congr 1
    apply BitVec.eq_of_toNat_eq
    rw [BitVec.toNat_twoPow]
    rfl
  rw [shiftLeft128, hshifted]
  apply BitVec.toInt_ofInt_eq_self (by decide)
  · omega
  · omega

/-- A value below the lowest over the factor is below the lowest once scaled. -/
theorem scaled_lt_of_lt_tdiv {value low factor : ℤ} (hfactor : 0 < factor) (hlow : low ≤ 0)
    (h : value < low.tdiv factor) : value * factor < low := by
  have hnonneg := Int.neg_nonneg_of_nonpos hlow
  have hquotient : low.tdiv factor = -(-low / factor) := by
    rw [← Int.tdiv_eq_ediv_of_nonneg hnonneg, Int.neg_tdiv, neg_neg]
  rw [hquotient] at h
  have hless := (Int.ediv_lt_iff_lt_mul hfactor).mp (lt_neg_of_lt_neg h)
  rw [neg_mul] at hless
  exact neg_lt_neg_iff.mp hless

/-- A value above the highest over the factor is above the highest once scaled. -/
theorem lt_scaled_of_tdiv_lt {value high factor : ℤ} (hfactor : 0 < factor) (hhigh : 0 ≤ high)
    (h : high.tdiv factor < value) : high < value * factor := by
  rw [Int.tdiv_eq_ediv_of_nonneg hhigh] at h
  exact (Int.ediv_lt_iff_lt_mul hfactor).mp h

/-! ### The results are exact -/

/-- What the three operations end with: a truncated quotient, rounded and narrowed. -/
theorem quotient_exact {n d : ℤ} {negative : Bool} {format : ComputeFixedFormat} {exact : ℚ}
    (hw : 0 < w) (hd : d ≠ 0) (hn : n.natAbs ≤ 2 ^ 126) (hdBound : d.natAbs ≤ 2 ^ 126)
    (hnegative : n.tmod d ≠ 0 → (negative = true ↔ (n : ℚ) / d < 0))
    (hrounding : format.rounding = kTowardZero ∨ format.rounding = kDown ∨
      format.rounding = kUp ∨ format.rounding = kNearestEven)
    (hexact : exact * 2 ^ format.fractionBits.toNat = n / d) :
    ∃ result : BitVec w,
      (do
        let quotient ← i128 (n.tdiv d)
        let rounded ← roundQuotient quotient (n.tmod d) d negative format.rounding
        some (narrow w rounded format.overflow)) = some result ∧
      result.toInt = fixedResult w format exact := by
  have hq : (n.tdiv d).natAbs ≤ 2 ^ 126 := le_trans (Int.natAbs_tdiv_le_natAbs n d) hn
  rw [i128_of_natAbs hq]
  refine ⟨narrow w (roundTo (roundingOf format.rounding) ((n : ℚ) / d)) format.overflow, ?_, ?_⟩
  · show (roundQuotient (n.tdiv d) (n.tmod d) d negative format.rounding).bind _ = _
    rw [roundQuotient_eq hd hn hdBound hnegative hrounding]
    rfl
  · rw [toInt_narrow hw, fixedResult, hexact]

section Exact

variable {format : ComputeFixedFormat} (hw : 0 < w) (hwBound : w ≤ 64)
  (hfraction : format.fractionBits.toNat < w)
  (hrounding : format.rounding = kTowardZero ∨ format.rounding = kDown ∨
    format.rounding = kUp ∨ format.rounding = kNearestEven)

include hw hwBound hfraction hrounding

/-- **`Mul` is exact** before it settles. -/
theorem mul_exact (lhs rhs : BitVec w) :
    ∃ result, mul lhs rhs format = some result ∧
      result.toInt = fixedResult w format
        (fixedValue format.fractionBits.toNat lhs * fixedValue format.fractionBits.toNat rhs : ℚ) :=
    by
  have hscale : ((2 : ℤ) ^ format.fractionBits.toNat).natAbs ≤ 2 ^ 126 := by
    rw [natAbs_two_pow]
    exact Nat.pow_le_pow_right (by decide) (by omega)
  have hproduct : (lhs.toInt * rhs.toInt).natAbs ≤ 2 ^ 126 := by
    rw [Int.natAbs_mul]
    exact le_trans (Nat.mul_le_mul (natAbs_toInt_le hwBound lhs) (natAbs_toInt_le hwBound rhs))
      (by decide)
  have hpos : (0 : ℚ) < 2 ^ format.fractionBits.toNat := by positivity
  rw [mul, i128_of_natAbs hscale, i128_of_natAbs hproduct]
  apply quotient_exact hw (by positivity) hproduct hscale _ hrounding
  · rw [fixedValue, fixedValue]
    push_cast
    field_simp
  · intro _
    push_cast
    rw [decide_eq_true_iff, div_neg_iff]
    simp only [hpos, not_lt.mpr hpos.le, and_false, and_true, false_or]
    exact_mod_cast Iff.rfl

/-- **`Div` is exact** before it settles; a quotient by zero is zero. -/
theorem div_exact (lhs rhs : BitVec w) :
    ∃ result, div lhs rhs format = some result ∧
      result.toInt =
        if rhs = 0 then 0
        else fixedResult w format
          (fixedValue format.fractionBits.toNat lhs / fixedValue format.fractionBits.toNat rhs : ℚ)
    := by
  rw [div]
  by_cases hzero : rhs = 0
  · rw [if_pos hzero, if_pos hzero]
    exact ⟨0, rfl, BitVec.toInt_zero⟩
  rw [if_neg hzero, if_neg hzero]
  have hrhs : rhs.toInt ≠ 0 := by
    intro h
    apply hzero
    rw [← BitVec.toInt_inj, h]
    exact BitVec.toInt_zero.symm
  have hpow : ((2 : ℤ) ^ format.fractionBits.toNat).natAbs ≤ 2 ^ 63 := by
    rw [natAbs_two_pow]
    exact Nat.pow_le_pow_right (by decide) (by omega)
  have hscale : ((2 : ℤ) ^ format.fractionBits.toNat).natAbs ≤ 2 ^ 126 :=
    le_trans hpow (by decide)
  have hnumerator : (lhs.toInt * 2 ^ format.fractionBits.toNat).natAbs ≤ 2 ^ 126 := by
    rw [Int.natAbs_mul]
    exact le_trans (Nat.mul_le_mul (natAbs_toInt_le hwBound lhs) hpow) (by decide)
  have hdivisor : rhs.toInt.natAbs ≤ 2 ^ 126 :=
    le_trans (natAbs_toInt_le hwBound rhs) (by decide)
  have hpos : (0 : ℤ) < 2 ^ format.fractionBits.toNat := by positivity
  rw [i128_of_natAbs hscale]
  show ∃ result, (i128 (lhs.toInt * 2 ^ format.fractionBits.toNat)).bind _ = some result ∧ _
  rw [i128_of_natAbs hnumerator]
  apply quotient_exact hw hrhs hnumerator hdivisor _ hrounding
  · have hrhs' : (rhs.toInt : ℚ) ≠ 0 := Int.cast_ne_zero.mpr hrhs
    rw [fixedValue, fixedValue]
    push_cast
    field_simp
  · -- the sign of the quotient is read off the operands
    intro hrest
    have hlhs : lhs.toInt ≠ 0 := by
      intro h
      apply hrest
      rw [h, zero_mul, Int.zero_tmod]
    have hsign : (lhs.toInt * 2 ^ format.fractionBits.toNat < 0 ↔ lhs.toInt < 0) ∧
        (0 < lhs.toInt * 2 ^ format.fractionBits.toNat ↔ 0 < lhs.toInt) := by
      refine ⟨?_, mul_pos_iff_of_pos_right hpos⟩
      rw [mul_neg_iff]
      simp [hpos, not_lt.mpr hpos.le]
    rw [div_neg_iff, Int.cast_pos, Int.cast_pos, Int.cast_lt_zero, Int.cast_lt_zero, hsign.1,
      hsign.2]
    rcases lt_or_gt_of_ne hlhs with hl | hl <;> rcases lt_or_gt_of_ne hrhs with hr | hr <;>
      simp [hl, hr, hl.le, hr.le, not_lt.mpr]

/-- **`Rescale` is exact** before it settles. -/
theorem rescale_exact {v : ℕ} (hv : v ≤ 64) {sourceFractionBits : UInt32}
    (hsource : sourceFractionBits.toNat < 128) (hpositive : format.fractionBits.toNat ≠ 0)
    (value : BitVec v) :
    ∃ result, rescale w value sourceFractionBits format = some result ∧
      result.toInt =
        fixedResult w format (fixedValue sourceFractionBits.toNat value : ℚ) := by
  have hvalue := natAbs_toInt_le hv value
  have hvalue' : value.toInt.natAbs ≤ 2 ^ 126 := le_trans hvalue (by decide)
  rw [rescale]
  have hpos : (0 : ℚ) < 2 ^ sourceFractionBits.toNat := by positivity
  rcases lt_trichotomy sourceFractionBits.toNat format.fractionBits.toNat with hless | heq | hmore
  · -- the value is scaled up, by an integer
    obtain ⟨shift, hshift⟩ := Nat.exists_eq_add_of_le hless.le
    have hshiftBound : shift ≤ 63 := by omega
    have hexact : (fixedValue sourceFractionBits.toNat value : ℚ) * 2 ^ format.fractionBits.toNat =
        ((value.toInt * 2 ^ shift : ℤ) : ℚ) := by
      rw [fixedValue, hshift, pow_add]
      push_cast
      field_simp
    have hfactor : ((2 : ℤ) ^ shift).natAbs ≤ 2 ^ 63 := by
      rw [natAbs_two_pow]
      exact Nat.pow_le_pow_right (by decide) hshiftBound
    have hproduct : (value.toInt * 2 ^ shift).natAbs ≤ 2 ^ 126 := by
      rw [Int.natAbs_mul]
      exact le_trans (Nat.mul_le_mul hvalue hfactor) (by decide)
    rw [if_neg (not_lt.mpr hless.le), if_pos hless, fixedResult, hexact, roundTo_intCast,
      Nat.sub_eq_of_eq_add' hshift]
    show ∃ result, (i128 (2 ^ shift)).bind _ = some result ∧ _
    rw [i128_of_natAbs (le_trans hfactor (by decide)), Option.bind_some]
    by_cases hsaturate : format.overflow = kSaturate
    · rw [if_pos hsaturate, hsaturate]
      by_cases hlow : value.toInt < (lowest w).tdiv (2 ^ shift)
      · rw [if_pos hlow, settle_of_lt_lowest
          (scaled_lt_of_lt_tdiv (by positivity) (lowest_nonpos w) hlow)]
        exact ⟨_, rfl, toInt_ofInt_of_mem hw (le_refl _) (lowest_le_highest w)⟩
      rw [if_neg hlow]
      by_cases hhigh : value.toInt > (highest w).tdiv (2 ^ shift)
      · rw [if_pos hhigh, settle_of_highest_lt
          (lt_scaled_of_tdiv_lt (by positivity) (highest_nonneg w) hhigh)]
        exact ⟨_, rfl, toInt_ofInt_of_mem hw (lowest_le_highest w) (le_refl _)⟩
      · rw [if_neg hhigh, i128_of_natAbs hproduct]
        exact ⟨_, rfl, toInt_narrow hw _ _⟩
    · rw [if_neg hsaturate, shiftLeft128_eq hvalue hshiftBound]
      exact ⟨_, rfl, toInt_narrow hw _ _⟩
  · rw [if_neg (not_lt.mpr heq.le), if_neg (not_lt.mpr heq.ge), fixedResult, fixedValue, ← heq,
      div_mul_cancel₀ _ (ne_of_gt hpos), roundTo_intCast]
    exact ⟨_, rfl, toInt_narrow hw _ _⟩
  · -- the value is scaled down
    obtain ⟨shift, hshift⟩ := Nat.exists_eq_add_of_le hmore.le
    have hdivisor : ((2 : ℤ) ^ shift).natAbs ≤ 2 ^ 126 := by
      rw [natAbs_two_pow]
      exact Nat.pow_le_pow_right (by decide) (by omega)
    have hdivisorPos : (0 : ℚ) < ((2 ^ shift : ℤ) : ℚ) := by positivity
    rw [if_pos hmore, Nat.sub_eq_of_eq_add' hshift, i128_of_natAbs hdivisor]
    apply quotient_exact hw (by positivity) hvalue' hdivisor _ hrounding
    · rw [fixedValue, hshift, pow_add]
      push_cast
      field_simp
    · intro _
      rw [decide_eq_true_iff, div_neg_iff]
      simp only [hdivisorPos, not_lt.mpr hdivisorPos.le, and_false, and_true, false_or]
      exact_mod_cast Iff.rfl

end Exact

theorem policy_of_valid {scalar : ComputeScalar} {format : ComputeFixedFormat}
    (hvalid : computeFixedFormatValid scalar format = true) :
    computeScalarBits scalar ≤ 64 ∧
      format.integerBits.toNat ≠ 0 ∧ format.fractionBits.toNat ≠ 0 ∧
      format.integerBits.toNat + format.fractionBits.toNat = computeScalarBits scalar ∧
      (format.rounding = kTowardZero ∨ format.rounding = kDown ∨ format.rounding = kUp ∨
        format.rounding = kNearestEven) := by
  simp only [computeFixedFormatValid, fixedPolicyValid, Bool.and_eq_true, bne_iff_ne, ne_eq,
    beq_iff_eq, decide_eq_true_eq] at hvalid
  obtain ⟨⟨⟨hinteger, hfraction⟩, hwidth⟩, ⟨⟨⟨⟨hlow, hhigh⟩, -⟩, -⟩, -⟩, -⟩ := hvalid
  have hinteger' : format.integerBits.toNat ≠ 0 := fun h => hinteger (UInt8.toNat_inj.mp h)
  have hfraction' : format.fractionBits.toNat ≠ 0 := fun h => hfraction (UInt8.toNat_inj.mp h)
  refine ⟨?_, hinteger', hfraction', hwidth, ?_⟩
  · cases scalar <;> decide
  · rw [UInt8.le_iff_toNat_le] at hlow hhigh
    have hcases : format.rounding.toNat = 1 ∨ format.rounding.toNat = 2 ∨
        format.rounding.toNat = 3 ∨ format.rounding.toNat = 4 := by
      have h1 : (1 : UInt8).toNat = 1 := rfl
      have h4 : (4 : UInt8).toNat = 4 := rfl
      omega
    rcases hcases with h | h | h | h
    · exact Or.inl (UInt8.toNat_inj.mp h)
    · exact Or.inr (Or.inl (UInt8.toNat_inj.mp h))
    · exact Or.inr (Or.inr (Or.inl (UInt8.toNat_inj.mp h)))
    · exact Or.inr (Or.inr (Or.inr (UInt8.toNat_inj.mp h)))

/-- **Fixed arithmetic is exact**: in every valid format, products, quotients and changes of scale
are the exact results, rounded by the format's direction and then saturated or wrapped; no
intermediate value leaves the 128 bits, and a quotient by zero is zero.  A change of scale starts
from a word of any width up to 64, with any fraction a 128-bit shift can divide by. -/
theorem fixed_exact {scalar : ComputeScalar} {format : ComputeFixedFormat}
    (hvalid : computeFixedFormatValid scalar format = true) :
    (∀ lhs rhs : BitVec (computeScalarBits scalar), ∃ result, mul lhs rhs format = some result ∧
      result.toInt = fixedResult (computeScalarBits scalar) format
        (fixedValue format.fractionBits.toNat lhs * fixedValue format.fractionBits.toNat rhs : ℚ)) ∧
    (∀ lhs rhs : BitVec (computeScalarBits scalar), ∃ result, div lhs rhs format = some result ∧
      result.toInt =
        if rhs = 0 then 0
        else fixedResult (computeScalarBits scalar) format
          (fixedValue format.fractionBits.toNat lhs /
            fixedValue format.fractionBits.toNat rhs : ℚ)) ∧
    ∀ {v : ℕ} (_ : v ≤ 64) {sourceFractionBits : UInt32} (_ : sourceFractionBits.toNat < 128)
      (value : BitVec v), ∃ result,
        rescale (computeScalarBits scalar) value sourceFractionBits format = some result ∧
        result.toInt = fixedResult (computeScalarBits scalar) format
          (fixedValue sourceFractionBits.toNat value : ℚ) := by
  obtain ⟨hbound, hinteger, hpositive, hwidth, hrounding⟩ := policy_of_valid hvalid
  have hfraction : format.fractionBits.toNat < computeScalarBits scalar := by omega
  have hw : 0 < computeScalarBits scalar := Nat.zero_lt_of_lt hfraction
  refine ⟨mul_exact hw hbound hfraction hrounding, div_exact hw hbound hfraction hrounding, ?_⟩
  intro v hv sourceFractionBits hsource value
  exact rescale_exact hw hbound hfraction hrounding hv hsource hpositive value

/-- One and a half times minus one raw unit, in 16 and 16 bits, goes to the even neighbour. -/
theorem fixed_exact_half :
    mul (BitVec.ofInt 32 98304) (BitVec.ofInt 32 (-1)) ⟨16, 16, kNearestEven, kSaturate, 1⟩ =
        some (BitVec.ofInt 32 (-2)) ∧
      fixedResult 32 ⟨16, 16, kNearestEven, kSaturate, 1⟩
        (fixedValue 16 (BitVec.ofInt 32 98304) * fixedValue 16 (BitVec.ofInt 32 (-1)) : ℚ) = -2 := by
  obtain ⟨result, hmul, hresult⟩ :=
    (fixed_exact (show computeFixedFormatValid .lane32
      ⟨16, 16, kNearestEven, kSaturate, 1⟩ = true by decide)).1
      (BitVec.ofInt 32 98304) (BitVec.ofInt 32 (-1))
  have heval : mul (BitVec.ofInt 32 98304) (BitVec.ofInt 32 (-1))
      ⟨16, 16, kNearestEven, kSaturate, 1⟩ = some (BitVec.ofInt 32 (-2)) := by decide
  have hsame := Option.some.inj (hmul.symm.trans heval)
  rw [hsame] at hresult
  exact ⟨heval, hresult.symm⟩

end RunD.Fixed
