/-
Fixed-point square roots of `math64`, lane and scalar.

Both find the integer root of the raw value scaled once more, one bit of the
root at a time.  The lanes try all 64 bits; the scalar function first lowers the
bit until it is not above the radicand and then loops until the bit is gone.
-/
import RunD.MathLane

namespace RunD

open RunD.Word
open RunD.Fixed (lowest highest highest_nonneg)
open RunD.Lane

/-! ### The operations -/

namespace Math64

/-- One step of `UnsignedSqrt128`. -/
def sqrtStep (state : RootState 128) : RootState 128 :=
  let ge := geUnsigned state.value (state.result + state.bit)
  { value := select ge (state.value - (state.result + state.bit)) state.value
    result := select ge (state.result >>> 1 + state.bit) (state.result >>> 1)
    bit := state.bit >>> 2 }

def unsignedSqrt128 (value : BitVec 128) : BitVec 128 :=
  (sqrtStep^[64] { value := value, result := 0, bit := BitVec.twoPow 128 126 }).result

/-- The radicand of `Sqrt`. -/
def sqrtRadicand (value : BitVec 64) : BitVec 128 :=
  select (gtSigned (widen 128 value) 0#128) (value.setWidth 128) 0#128 <<< 63

def sqrt (value : BitVec 64) : BitVec 64 := (unsignedSqrt128 (sqrtRadicand value)).setWidth 64

/-- `while (bit > value) bit >>= 2u`. -/
def shrinkBit (value bit : BitVec 128) : BitVec 128 :=
  if bit > value then shrinkBit value (bit >>> 2) else bit
termination_by bit.toNat
decreasing_by
  rename_i h
  have hpos := BitVec.lt_def.mp h
  rw [toNat_shiftRight]
  omega

theorem rootRound_bit (state : RootState 128) : (rootRound state).bit = state.bit >>> 2 := by
  rw [rootRound]
  split <;> rfl

/-- `while (bit != 0u)`. -/
def scalarRootLoop (state : RootState 128) : RootState 128 :=
  if state.bit ≠ 0#128 then scalarRootLoop (rootRound state) else state
termination_by state.bit.toNat
decreasing_by
  rename_i h
  have hpos : state.bit.toNat ≠ 0 := fun hzero => h (BitVec.eq_of_toNat_eq hzero)
  rw [rootRound_bit, toNat_shiftRight]
  omega

def scalarIntegerSqrt128 (value : BitVec 128) : BitVec 128 :=
  (scalarRootLoop
    { value := value, result := 0, bit := shrinkBit value (BitVec.twoPow 128 126) }).result

/-- The radicand of `ScalarSqrt`. -/
def scalarSqrtRadicand (value : BitVec 64) : BitVec 128 :=
  value.setWidth 128 * BitVec.ofNat 128 (2 ^ 63)

def scalarSqrt (value : BitVec 64) : BitVec 64 :=
  if value.toInt ≤ 0 then 0#64
  else scalarClamp 64 (scalarIntegerSqrt128 (scalarSqrtRadicand value)).toInt

/-! ### The loops -/

theorem sqrtStep_eq (state : RootState 128) : sqrtStep state = rootRound state := by
  rw [sqrtStep, rootRound]
  simp only [geUnsigned, select_maskLane, decide_eq_true_eq, ge_iff_le]
  split_ifs <;> rfl

theorem toNat_unsignedSqrt128 {value : BitVec 128} (h : value.toNat < 4 ^ 63) :
    (unsignedSqrt128 value).toNat = Nat.sqrt value.toNat := by
  have hstep : sqrtStep = rootRound := by
    funext state
    exact sqrtStep_eq state
  have hbit : (BitVec.twoPow 128 126).toNat = 4 ^ 63 := by decide
  rw [unsignedSqrt128, hstep]
  -- the first bit is the highest one that a root can have, and one above it
  exact (rootRounds_eq (k := 63) (e := 63) rfl h le_rfl rfl rfl hbit (h.trans (by decide))).1

/-- Where the bit starts as a power of four, the loop makes one round for each power. -/
theorem scalarRootLoop_eq (e : ℕ) (state : RootState 128) (hbit : state.bit.toNat = 4 ^ e) :
    scalarRootLoop state = rootRound^[e + 1] state := by
  have hne : ∀ {bit : BitVec 128} {j : ℕ}, bit.toNat = 4 ^ j → bit ≠ 0#128 := by
    rintro _ j hbit rfl
    exact absurd hbit (Nat.pow_pos (by decide)).ne
  have hnext : (rootRound state).bit.toNat = 4 ^ e / 4 := by
    rw [rootRound_bit, toNat_shiftRight, hbit]
    rfl
  induction e generalizing state with
  | zero =>
      have hzero : (rootRound state).bit = 0#128 := BitVec.eq_of_toNat_eq hnext
      rw [scalarRootLoop, if_pos (hne hbit), scalarRootLoop, if_neg (not_not.mpr hzero)]
      rfl
  | succ e ih =>
      rw [pow_succ, Nat.mul_div_cancel _ (by decide)] at hnext
      rw [scalarRootLoop, if_pos (hne hbit), Function.iterate_succ_apply]
      apply ih _ hnext
      rw [rootRound_bit, toNat_shiftRight, hnext]
      rfl

theorem shrinkBit_le (value bit : BitVec 128) : shrinkBit value bit ≤ value := by
  fun_induction shrinkBit value bit with
  | case1 bit habove ih => exact ih
  | case2 bit hbelow => exact BitVec.not_lt.mp hbelow

/-- The bit is lowered to a power of four with the value below the next one. -/
theorem shrinkBit_eq {value : BitVec 128} (hpos : 0 < value.toNat) (e : ℕ) (bit : BitVec 128)
    (hbit : bit.toNat = 4 ^ e) (hvalue : value.toNat < 4 ^ (e + 1)) :
    ∃ j ≤ e, (shrinkBit value bit).toNat = 4 ^ j ∧ value.toNat < 4 ^ (j + 1) := by
  induction e generalizing bit with
  | zero =>
      refine ⟨0, le_rfl, ?_, hvalue⟩
      have hbelow : ¬ bit > value := by
        apply BitVec.not_lt.mpr
        rw [BitVec.le_def, hbit]
        exact hpos
      rw [shrinkBit, if_neg hbelow, hbit]
  | succ e ih =>
      rw [shrinkBit]
      by_cases habove : bit > value
      · have hless : value.toNat < 4 ^ (e + 1) := hbit ▸ BitVec.lt_def.mp habove
        have hnext : (bit >>> 2).toNat = 4 ^ e := by
          rw [toNat_shiftRight, hbit, pow_succ]
          exact Nat.mul_div_cancel _ (by decide)
        obtain ⟨j, hj, hshrunk⟩ := ih (bit >>> 2) hnext hless
        rw [if_pos habove]
        exact ⟨j, Nat.le_succ_of_le hj, hshrunk⟩
      · rw [if_neg habove]
        exact ⟨e + 1, le_rfl, hbit, hvalue⟩

theorem toNat_scalarIntegerSqrt128 {value : BitVec 128} (h : value.toNat < 4 ^ 63) :
    (scalarIntegerSqrt128 value).toNat = Nat.sqrt value.toNat := by
  rw [scalarIntegerSqrt128]
  rcases Nat.eq_zero_or_pos value.toNat with hzero | hpos
  · -- no bit is left for the second loop
    have hgone : shrinkBit value (BitVec.twoPow 128 126) = 0#128 := by
      apply BitVec.eq_of_toNat_eq
      have hle := BitVec.le_def.mp (shrinkBit_le value (BitVec.twoPow 128 126))
      exact Nat.le_zero.mp (hzero ▸ hle)
    rw [scalarRootLoop, if_neg (not_not.mpr hgone), hzero]
    rfl
  · obtain ⟨j, hj, hbit, hless⟩ :=
      shrinkBit_eq hpos 63 (BitVec.twoPow 128 126) (by decide) (h.trans (by decide))
    rw [scalarRootLoop_eq j _ hbit]
    exact (rootRounds_eq (k := 63) (e := j) rfl h hj rfl rfl hbit hless).1

/-! ### The radicands -/

/-- A raw value that is not negative, as a wide word. -/
theorem toNat_setWidth_of_nonneg {value : BitVec 64} (h : 0 ≤ value.toInt) :
    (value.setWidth 128).toNat = value.toInt.toNat := by
  rw [BitVec.toNat_setWidth_of_le (by decide), ← natCast_toNat (by decide) h]
  exact (Int.toNat_natCast _).symm

theorem radicand_lt (value : BitVec 64) : value.toInt.toNat * 2 ^ 63 < 4 ^ 63 := by
  have hle := toInt_le_highest value
  have hhighest : highest 64 = 2 ^ 63 - 1 := rfl
  calc value.toInt.toNat * 2 ^ 63 < 2 ^ 63 * 2 ^ 63 :=
        Nat.mul_lt_mul_of_pos_right (by omega) (by decide)
    _ = 4 ^ 63 := by decide

theorem toNat_sqrtRadicand (value : BitVec 64) :
    (sqrtRadicand value).toNat = value.toInt.toNat * 2 ^ 63 := by
  rw [sqrtRadicand, gtSigned, select_maskLane, toInt_widen (by decide), BitVec.toInt_zero,
    BitVec.toNat_shiftLeft, Nat.shiftLeft_eq]
  rcases lt_or_ge 0 value.toInt with hpos | hneg
  · rw [decide_eq_true hpos, if_pos rfl, toNat_setWidth_of_nonneg hpos.le]
    exact Nat.mod_eq_of_lt ((radicand_lt value).trans (by decide))
  · rw [decide_eq_false (not_lt.mpr hneg), if_neg (by decide), Int.toNat_of_nonpos hneg]
    rfl

theorem toNat_scalarSqrtRadicand {value : BitVec 64} (h : 0 ≤ value.toInt) :
    (scalarSqrtRadicand value).toNat = value.toInt.toNat * 2 ^ 63 := by
  have hscale : (BitVec.ofNat 128 (2 ^ 63)).toNat = 2 ^ 63 := by decide
  rw [scalarSqrtRadicand, toNat_mul_of_lt] <;> rw [toNat_setWidth_of_nonneg h, hscale]
  exact (radicand_lt value).trans (by decide)

/-! ### Square roots -/

/-- **The two root loops agree and are the integer square root** of the radicand of any raw value
that is not negative, and the root is a raw value. -/
theorem sqrtLoops_exact (value : BitVec 64) (h : 0 ≤ value.toInt) :
    let radicand := sqrtRadicand value
    let root := unsignedSqrt128 radicand
    (radicand.toNat = value.toInt.toNat * 2 ^ 63 ∧ scalarSqrtRadicand value = radicand) ∧
      scalarIntegerSqrt128 radicand = root ∧
      (root.toNat * root.toNat ≤ radicand.toNat ∧
        radicand.toNat < (root.toNat + 1) * (root.toNat + 1)) ∧
      (root.toNat : ℤ) ≤ highest 64 ∧
      (sqrt value).toInt = root.toNat ∧ scalarSqrt value = sqrt value := by
  intro radicand root
  have hradicand : radicand.toNat = value.toInt.toNat * 2 ^ 63 := toNat_sqrtRadicand value
  have hlt : radicand.toNat < 4 ^ 63 := hradicand ▸ radicand_lt value
  have hroot : root.toNat = Nat.sqrt radicand.toNat := toNat_unsignedSqrt128 hlt
  have hsame : scalarSqrtRadicand value = radicand :=
    BitVec.eq_of_toNat_eq ((toNat_scalarSqrtRadicand h).trans hradicand.symm)
  have hloops : scalarIntegerSqrt128 radicand = root :=
    BitVec.eq_of_toNat_eq ((toNat_scalarIntegerSqrt128 hlt).trans hroot.symm)
  have hbelow : root.toNat < 2 ^ 63 := by
    rw [hroot]
    apply Nat.sqrt_lt.mpr
    rwa [← mul_pow]
  have hwide : root.toInt = root.toNat := toInt_of_toNat_lt (by decide) (hbelow.trans (by decide))
  have hlowest : lowest 64 ≤ 0 := RunD.Fixed.lowest_nonpos 64
  have hhighest : highest 64 = 2 ^ 63 - 1 := rfl
  have hnarrow : (sqrt value).toInt = root.toNat := by
    show (root.setWidth 64).toInt = root.toNat
    rw [toInt_setWidth_of_mem (by decide) (by decide), hwide] <;> omega
  refine ⟨⟨hradicand, hsame⟩, hloops, ?_, by omega, hnarrow, ?_⟩
  · rw [hroot]
    exact ⟨Nat.sqrt_le _, Nat.lt_succ_sqrt _⟩
  · apply BitVec.toInt_inj.mp
    rw [hnarrow, scalarSqrt, hsame, hloops]
    split_ifs with hzero
    · -- the root of zero
      have hnone : radicand.toNat = 0 := by
        rw [hradicand, Int.toNat_of_nonpos hzero]
        rfl
      rw [hroot, hnone]
      rfl
    · rw [toInt_scalarClamp (by decide), hwide, clampTo_of_mem] <;> omega

/-- The root of one half. -/
theorem sqrtLoops_exact_half :
    0 ≤ (4611686018427387904#64).toInt ∧
      (sqrt 4611686018427387904#64).toInt =
        (unsignedSqrt128 (sqrtRadicand 4611686018427387904#64)).toNat :=
  ⟨by decide, (sqrtLoops_exact 4611686018427387904#64 (by decide)).2.2.2.2.1⟩

end Math64

end RunD
