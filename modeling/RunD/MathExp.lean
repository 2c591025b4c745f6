/-
Powers of two with negative exponents, and exponential weights, of `math64` and
`math32`.

`Exp2` of a raw value that is not positive is a polynomial in its magnitude, by
Horner's rule with truncated products, between one half and one.  It is not
monotone from one raw value to the next, but it falls from each multiple of 16
to the next one, and the weights only ask for those: a logit has four fractional
bits less than a raw value.
-/
import RunD.MathMul
import RunD.TruncatedHorner

namespace RunD

open RunD.Word
open RunD.Fixed (lowest highest lowest_nonpos highest_nonneg lowest_le_highest toInt_ofInt_of_mem)
open RunD.Horner
open RunD.Lane

/-! ### The operations -/

namespace Lane

variable {w : ℕ}

/-- `Ge` of signed lanes. -/
def geSigned (lhs rhs : BitVec w) : BitVec w := maskLane w (decide (lhs.toInt ≥ rhs.toInt))

/-- `FixedHalf`. -/
def fixedHalf (w : ℕ) : BitVec w := BitVec.twoPow w (w - 2)

/-- `Abs`. -/
def absLane (value : BitVec w) : BitVec w :=
  let wrapped := select (ltSigned value 0#w) (0#w - value) value
  select (eqLane value (fixedMin w)) (fixedMax w) wrapped

/-- `Exp2`, with the product and the sum of the width, and the coefficients `ExpC1` to `ExpC5`
and `ExpC6`. -/
def exp2 (mulFixed addSat : BitVec w → BitVec w → BitVec w) (lower : List (BitVec w))
    (last value : BitVec w) : BitVec w :=
  let unit := absLane value
  let polynomial := lower.foldr (fun c polynomial => addSat c (mulFixed polynomial unit)) last
  let approximated :=
    clamp (addSat (fixedMax w) (mulFixed polynomial unit)) (fixedHalf w) (fixedMax w)
  let nonNegative := select (geSigned value 0#w) (fixedMax w) approximated
  select (eqLane value (fixedMin w)) (fixedHalf w) nonNegative

/-- `ExpNegQ5_59ToQ1_63Approx` and `ExpNegQ5_27ToQ1_31Approx` of a lane. -/
def expNeg (exp2 : BitVec w → BitVec w) (diff : BitVec w) : BitVec w :=
  let scaled := clamp (diff <<< 4) (fixedMin w) 0#w
  maxSigned (exp2 scaled) 0#w

/-- `ScalarAbsMagnitude`. -/
def scalarAbsMagnitude (value : BitVec w) : BitVec w :=
  if value &&& BitVec.twoPow w (w - 1) = 0#w then value else ~~~value + 1#w

/-- `ScalarAbs`. -/
def scalarAbs (value : BitVec w) : BitVec w :=
  if value = fixedMin w then fixedMax w else scalarAbsMagnitude value

/-- `ScalarAddSat`. -/
def scalarAddSat (lhs rhs : BitVec w) : BitVec w := scalarClamp w (lhs.toInt + rhs.toInt)

/-- `ScalarMin`. -/
def scalarMin (lhs rhs : BitVec w) : BitVec w := if lhs.toInt < rhs.toInt then lhs else rhs

/-- `ScalarMax`. -/
def scalarMax (lhs rhs : BitVec w) : BitVec w := if lhs.toInt > rhs.toInt then lhs else rhs

/-- `ScalarExp2`, with the product of the width. -/
def scalarExp2 (scalarMulFixed : BitVec w → BitVec w → Option (BitVec w))
    (lower : List (BitVec w)) (last value : BitVec w) : Option (BitVec w) :=
  if value.toInt ≥ 0 then some (fixedMax w)
  else if value = fixedMin w then some (fixedHalf w)
  else do
    let unit := scalarAbs value
    let polynomial ← lower.foldrM (fun c polynomial => do
      let term ← scalarMulFixed polynomial unit
      some (scalarAddSat c term)) last
    let term ← scalarMulFixed polynomial unit
    some (scalarMin (scalarMax (scalarAddSat (fixedMax w) term) (fixedHalf w)) (fixedMax w))

/-- `ExpNegQ5_59ToQ1_63Approx` and `ExpNegQ5_27ToQ1_31Approx` of a scalar difference: the base
is changed to two, the whole part shifts and the fraction is a power of two. -/
def scalarExpNeg (fractionBits : ℕ) (log2E : ℤ) (scalarExp2 : BitVec w → Option (BitVec w))
    (diff : BitVec 64) : Option (BitVec w) := do
  let product ← exactly 128 (diff.toInt * log2E)
  let base2 ← exactly 128 (product.tdiv (2 ^ fractionBits : ℕ))
  let negated ← exactly 128 (-base2)
  let magnitude := BitVec.ofInt 128 negated
  let whole := magnitude >>> fractionBits
  let fraction := lowBits fractionBits magnitude
  if whole ≥ BitVec.ofNat 128 (w - 1) then some 0#w
  else do
    let power ← scalarExp2 (-(fraction.setWidth w <<< 4))
    some (power.sshiftRight whole.toNat)

end Lane

namespace Math64

def expC1 : BitVec 64 := BitVec.ofInt 64 (-6393154322601327830)
def expC2 : BitVec 64 := BitVec.ofInt 64 2215698446797868712
def expC3 : BitVec 64 := BitVec.ofInt 64 (-511935043789664227)
def expC4 : BitVec 64 := BitVec.ofInt 64 88711583058159475
def expC5 : BitVec 64 := BitVec.ofInt 64 (-12298036735954530)
def expC6 : BitVec 64 := BitVec.ofInt 64 1420724914991586

def exp2 (value : BitVec 64) : BitVec 64 :=
  Lane.exp2 mulFixed addSat [expC1, expC2, expC3, expC4, expC5] expC6 value

def scalarExp2 (value : BitVec 64) : Option (BitVec 64) :=
  Lane.scalarExp2 scalarMulFixed [expC1, expC2, expC3, expC4, expC5] expC6 value

def probLog2E : ℤ := 831657068615270144
def probLogitFractionBits : ℕ := 59

def expNeg (diff : BitVec 64) : BitVec 64 := Lane.expNeg exp2 diff

def scalarExpNeg (diff : BitVec 64) : Option (BitVec 64) :=
  Lane.scalarExpNeg probLogitFractionBits probLog2E scalarExp2 diff

end Math64

namespace Math32

def expC1 : BitVec 32 := BitVec.ofInt 32 (-1488522236)
def expC2 : BitVec 32 := BitVec.ofInt 32 515882496
def expC3 : BitVec 32 := BitVec.ofInt 32 (-119194166)
def expC4 : BitVec 32 := BitVec.ofInt 32 20654775
def expC5 : BitVec 32 := BitVec.ofInt 32 (-2863360)
def expC6 : BitVec 32 := BitVec.ofInt 32 330788

def exp2 (value : BitVec 32) : BitVec 32 :=
  Lane.exp2 mulFixed addSat [expC1, expC2, expC3, expC4, expC5] expC6 value

def scalarExp2 (value : BitVec 32) : Option (BitVec 32) :=
  Lane.scalarExp2 scalarMulFixed [expC1, expC2, expC3, expC4, expC5] expC6 value

def probLog2E : ℤ := 193635251
def probLogitFractionBits : ℕ := 27

def expNeg (diff : BitVec 32) : BitVec 32 := Lane.expNeg exp2 diff

def scalarExpNeg (diff : BitVec 64) : Option (BitVec 32) :=
  Lane.scalarExpNeg probLogitFractionBits probLog2E scalarExp2 diff

end Math32

/-! ### Powers as polynomials -/

namespace Lane

variable {w : ℕ}

/-- The coefficients of the polynomial as numbers, with the one of the constant. -/
def expCoefs (lower : List (BitVec w)) (last : BitVec w) : List ℤ :=
  highest w :: (lower.map BitVec.toInt ++ [last.toInt])

/-- The power at the magnitude `u`, of the scale `2 ^ (w - 1)`. -/
def expCurve (w : ℕ) (cs : List ℤ) (u : ℤ) : ℤ :=
  if u = 0 then highest w
  else if u = (2 ^ (w - 1) : ℕ) then (2 ^ (w - 2) : ℕ)
  else min (max (horner (2 ^ (w - 1) : ℕ) u cs) (2 ^ (w - 2) : ℕ)) (highest w)

theorem toInt_fixedHalf (hw : 1 < w) : (fixedHalf w).toInt = (2 ^ (w - 2) : ℕ) := by
  have hnat : (fixedHalf w).toNat = 2 ^ (w - 2) := by
    rw [fixedHalf, BitVec.toNat_twoPow]
    exact Nat.mod_eq_of_lt (Nat.pow_lt_pow_right (by decide) (by omega))
  rw [toInt_of_toNat_lt (by omega), hnat]
  rw [hnat]
  exact Nat.pow_lt_pow_right (by decide) (by omega)

theorem toInt_absLane (hw : 0 < w) {value : BitVec w} (h : value ≠ fixedMin w) :
    (absLane value).toInt = |value.toInt| := by
  have hlow := toInt_lowest_le value
  have hne : value.toInt ≠ lowest w := fun heq => h ((toInt_eq_lowest_iff hw value).mp heq)
  have hnat := toNat_absMagnitude hw value
  have hbelow : (absMagnitude value).toNat < 2 ^ (w - 1) := by
    have hhigh := toInt_le_highest value
    rw [lowest] at hlow hne
    rw [highest] at hhigh
    rw [hnat]
    zify
    exact abs_lt.mpr ⟨lt_of_le_of_ne hlow (Ne.symm hne), by linarith⟩
  have habs : absLane value = absMagnitude value := by
    rw [absLane, eqLane, select_maskLane, beq_eq_false_iff_ne.mpr h, if_neg (by decide)]
    rfl
  rw [habs, toInt_of_toNat_lt hw hbelow, hnat, Int.natCast_natAbs]

section Power

variable {mulFixed addSat : BitVec w → BitVec w → BitVec w}
variable (hw : 1 < w)
variable (hmul : ∀ x y, (mulFixed x y).toInt =
  clampTo w ((x.toInt * y.toInt).tdiv (2 ^ (w - 1) : ℕ)))
variable (hadd : ∀ x y, (addSat x y).toInt = clampTo w (x.toInt + y.toInt))
variable {lower : List (BitVec w)} {last : BitVec w}
include hmul hadd

/-- Where no part of the polynomial leaves the range, nothing saturates. -/
theorem toInt_polynomial_of_lt {unit : BitVec w} (hunit : 0 ≤ unit.toInt)
    (hbound : ∀ cs, cs <:+ lower.map BitVec.toInt ++ [last.toInt] →
      (horner (2 ^ (w - 1) : ℕ) unit.toInt cs).natAbs < 2 ^ (w - 1)) :
    (lower.foldr (fun c polynomial => addSat c (mulFixed polynomial unit)) last).toInt =
      horner (2 ^ (w - 1) : ℕ) unit.toInt (lower.map BitVec.toInt ++ [last.toInt]) := by
  induction lower with
  | nil => simp [horner]
  | cons c lower ih =>
      rw [List.map_cons, List.cons_append] at hbound ⊢
      have hscale : (0 : ℤ) < (2 ^ (w - 1) : ℕ) := by exact_mod_cast Nat.two_pow_pos (w - 1)
      have hbelow : unit.toInt ≤ (2 ^ (w - 1) : ℕ) := by
        have hhigh := toInt_le_highest unit
        rw [highest] at hhigh
        push_cast
        linarith
      have hrest : ∀ cs, cs <:+ lower.map BitVec.toInt ++ [last.toInt] →
          (horner (2 ^ (w - 1) : ℕ) unit.toInt cs).natAbs < 2 ^ (w - 1) :=
        fun cs hcs => hbound cs (hcs.trans (List.suffix_cons _ _))
      have hterm := natAbs_tdiv_mul_le hscale hunit hbelow
        (horner (2 ^ (w - 1) : ℕ) unit.toInt (lower.map BitVec.toInt ++ [last.toInt]))
      obtain ⟨htermLow, htermHigh⟩ :=
        mem_of_natAbs_lt (n := w) (lt_of_le_of_lt hterm (hrest _ List.suffix_rfl))
      obtain ⟨hlow, hhigh⟩ := mem_of_natAbs_lt (n := w) (hbound _ List.suffix_rfl)
      rw [List.foldr_cons, hadd, hmul, ih hrest, clampTo_of_mem htermLow htermHigh]
      exact clampTo_of_mem hlow hhigh

variable (hsum : ((lower.map BitVec.toInt ++ [last.toInt]).map Int.natAbs).sum < 2 ^ (w - 1))
include hsum

/-- Coefficients whose sum is in the range never saturate. -/
theorem toInt_polynomial {unit : BitVec w} (hunit : 0 ≤ unit.toInt) :
    (lower.foldr (fun c polynomial => addSat c (mulFixed polynomial unit)) last).toInt =
      horner (2 ^ (w - 1) : ℕ) unit.toInt (lower.map BitVec.toInt ++ [last.toInt]) := by
  apply toInt_polynomial_of_lt hmul hadd hunit
  intro cs hcs
  have hscale : (0 : ℤ) < (2 ^ (w - 1) : ℕ) := by exact_mod_cast Nat.two_pow_pos (w - 1)
  have hbelow : unit.toInt ≤ (2 ^ (w - 1) : ℕ) := by
    have hhigh := toInt_le_highest unit
    rw [highest] at hhigh
    push_cast
    linarith
  have hvalue := natAbs_horner_le hscale hunit hbelow cs
  have hpart : (cs.map Int.natAbs).sum ≤
      ((lower.map BitVec.toInt ++ [last.toInt]).map Int.natAbs).sum := by
    obtain ⟨front, hfront⟩ := hcs
    rw [← hfront, List.map_append, List.sum_append]
    exact Nat.le_add_left _ _
  exact lt_of_le_of_lt (hvalue.trans hpart) hsum

include hw in
/-- **A power is the polynomial at the magnitude**, and the scale itself is one half. -/
theorem toInt_exp2 {value : BitVec w} (h : value.toInt ≤ 0) :
    (exp2 mulFixed addSat lower last value).toInt =
      expCurve w (expCoefs lower last) (-value.toInt) := by
  have hpos : 0 < w := by omega
  have hscale : (0 : ℤ) < (2 ^ (w - 1) : ℕ) := by exact_mod_cast Nat.two_pow_pos (w - 1)
  have hlowest : lowest w = -((2 ^ (w - 1) : ℕ) : ℤ) := by simp [lowest]
  rw [exp2, eqLane, select_maskLane, expCurve]
  by_cases hmin : value = fixedMin w
  · have hnum : -value.toInt = (2 ^ (w - 1) : ℕ) := by
      rw [hmin, toInt_fixedMin hpos, hlowest, neg_neg]
    rw [beq_iff_eq.mpr hmin, if_pos rfl, toInt_fixedHalf hw, hnum, if_neg hscale.ne', if_pos rfl]
  · have hne : value.toInt ≠ lowest w :=
      fun heq => hmin ((toInt_eq_lowest_iff hpos value).mp heq)
    rw [beq_eq_false_iff_ne.mpr hmin, if_neg (by decide), geSigned, select_maskLane,
      BitVec.toInt_zero]
    by_cases hzero : value.toInt = 0
    · rw [hzero, decide_eq_true le_rfl, if_pos rfl, toInt_fixedMax hpos, if_pos neg_zero]
    · have hunit : (absLane value).toInt = -value.toInt := by
        rw [toInt_absLane hpos hmin, abs_of_nonpos h]
      have hnonneg : 0 ≤ (absLane value).toInt := by
        rw [hunit]
        exact neg_nonneg.mpr h
      have hbelow : -value.toInt ≤ (2 ^ (w - 1) : ℕ) := by
        have hlow := toInt_lowest_le value
        rw [hlowest] at hlow
        linarith
      have hterm := natAbs_tdiv_mul_le hscale (neg_nonneg.mpr h) hbelow
        (horner (2 ^ (w - 1) : ℕ) (-value.toInt) (lower.map BitVec.toInt ++ [last.toInt]))
      have hvalue := natAbs_horner_le hscale (neg_nonneg.mpr h) hbelow
        (lower.map BitVec.toInt ++ [last.toInt])
      obtain ⟨htermLow, htermHigh⟩ :=
        mem_of_natAbs_lt (n := w) (lt_of_le_of_lt (hterm.trans hvalue) hsum)
      rw [decide_eq_false (by omega), if_neg (by decide), if_neg (by omega), if_neg (by omega),
        toInt_clamp, hadd, min_max_clampTo, hmul, toInt_polynomial hmul hadd hsum hnonneg, hunit,
        clampTo_of_mem htermLow htermHigh, toInt_fixedHalf hw, toInt_fixedMax hpos]
      rfl

end Power

/-! ### Powers fall -/

theorem half_le_expCurve (hw : 1 < w) (cs : List ℤ) (u : ℤ) :
    ((2 ^ (w - 2) : ℕ) : ℤ) ≤ expCurve w cs u ∧ expCurve w cs u ≤ highest w := by
  have hhalf : ((2 ^ (w - 2) : ℕ) : ℤ) ≤ highest w := by
    rw [highest]
    apply Int.le_sub_one_of_lt
    exact_mod_cast (Nat.pow_lt_pow_right (by decide) (by omega) : 2 ^ (w - 2) < 2 ^ (w - 1))
  rw [expCurve]
  split_ifs
  · exact ⟨hhalf, le_rfl⟩
  · exact ⟨le_rfl, hhalf⟩
  · exact ⟨le_min (le_max_right _ _) hhalf, min_le_right _ _⟩

section Curve

variable {cs : List ℤ}
variable (hdefinite : Definite (2 ^ (w - 1) : ℕ) (2 ^ (w - 1) : ℕ) 16 (highest w :: cs))
variable (hrise : (drift (2 ^ (w - 1) : ℕ) (2 ^ (w - 1) : ℕ) 16 (highest w :: cs)).rise ≤ -1)
include hdefinite hrise

/-- From a multiple of 16 to the next one the polynomial falls. -/
theorem horner_succ_lt {k : ℕ} (h : 16 * (k + 1) ≤ 2 ^ (w - 1)) :
    horner (2 ^ (w - 1) : ℕ) (16 * (k + 1) : ℕ) (highest w :: cs) <
      horner (2 ^ (w - 1) : ℕ) (16 * k : ℕ) (highest w :: cs) := by
  have hscale : (0 : ℤ) < (2 ^ (w - 1) : ℕ) := by exact_mod_cast Nat.two_pow_pos (w - 1)
  have hnext : ((16 * k : ℕ) : ℤ) + 16 = (16 * (k + 1) : ℕ) := by
    push_cast
    ring
  have hend : ((16 * k : ℕ) : ℤ) + 16 ≤ (2 ^ (w - 1) : ℕ) := by
    rw [hnext]
    exact_mod_cast h
  have hstep := drift_holds hscale (Int.natCast_nonneg _) (by norm_num) hend hdefinite
  rw [hnext] at hstep
  have hmove := hstep.rise.trans hrise
  linarith

theorem horner_lt_of_lt {k k' : ℕ} (h : k < k') (htop : 16 * k' ≤ 2 ^ (w - 1)) :
    horner (2 ^ (w - 1) : ℕ) (16 * k' : ℕ) (highest w :: cs) <
      horner (2 ^ (w - 1) : ℕ) (16 * k : ℕ) (highest w :: cs) := by
  induction k', h using Nat.le_induction with
  | base => exact horner_succ_lt hdefinite hrise htop
  | succ k' _ ih =>
      exact (horner_succ_lt hdefinite hrise htop).trans (ih (by omega))

variable (hlast : ((2 ^ (w - 2) : ℕ) : ℤ) <
  horner (2 ^ (w - 1) : ℕ) ((2 ^ (w - 1) : ℕ) - 16) (highest w :: cs))
include hlast

/-- Before the end of the scale no bound is reached. -/
theorem expCurve_eq (hw : 5 ≤ w) {k : ℕ} (h : 16 * k < 2 ^ (w - 1)) :
    expCurve w (highest w :: cs) (16 * k : ℕ) =
        horner (2 ^ (w - 1) : ℕ) (16 * k : ℕ) (highest w :: cs) ∧
      ((2 ^ (w - 2) : ℕ) : ℤ) < horner (2 ^ (w - 1) : ℕ) (16 * k : ℕ) (highest w :: cs) := by
  obtain ⟨n, hn⟩ : ∃ n, 2 ^ (w - 1) = 16 * (n + 1) := by
    refine ⟨2 ^ (w - 5) - 1, ?_⟩
    rw [Nat.sub_add_cancel (Nat.two_pow_pos _), show w - 1 = 4 + (w - 5) by omega, pow_add]
    norm_num
  have hstart : horner (2 ^ (w - 1) : ℕ) ((16 * 0 : ℕ) : ℤ) (highest w :: cs) = highest w := by
    simp [horner]
  have hend : ((2 ^ (w - 1) : ℕ) : ℤ) - 16 = (16 * n : ℕ) := by
    rw [hn]
    push_cast
    ring
  rw [hend] at hlast
  have habove : ((2 ^ (w - 2) : ℕ) : ℤ) <
      horner (2 ^ (w - 1) : ℕ) (16 * k : ℕ) (highest w :: cs) := by
    rcases Nat.lt_or_ge k n with hlt | hge
    · exact hlast.trans (horner_lt_of_lt hdefinite hrise hlt (by omega))
    · have hkn : k = n := by omega
      rwa [hkn]
  refine ⟨?_, habove⟩
  rcases Nat.eq_zero_or_pos k with hzero | hpos
  · rw [expCurve, hzero, hstart, if_pos (by norm_num)]
  · have hbelow := horner_lt_of_lt hdefinite hrise hpos h.le
    rw [hstart] at hbelow
    rw [expCurve, if_neg (by exact_mod_cast (Nat.mul_pos (by decide) hpos).ne'),
      if_neg (by exact_mod_cast h.ne), max_eq_left habove.le, min_eq_left hbelow.le]

/-- **Powers fall strictly** from each multiple of 16 to the next one. -/
theorem expCurve_lt (hw : 5 ≤ w) {k k' : ℕ} (h : k < k') (htop : 16 * k' ≤ 2 ^ (w - 1)) :
    expCurve w (highest w :: cs) (16 * k' : ℕ) < expCurve w (highest w :: cs) (16 * k : ℕ) := by
  obtain ⟨hvalue, habove⟩ := expCurve_eq hdefinite hrise hlast hw (k := k) (by omega)
  rw [hvalue]
  rcases Nat.lt_or_eq_of_le htop with hlt | heq
  · rw [(expCurve_eq hdefinite hrise hlast hw hlt).1]
    exact horner_lt_of_lt hdefinite hrise h htop
  · rw [expCurve, heq, if_neg (by exact_mod_cast (Nat.two_pow_pos _).ne'), if_pos rfl]
    exact habove

end Curve

/-! ### Scalar powers -/

theorem scalarAbs_eq (hw : 0 < w) (value : BitVec w) : scalarAbs value = absLane value := by
  rw [scalarAbs, absLane, eqLane, select_maskLane, ltSigned, select_maskLane, BitVec.toInt_zero,
    scalarAbsMagnitude, BitVec.and_twoPow, ← BitVec.msb_eq_getLsbD_last, BitVec.msb_eq_toInt,
    ← BitVec.neg_eq_not_add, BitVec.zero_sub]
  have hbit : BitVec.twoPow w (w - 1) ≠ 0#w := by
    intro hzero
    have hnat := congrArg BitVec.toNat hzero
    rw [BitVec.toNat_twoPow, Nat.mod_eq_of_lt (Nat.pow_lt_pow_right (by decide) (by omega))] at hnat
    exact absurd hnat (Nat.two_pow_pos _).ne'
  by_cases hmin : value = fixedMin w
  · rw [if_pos hmin, beq_iff_eq.mpr hmin, if_pos rfl]
  · rw [if_neg hmin, beq_eq_false_iff_ne.mpr hmin, if_neg Bool.false_ne_true]
    by_cases hneg : value.toInt < 0
    · rw [decide_eq_true hneg, if_pos rfl, if_pos rfl, if_neg hbit]
    · rw [decide_eq_false hneg, if_neg Bool.false_ne_true, if_neg Bool.false_ne_true, if_pos rfl]

theorem scalarMin_eq (lhs rhs : BitVec w) : scalarMin lhs rhs = minSigned lhs rhs := by
  rw [scalarMin, minSigned, ltSigned, select_maskLane]
  simp

theorem scalarMax_eq (lhs rhs : BitVec w) : scalarMax lhs rhs = maxSigned lhs rhs := by
  rw [scalarMax, maxSigned, gtSigned, select_maskLane]
  simp

/-- The scalar function computes what a lane does. -/
theorem scalarExp2_eq (hw : 0 < w) {mulFixed addSat : BitVec w → BitVec w → BitVec w}
    {scalarMulFixed : BitVec w → BitVec w → Option (BitVec w)}
    (hmul : ∀ x y, scalarMulFixed x y = some (mulFixed x y))
    (hadd : ∀ x y, scalarAddSat x y = addSat x y) (lower : List (BitVec w))
    (last value : BitVec w) :
    scalarExp2 scalarMulFixed lower last value =
      some (exp2 mulFixed addSat lower last value) := by
  have hfold : ∀ unit : BitVec w, lower.foldrM (fun c polynomial => do
      let term ← scalarMulFixed polynomial unit
      some (scalarAddSat c term)) last =
        some (lower.foldr (fun c polynomial => addSat c (mulFixed polynomial unit)) last) := by
    intro unit
    induction lower with
    | nil => rfl
    | cons c lower ih =>
        rw [List.foldrM_cons, ih]
        show (scalarMulFixed _ unit >>= fun term => some (scalarAddSat c term)) = _
        rw [hmul]
        show some (scalarAddSat c _) = _
        rw [hadd]
        rfl
  rw [scalarExp2, exp2, eqLane, select_maskLane, geSigned, select_maskLane, BitVec.toInt_zero]
  by_cases hpos : value.toInt ≥ 0
  · have hlow : value ≠ fixedMin w := by
      rintro rfl
      rw [toInt_fixedMin hw, lowest] at hpos
      have hscale : (0 : ℤ) < 2 ^ (w - 1) := by positivity
      linarith
    rw [if_pos hpos, decide_eq_true hpos, if_pos rfl, beq_eq_false_iff_ne.mpr hlow,
      if_neg (by decide)]
  · rw [if_neg hpos, decide_eq_false hpos]
    by_cases hlow : value = fixedMin w
    · rw [if_pos hlow, beq_iff_eq.mpr hlow, if_pos rfl]
    · rw [if_neg hlow, beq_eq_false_iff_ne.mpr hlow, if_neg (by decide), if_neg (by decide)]
      dsimp only
      rw [scalarAbs_eq hw, hfold]
      show (scalarMulFixed _ _ >>= fun term => some (scalarMin (scalarMax
        (scalarAddSat (fixedMax w) term) (fixedHalf w)) (fixedMax w))) = _
      rw [hmul]
      show some (scalarMin (scalarMax (scalarAddSat (fixedMax w) _) (fixedHalf w)) (fixedMax w)) = _
      rw [hadd, scalarMin_eq, scalarMax_eq]
      rfl

/-! ### Weights -/

/-- What the shift of a lane leaves of a depth below the maximum, where the last bits count as
none in the upper half of their range. -/
def foldedDepth (w depth : ℕ) : ℕ :=
  if depth % 2 ^ (w - 4) ≤ 2 ^ (w - 5) then depth % 2 ^ (w - 4) else 0

theorem foldedDepth_le (w depth : ℕ) : foldedDepth w depth ≤ 2 ^ (w - 5) := by
  rw [foldedDepth]
  split_ifs with hle
  · exact hle
  · exact Nat.zero_le _

/-- The shifted difference, bounded by zero. -/
theorem toInt_scaled (hw : 6 ≤ w) {diff : BitVec w} (h : diff.toInt ≤ 0) :
    (clamp (diff <<< 4) (fixedMin w) 0#w).toInt =
      -((16 * foldedDepth w diff.toInt.natAbs : ℕ) : ℤ) := by
  set depth := diff.toInt.natAbs with hdepth
  set rest := depth % 2 ^ (w - 4) with hrest
  have hpow : 2 ^ w = 16 * 2 ^ (w - 4) := by
    rw [show w = 4 + (w - 4) by omega, pow_add, Nat.add_sub_cancel_left]
    norm_num
  have hhalf : 2 ^ (w - 1) = 16 * 2 ^ (w - 5) := by
    rw [show w - 1 = 4 + (w - 5) by omega, pow_add]
    norm_num
  have htwice : 2 ^ (w - 4) = 2 * 2 ^ (w - 5) := by
    rw [← pow_succ']
    congr 1
    omega
  have hlowest : lowest w = -((16 * 2 ^ (w - 5) : ℕ) : ℤ) := by
    rw [lowest, ← hhalf]
    push_cast
    rfl
  have hhighest : highest w = ((16 * 2 ^ (w - 5) : ℕ) : ℤ) - 1 := by
    rw [highest, ← hhalf]
    push_cast
    rfl
  have hsixteen : (BitVec.twoPow w 4).toInt = 16 := by
    have hnat : (BitVec.twoPow w 4).toNat = 16 := by
      rw [BitVec.toNat_twoPow]
      exact Nat.mod_eq_of_lt (Nat.pow_lt_pow_right (by decide) (by omega) : 2 ^ 4 < 2 ^ w)
    rw [toInt_of_toNat_lt (by omega), hnat]
    · rfl
    · rw [hnat]
      exact (Nat.pow_lt_pow_right (by decide) (by omega) : 2 ^ 4 < 2 ^ (w - 1))
  -- the bits above the word do not matter
  have hsplit : diff.toInt * 16 = -((16 * rest : ℕ) : ℤ) +
      ((2 ^ w : ℕ) : ℤ) * -((depth / 2 ^ (w - 4) : ℕ) : ℤ) := by
    have hnum : diff.toInt = -(depth : ℤ) := by omega
    have hdiv : ((2 ^ (w - 4) * (depth / 2 ^ (w - 4)) + rest : ℕ) : ℤ) = depth :=
      congrArg _ (Nat.div_add_mod depth (2 ^ (w - 4)))
    set quotient := depth / 2 ^ (w - 4)
    rw [hnum, hpow, ← hdiv]
    push_cast
    ring
  have hshift : (diff <<< 4).toInt = (-((16 * rest : ℕ) : ℤ)).bmod (2 ^ w) := by
    rw [BitVec.shiftLeft_eq_mul_twoPow, BitVec.toInt_mul, hsixteen, hsplit,
      Int.add_mul_bmod_self_left]
  have hrestLt : rest < 2 ^ (w - 4) := Nat.mod_lt _ (Nat.two_pow_pos _)
  rw [toInt_clamp, hshift, toInt_fixedMin (by omega), BitVec.toInt_zero, foldedDepth, ← hrest]
  by_cases hle : rest ≤ 2 ^ (w - 5)
  · rw [if_pos hle, bmod_of_mem (by omega) (by omega) (by omega), max_eq_left (by omega),
      min_eq_left (by omega)]
  · have hwrap : -((16 * rest : ℕ) : ℤ) =
        ((2 ^ w : ℕ) : ℤ) - (16 * rest : ℕ) + ((2 ^ w : ℕ) : ℤ) * -1 := by ring
    rw [if_neg hle, hwrap, Int.add_mul_bmod_self_left,
      bmod_of_mem (by omega) (by omega) (by omega), max_eq_left (by omega), min_eq_right (by omega)]
    rfl

section Weight

variable {cs : List ℤ}

/-- **The weight of a lane** is the power at the folded depth. -/
theorem toInt_expNeg (hw : 6 ≤ w) {exp : BitVec w → BitVec w}
    (hexp : ∀ value : BitVec w, value.toInt ≤ 0 →
      (exp value).toInt = expCurve w cs (-value.toInt))
    {diff : BitVec w} (h : diff.toInt ≤ 0) :
    (expNeg exp diff).toInt = expCurve w cs (16 * foldedDepth w diff.toInt.natAbs : ℕ) := by
  have hscaled := toInt_scaled hw h
  have hpower := hexp (clamp (diff <<< 4) (fixedMin w) 0#w)
    (hscaled ▸ neg_nonpos.mpr (Int.natCast_nonneg _))
  rw [hscaled, neg_neg] at hpower
  rw [expNeg, toInt_maxSigned, hpower, BitVec.toInt_zero]
  apply max_eq_left
  exact (Int.natCast_nonneg _).trans (half_le_expCurve (by omega) cs _).1

/-- The scalar weight at a magnitude: the whole part shifts the power of the fraction. -/
def scalarCurve (w : ℕ) (cs : List ℤ) (magnitude : ℕ) : ℤ :=
  if w - 1 ≤ magnitude / 2 ^ (w - 5) then 0
  else expCurve w cs (16 * (magnitude % 2 ^ (w - 5)) : ℕ) / 2 ^ (magnitude / 2 ^ (w - 5))

theorem scalarExpNeg_eq (hw : 6 ≤ w) (hw' : w ≤ 64) (log2E : ℕ) (hlog : log2E < 2 ^ 63)
    {scalarExp : BitVec w → Option (BitVec w)}
    (hexp : ∀ value : BitVec w, value.toInt ≤ 0 → ∃ power, scalarExp value = some power ∧
      power.toInt = expCurve w cs (-value.toInt))
    {diff : BitVec 64} (h : diff.toInt ≤ 0) :
    ∃ weight, scalarExpNeg (w - 5) log2E scalarExp diff = some weight ∧
      weight.toInt = scalarCurve w cs (diff.toInt.natAbs * log2E / 2 ^ (w - 5)) := by
  set scale := 2 ^ (w - 5) with hscale
  have hscalePos : 0 < scale := Nat.two_pow_pos _
  set depth := diff.toInt.natAbs with hdepth
  set magnitude := depth * log2E / scale with hmagnitude
  have hnum : diff.toInt = -(depth : ℤ) := by omega
  have hproductLt : depth * log2E < 2 ^ 126 := by
    calc depth * log2E ≤ 2 ^ 63 * log2E := Nat.mul_le_mul_right _ (natAbs_toInt_le diff)
      _ < 2 ^ 63 * 2 ^ 63 := Nat.mul_lt_mul_of_pos_left hlog (by decide)
      _ = 2 ^ 126 := by decide
  have hmagnitudeLt : magnitude < 2 ^ 126 := lt_of_le_of_lt (Nat.div_le_self _ _) hproductLt
  have hproduct : diff.toInt * log2E = -((depth * log2E : ℕ) : ℤ) := by
    rw [hnum]
    push_cast
    ring
  have hbase : (-((depth * log2E : ℕ) : ℤ)).tdiv (scale : ℕ) = -(magnitude : ℤ) := by
    rw [Int.neg_tdiv, ← Int.ofNat_tdiv]
  have hexact : ∀ value : ℤ, value.natAbs < 2 ^ 126 → exactly 128 value = some value :=
    fun value hvalue => exactly_of_natAbs_lt (hvalue.trans (by decide))
  -- the word of the magnitude and its parts
  have hword : (BitVec.ofInt 128 (magnitude : ℤ)).toNat = magnitude := by
    rw [BitVec.ofInt_natCast, BitVec.toNat_ofNat]
    exact Nat.mod_eq_of_lt (hmagnitudeLt.trans (by decide))
  have hwhole : (BitVec.ofInt 128 (magnitude : ℤ) >>> (w - 5)).toNat = magnitude / scale := by
    rw [toNat_shiftRight, hword]
  have hfraction : (lowBits (w - 5) (BitVec.ofInt 128 (magnitude : ℤ))).toNat =
      magnitude % scale := by
    rw [toNat_lowBits (by omega), hword]
  have hlast : (BitVec.ofNat 128 (w - 1)).toNat = w - 1 := by
    rw [BitVec.toNat_ofNat]
    exact Nat.mod_eq_of_lt (lt_of_lt_of_le (by omega : w - 1 < 64) (by decide))
  rw [scalarExpNeg, hproduct, hexact _ (by rwa [Int.natAbs_neg, Int.natAbs_natCast])]
  show ∃ weight, (exactly 128 (Int.tdiv _ _) >>= fun base2 => exactly 128 (-base2) >>= _) = _ ∧ _
  rw [hbase, hexact _ (by rwa [Int.natAbs_neg, Int.natAbs_natCast])]
  show ∃ weight, (exactly 128 (- -(magnitude : ℤ)) >>= _) = _ ∧ _
  rw [neg_neg, hexact _ (by rwa [Int.natAbs_natCast])]
  show ∃ weight, (if BitVec.ofInt 128 (magnitude : ℤ) >>> (w - 5) ≥ BitVec.ofNat 128 (w - 1)
    then some 0#w else _) = _ ∧ _
  rw [scalarCurve, ← hscale]
  by_cases hdone : w - 1 ≤ magnitude / scale
  · have hge : BitVec.ofInt 128 (magnitude : ℤ) >>> (w - 5) ≥ BitVec.ofNat 128 (w - 1) := by
      rw [ge_iff_le, BitVec.le_def, hlast, hwhole]
      exact hdone
    rw [if_pos hge, if_pos hdone]
    exact ⟨_, rfl, BitVec.toInt_zero⟩
  · have hlt : ¬ BitVec.ofInt 128 (magnitude : ℤ) >>> (w - 5) ≥ BitVec.ofNat 128 (w - 1) := by
      rw [ge_iff_le, BitVec.le_def, hlast, hwhole]
      exact hdone
    have hrest : magnitude % scale < scale := Nat.mod_lt _ hscalePos
    have hsixteen : 16 * scale = 2 ^ (w - 1) := by
      rw [hscale, show w - 1 = 4 + (w - 5) by omega, pow_add]
      norm_num
    have hwide : 2 ^ (w - 1) < 2 ^ w := Nat.pow_lt_pow_right (by decide) (by omega)
    have hargument : ((lowBits (w - 5) (BitVec.ofInt 128 (magnitude : ℤ))).setWidth w <<< 4).toNat =
        16 * (magnitude % scale) := by
      rw [BitVec.toNat_shiftLeft, BitVec.toNat_setWidth, hfraction, Nat.shiftLeft_eq,
        Nat.mod_eq_of_lt (a := magnitude % scale) (by omega), Nat.mod_eq_of_lt (by omega)]
      exact Nat.mul_comm _ _
    have hneg := toInt_neg_magnitude (w := w) (by omega)
      (x := (lowBits (w - 5) (BitVec.ofInt 128 (magnitude : ℤ))).setWidth w <<< 4)
      (by rw [hargument]; omega)
    rw [hargument] at hneg
    obtain ⟨power, hpower, hpowerInt⟩ := hexp _ (hneg ▸ neg_nonpos.mpr (Int.natCast_nonneg _))
    rw [hneg, neg_neg] at hpowerInt
    rw [if_neg hlt, if_neg hdone, hpower]
    refine ⟨_, rfl, ?_⟩
    rw [BitVec.toInt_sshiftRight, hpowerInt, hwhole, Int.shiftRight_eq_div_pow]
    push_cast
    rfl

/-- **Scalar weights fall** as the magnitude grows. -/
theorem scalarCurve_anti (hw : 6 ≤ w)
    (hfall : ∀ {k k' : ℕ}, k < k' → 16 * k' ≤ 2 ^ (w - 1) →
      expCurve w cs (16 * k' : ℕ) < expCurve w cs (16 * k : ℕ))
    {m m' : ℕ} (h : m ≤ m') : scalarCurve w cs m' ≤ scalarCurve w cs m := by
  set scale := 2 ^ (w - 5) with hscale
  have hpower := half_le_expCurve (w := w) (by omega) cs
  have hnonneg : ∀ u, 0 ≤ expCurve w cs u :=
    fun u => (Int.natCast_nonneg _).trans (hpower u).1
  have hwhole : m / scale ≤ m' / scale := Nat.div_le_div_right h
  rw [scalarCurve, scalarCurve, ← hscale]
  by_cases hdone' : w - 1 ≤ m' / scale
  · rw [if_pos hdone']
    split_ifs
    · exact le_rfl
    · exact Int.ediv_nonneg (hnonneg _) (by positivity)
  rw [if_neg hdone', if_neg (by omega)]
  rcases Nat.lt_or_eq_of_le hwhole with hless | hsame
  · -- a whole step halves, and the powers of all fractions are within a factor of two
    obtain ⟨more, hmore⟩ := Nat.exists_eq_add_of_lt hless
    have hbelow : expCurve w cs (16 * (m' % scale) : ℕ) ≤
        2 * expCurve w cs (16 * (m % scale) : ℕ) := by
      have hhigh := (hpower (16 * (m' % scale) : ℕ)).2
      have hlow := (hpower (16 * (m % scale) : ℕ)).1
      have htwice : (2 : ℤ) * (2 ^ (w - 2) : ℕ) = highest w + 1 := by
        rw [highest, sub_add_cancel]
        push_cast
        rw [← pow_succ']
        congr 1
        omega
      linarith
    rw [hmore, show m / scale + more + 1 = more + 1 + m / scale by omega, pow_add, pow_succ]
    calc expCurve w cs (16 * (m' % scale) : ℕ) / (2 ^ more * 2 * 2 ^ (m / scale))
        = expCurve w cs (16 * (m' % scale) : ℕ) / (2 * 2 ^ (m / scale)) / 2 ^ more := by
          rw [Int.ediv_ediv_of_nonneg (by positivity)]
          congr 1
          ring
      _ ≤ expCurve w cs (16 * (m' % scale) : ℕ) / (2 * 2 ^ (m / scale)) :=
          Int.ediv_le_self _ (Int.ediv_nonneg (hnonneg _) (by positivity))
      _ ≤ 2 * expCurve w cs (16 * (m % scale) : ℕ) / (2 * 2 ^ (m / scale)) :=
          Int.ediv_le_ediv (by positivity) hbelow
      _ = expCurve w cs (16 * (m % scale) : ℕ) / 2 ^ (m / scale) :=
          Int.mul_ediv_mul_of_pos _ _ (by norm_num)
  · rw [← hsame]
    apply Int.ediv_le_ediv (by positivity)
    have hdiv := Nat.div_add_mod m scale
    have hdiv' := Nat.div_add_mod m' scale
    rw [← hsame] at hdiv'
    have hrest : m % scale ≤ m' % scale := by omega
    rcases Nat.lt_or_eq_of_le hrest with hlt | heq
    · apply le_of_lt
      apply hfall hlt
      have hsixteen : 16 * scale = 2 ^ (w - 1) := by
        rw [hscale, show w - 1 = 4 + (w - 5) by omega, pow_add]
        norm_num
      have hmod : m' % scale < scale := Nat.mod_lt _ (Nat.two_pow_pos _)
      omega
    · rw [heq]

end Weight

end Lane

/-! ### The two widths -/

namespace Math64

theorem scalarMulFixed_eq_mulFixed (lhs rhs : BitVec 64) :
    scalarMulFixed lhs rhs = some (mulFixed lhs rhs) := by
  rw [scalarMulFixed, Lane.scalarMulFixed_eq (by decide) rfl, Option.some.injEq,
    ← BitVec.toInt_inj, toInt_scalarClamp (by decide), toInt_mulFixed]

theorem scalarAddSat_eq_addSat (lhs rhs : BitVec 64) : scalarAddSat lhs rhs = addSat lhs rhs := by
  rw [scalarAddSat, ← BitVec.toInt_inj, toInt_scalarClamp (by decide), toInt_addSat]

/-- The coefficients of the power, with the one of the constant. -/
def expCs : List ℤ := expCoefs [expC1, expC2, expC3, expC4, expC5] expC6

theorem toInt_exp2 {value : BitVec 64} (h : value.toInt ≤ 0) :
    (exp2 value).toInt = expCurve 64 expCs (-value.toInt) :=
  Lane.toInt_exp2 (by decide) toInt_mulFixed toInt_addSat (by decide) h

theorem scalarExp2_of_nonpos {value : BitVec 64} (h : value.toInt ≤ 0) :
    ∃ power, scalarExp2 value = some power ∧ power.toInt = expCurve 64 expCs (-value.toInt) :=
  ⟨exp2 value, Lane.scalarExp2_eq (by decide) scalarMulFixed_eq_mulFixed scalarAddSat_eq_addSat
    _ _ value, toInt_exp2 h⟩

theorem expCurve_lt {k k' : ℕ} (h : k < k') (htop : 16 * k' ≤ 2 ^ (64 - 1)) :
    expCurve 64 expCs (16 * k' : ℕ) < expCurve 64 expCs (16 * k : ℕ) :=
  Lane.expCurve_lt (by decide) (by decide) (by decide) (by decide) h htop

end Math64

namespace Math32

theorem scalarMulFixed_eq_mulFixed (lhs rhs : BitVec 32) :
    scalarMulFixed lhs rhs = some (mulFixed lhs rhs) := by
  rw [scalarMulFixed, Lane.scalarMulFixed_eq (by decide) rfl, Option.some.injEq,
    ← BitVec.toInt_inj, toInt_scalarClamp (by decide), toInt_mulFixed]

theorem scalarAddSat_eq_addSat (lhs rhs : BitVec 32) : scalarAddSat lhs rhs = addSat lhs rhs := by
  rw [scalarAddSat, ← BitVec.toInt_inj, toInt_scalarClamp (by decide), toInt_addSat]

/-- The coefficients of the power, with the one of the constant. -/
def expCs : List ℤ := expCoefs [expC1, expC2, expC3, expC4, expC5] expC6

theorem toInt_exp2 {value : BitVec 32} (h : value.toInt ≤ 0) :
    (exp2 value).toInt = expCurve 32 expCs (-value.toInt) :=
  Lane.toInt_exp2 (by decide) toInt_mulFixed toInt_addSat (by decide) h

theorem scalarExp2_of_nonpos {value : BitVec 32} (h : value.toInt ≤ 0) :
    ∃ power, scalarExp2 value = some power ∧ power.toInt = expCurve 32 expCs (-value.toInt) :=
  ⟨exp2 value, Lane.scalarExp2_eq (by decide) scalarMulFixed_eq_mulFixed scalarAddSat_eq_addSat
    _ _ value, toInt_exp2 h⟩

theorem expCurve_lt {k k' : ℕ} (h : k < k') (htop : 16 * k' ≤ 2 ^ (32 - 1)) :
    expCurve 32 expCs (16 * k' : ℕ) < expCurve 32 expCs (16 * k : ℕ) :=
  Lane.expCurve_lt (by decide) (by decide) (by decide) (by decide) h htop

end Math32

end RunD
