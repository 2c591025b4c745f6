/-
Arctangents of `math64` and `math32`, in turns.

A ratio that is not above `FixedTanTurnEighth` goes through a polynomial in its
square, by Horner's rule in `math64` and in pairs of coefficients in `math32`; a
larger one is replaced by the ratio of the difference to the sum.  The first
quadrant is folded on its diagonal, and the signs choose the quadrant.

The polynomial of `math64` never falls from a ratio to the next one.  The one of
`math32` falls by one unit at some ratios, and it is above one eighth of a turn
by 97 units at the end of its range.
-/
import RunD.MathDiv
import RunD.MathExp
import Mathlib.Data.Fin.VecNotation
import Mathlib.Data.List.Infix

namespace RunD

open RunD.Word
open RunD.Fixed (lowest highest)
open RunD.Lane

/-! ### The operations -/

namespace Lane

variable {w W : ℕ}

/-- `Le` of unsigned lanes. -/
def leUnsigned (lhs rhs : BitVec w) : BitVec w := maskLane w (decide (lhs ≤ rhs))

/-- `Ne`. -/
def neLane (lhs rhs : BitVec w) : BitVec w := maskLane w (lhs != rhs)

def turnEighth (w : ℕ) : BitVec w := BitVec.twoPow w (w - 3)
def turnQuarter (w : ℕ) : BitVec w := turnEighth w * 2#w
def turnHalf (w : ℕ) : BitVec w := turnQuarter w * 2#w
def turnThreeQuarter (w : ℕ) : BitVec w := turnQuarter w * 3#w

/-- `TurnRatioLe`, with products of `W` bits. -/
def turnRatioLe (W : ℕ) (numerator denominator ratio : BitVec w) : BitVec w :=
  let left := numerator.setWidth W * BitVec.twoPow W (w - 1)
  let ratioPos := maxSigned ratio 0#w
  let right := denominator.setWidth W * ratioPos.setWidth W
  let le := ~~~gtUnsigned left right
  let nonZero := neLane denominator 0#w
  le.setWidth w &&& nonZero

/-- What the arctangent of a width is made of: its division and the clamp of a quotient, its
sum, `TurnAtanUnit` and `FixedTanTurnEighth`. -/
structure TurnMath (w W : ℕ) where
  div : BitVec W → BitVec W → BitVec W
  clampQuotient : BitVec W → BitVec w
  addSat : BitVec w → BitVec w → BitVec w
  turnAtanUnit : BitVec w → BitVec w
  fixedTanTurnEighth : BitVec w

namespace TurnMath

variable (math : TurnMath w W)

/-- `TurnRatio`. -/
def turnRatio (numerator denominator : BitVec w) : BitVec w :=
  let quotient := math.div (numerator.setWidth W <<< (w - 1)) (denominator.setWidth W)
  let clamped := math.clampQuotient quotient
  select (eqLane denominator 0#w) (fixedMax w) clamped

/-- `TurnAtanRatio`. -/
def turnAtanRatio (small large : BitVec w) : BitVec w :=
  let zero := eqLane small 0#w ||| eqLane large 0#w
  let direct := math.turnAtanUnit (math.turnRatio small large)
  let deltaRatio := math.turnRatio (large - small) (large + small)
  let delta := math.addSat (turnEighth w) (math.turnAtanUnit deltaRatio)
  let selected := select (turnRatioLe W small large math.fixedTanTurnEighth) direct delta
  select zero 0#w selected

/-- `TurnAtanFirstQuadrant`. -/
def turnAtanFirstQuadrant (yAbs xAbs : BitVec w) : BitVec w :=
  let ySmall := leUnsigned yAbs xAbs
  let small := select ySmall yAbs xAbs
  let large := select ySmall xAbs yAbs
  let offset := math.turnAtanRatio small large
  select ySmall offset (turnQuarter w - offset)

/-- `TurnAtan2`. -/
def turnAtan2 (y x : BitVec w) : BitVec w :=
  let offset := math.turnAtanFirstQuadrant (absMagnitude y) (absMagnitude x)
  let out := 0#w - offset
  let out := select (ltSigned x 0#w &&& ltSigned y 0#w) (turnHalf w + offset) out
  let out := select (ltSigned x 0#w &&& gtSigned y 0#w) (turnHalf w - offset) out
  let out := select (gtSigned x 0#w &&& gtSigned y 0#w) offset out
  let out := select (eqLane y 0#w) (select (ltSigned x 0#w) (turnHalf w) 0#w) out
  let out := select (eqLane x 0#w)
    (select (gtSigned y 0#w) (turnQuarter w) (turnThreeQuarter w)) out
  select (eqLane x 0#w &&& eqLane y 0#w) 0#w out

end TurnMath

end Lane

namespace Math64

/-- `Min128`. -/
def min128 (lhs rhs : BitVec 128) : BitVec 128 := select (geUnsigned lhs rhs) rhs lhs

def turnPoly34 (square : BitVec 64) (coef : List (BitVec 64)) : BitVec 64 :=
  coef.dropLast.foldr (fun c acc => addSat c (mulFixed acc square)) (coef.getLastD 0#64)

def turnAtanCoef : List ℤ :=
  [5871781006564002453, -1957260335521334151, 1174356201312800491, -838825858080571779,
    652198999618202495, -533617363323074769, 452824436958413143, -394496579128756286,
    350647473307240004, -316515689739991685, 289209547339572240, -266858947263819561,
    248232902007179000, -232470776493791630, 218957316822955031, -207235879599383970,
    196960299628173996, -187859857553472279, 179715337427923154, -172348745367059941,
    165614882040304075, -159394385790707626, 153587061071923460, -148108068476486673,
    142885319777717586, -137856484981496950, 132966787396198722, -128166793148811725,
    123411411103992741, -118658846830491165, 113869507045437470, -108996862509033752,
    103976208625405148, -98700230513647061]

def turnAtanUnit (ratio : BitVec 64) : BitVec 64 :=
  mulFixed ratio (turnPoly34 (mulFixed ratio ratio) (turnAtanCoef.map (BitVec.ofInt 64)))

def fixedTanTurnEighth : BitVec 64 := 3820445788478006404

def turnMath : TurnMath 64 128 where
  div := unsignedDiv128
  clampQuotient := fun quotient => (min128 quotient (BitVec.ofNat 128 (2 ^ 63 - 1))).setWidth 64
  addSat := addSat
  turnAtanUnit := turnAtanUnit
  fixedTanTurnEighth := fixedTanTurnEighth

def turnAtan2 (y x : BitVec 64) : BitVec 64 := turnMath.turnAtan2 y x

end Math64

namespace Math32

def turnPair (even odd square : BitVec 32) : BitVec 32 := addSat even (mulFixed odd square)

def turnPoly12 (square : BitVec 32) (coef : Fin 12 → BitVec 32) : BitVec 32 :=
  let s2 := mulFixed square square
  let s4 := mulFixed s2 s2
  let s8 := mulFixed s4 s4
  let p0 := turnPair (coef 0) (coef 1) square
  let p1 := turnPair (coef 2) (coef 3) square
  let p2 := turnPair (coef 4) (coef 5) square
  let p3 := turnPair (coef 6) (coef 7) square
  let p4 := turnPair (coef 8) (coef 9) square
  let p5 := turnPair (coef 10) (coef 11) square
  addSat (addSat (addSat p0 (mulFixed p1 s2)) (mulFixed (addSat p2 (mulFixed p3 s2)) s4))
    (mulFixed (addSat p4 (mulFixed p5 s2)) s8)

def turnAtanCoef : Fin 12 → ℤ :=
  ![1367130551, -455708559, 273424749, -195303391, 151887082, -124270335, 105459068, -91860930,
    81654160, -73704920, 67352940, -62155800]

def turnAtanUnit (ratio : BitVec 32) : BitVec 32 :=
  let square := mulFixed ratio ratio
  mulFixed ratio (turnPoly12 square fun i => BitVec.ofInt 32 (turnAtanCoef i))

def fixedTanTurnEighth : BitVec 32 := 889516852

def turnMath : TurnMath 32 64 where
  div := unsignedDiv64
  clampQuotient := clampU64x4ToI32x
  addSat := addSat
  turnAtanUnit := turnAtanUnit
  fixedTanTurnEighth := fixedTanTurnEighth

def turnAtan2 (y x : BitVec 32) : BitVec 32 := turnMath.turnAtan2 y x

/-! ### The integers behind the steps -/

/-- A product over the scale. -/
def mulScaled (x y : ℤ) : ℤ := (x * y).tdiv (2 ^ 31 : ℕ)

/-- The pair of the coefficients `i` and `j` at a square. -/
def pairAt (i j : Fin 12) (s : ℤ) : ℤ := turnAtanCoef i + mulScaled (turnAtanCoef j) s

def square2 (s : ℤ) : ℤ := mulScaled s s
def square4 (s : ℤ) : ℤ := mulScaled (square2 s) (square2 s)
def square8 (s : ℤ) : ℤ := mulScaled (square4 s) (square4 s)

/-- Four coefficients from `i` on, at a square. -/
def quadAt (i j k l : Fin 12) (s : ℤ) : ℤ := pairAt i j s + mulScaled (pairAt k l s) (square2 s)

def turnHead (s : ℤ) : ℤ := quadAt 0 1 2 3 s + mulScaled (quadAt 4 5 6 7 s) (square4 s)
def turnTail (s : ℤ) : ℤ := mulScaled (quadAt 8 9 10 11 s) (square8 s)

/-- The last four coefficients at `s`, with the square of `t`. -/
def tailAt (s t : ℤ) : ℤ := pairAt 8 9 s + mulScaled (pairAt 10 11 s) (square2 t)

def turnAtanPoly (s : ℤ) : ℤ := turnHead s + turnTail s

/-- The arctangent of a ratio, as a number. -/
def turnAtanCurve (r : ℤ) : ℤ := mulScaled r (turnAtanPoly (mulScaled r r))

end Math32

/-! ### Ratios and quadrants -/

namespace Lane

variable {w W : ℕ}

theorem beq_zero_of_pos {x : BitVec w} (h : 0 < x.toInt) : (x == 0#w) = false := by
  apply beq_eq_false_iff_ne.mpr
  rintro rfl
  simp at h

theorem absMagnitude_of_pos {x : BitVec w} (h : 0 < x.toInt) : absMagnitude x = x := by
  rw [absMagnitude, ltSigned, select_maskLane, BitVec.toInt_zero, decide_eq_false (not_lt.mpr h.le),
    if_neg Bool.false_ne_true]

theorem toNat_turnEighth (hw : 3 ≤ w) : (turnEighth w).toNat = 2 ^ (w - 3) := by
  rw [turnEighth, BitVec.toNat_twoPow]
  exact Nat.mod_eq_of_lt (Nat.pow_lt_pow_right (by decide) (by omega))

theorem two_eighths (hw : 3 ≤ w) : 2 ^ (w - 3) + 2 ^ (w - 3) = 2 ^ (w - 2) := by
  rw [← two_mul, ← pow_succ']
  congr 1
  omega

theorem toNat_turnQuarter (hw : 3 ≤ w) : (turnQuarter w).toNat = 2 ^ (w - 2) := by
  have htwo : (2#w).toNat = 2 := by
    rw [BitVec.toNat_ofNat]
    exact Nat.mod_eq_of_lt (lt_of_lt_of_le (by decide) (Nat.pow_le_pow_right two_pos hw))
  have hpow : 2 ^ (w - 3) * 2 = 2 ^ (w - 2) := by
    rw [mul_two]
    exact two_eighths hw
  rw [turnQuarter, toNat_mul_of_lt] <;> rw [toNat_turnEighth hw, htwo, hpow]
  exact Nat.pow_lt_pow_right (by decide) (by omega)

/-- The comparison of a ratio is the one of the exact products. -/
theorem turnRatioLe_eq (hw : 0 < w) (hW : W = 2 * w) (numerator denominator ratio : BitVec w) :
    turnRatioLe W numerator denominator ratio =
      maskLane w (decide (numerator.toNat * 2 ^ (w - 1) ≤ denominator.toNat * ratio.toInt.toNat) &&
        denominator != 0#w) := by
  have hwide : ∀ x : BitVec w, (x.setWidth W).toNat = x.toNat :=
    fun _ => BitVec.toNat_setWidth_of_le (by omega)
  have hproduct : ∀ a b : ℕ, a < 2 ^ w → b ≤ 2 ^ (w - 1) → a * b < 2 ^ W := by
    intro a b ha hb
    have hless : 2 ^ (w - 1) < 2 ^ w := Nat.pow_lt_pow_right (by decide) (by omega)
    calc a * b < 2 ^ w * 2 ^ w := Nat.mul_lt_mul_of_lt_of_lt ha (lt_of_le_of_lt hb hless)
      _ = 2 ^ W := by rw [hW, two_mul, pow_add]
  have hscale : (BitVec.twoPow W (w - 1)).toNat = 2 ^ (w - 1) := by
    rw [BitVec.toNat_twoPow]
    exact Nat.mod_eq_of_lt (Nat.pow_lt_pow_right (by decide) (by omega))
  have hpos : (maxSigned ratio 0#w).toNat = ratio.toInt.toNat := by
    have hmax := toInt_maxSigned ratio 0#w
    rw [BitVec.toInt_zero] at hmax
    rw [toNat_eq_natAbs hw (hmax ▸ le_max_right _ _), hmax]
    omega
  have hposLe : ratio.toInt.toNat ≤ 2 ^ (w - 1) := by
    have habs := natAbs_toInt_le ratio
    omega
  have hle : decide (numerator.setWidth W * BitVec.twoPow W (w - 1) >
      denominator.setWidth W * (maxSigned ratio 0#w).setWidth W) =
        !decide (numerator.toNat * 2 ^ (w - 1) ≤ denominator.toNat * ratio.toInt.toNat) := by
    rw [← decide_not, decide_eq_decide, gt_iff_lt, BitVec.lt_def, toNat_mul_of_lt, toNat_mul_of_lt,
      hwide, hwide, hwide, hpos, hscale, not_le]
    · rw [hwide, hscale]
      exact hproduct _ _ numerator.isLt le_rfl
    · rw [hwide, hwide, hpos]
      exact hproduct _ _ denominator.isLt hposLe
  rw [turnRatioLe]
  simp only [gtUnsigned, hle, not_maskLane, Bool.not_not, neLane]
  rw [setWidth_maskLane (by omega), maskLane_and]

namespace TurnMath

/-- What the arctangent needs of its parts: the curve of `TurnAtanUnit` up to the bound of a
ratio falls by `back` at most and stays below one eighth of a turn and `excess`. -/
structure Laws (math : TurnMath w W) (curve : ℤ → ℤ) (excess back : ℕ) : Prop where
  width : 3 ≤ w
  double : W = 2 * w
  div : ∀ numerator denominator : BitVec W, numerator.toNat < 2 ^ (W - 1) →
    0 < denominator.toNat →
      (math.div numerator denominator).toNat = numerator.toNat / denominator.toNat
  clampQuotient : ∀ quotient, (math.clampQuotient quotient).toNat =
    min quotient.toNat (2 ^ (w - 1) - 1)
  addSat : ∀ x y, (math.addSat x y).toInt = clampTo w (x.toInt + y.toInt)
  bound : 0 ≤ math.fixedTanTurnEighth.toInt
  unit : ∀ ratio, 0 ≤ ratio.toInt → ratio.toInt ≤ math.fixedTanTurnEighth.toInt →
    (math.turnAtanUnit ratio).toInt = curve ratio.toInt
  zero : curve 0 = 0
  nonneg : ∀ r, 0 ≤ r → r ≤ math.fixedTanTurnEighth.toInt → 0 ≤ curve r
  below : ∀ r, 0 ≤ r → r ≤ math.fixedTanTurnEighth.toInt → curve r ≤ (2 ^ (w - 3) + excess : ℕ)
  small : excess ≤ 2 ^ (w - 3)
  rises : ∀ r r', 0 ≤ r → r ≤ r' → r' ≤ math.fixedTanTurnEighth.toInt → curve r ≤ curve r' + back

variable {math : TurnMath w W} {curve : ℤ → ℤ} {excess back : ℕ}

theorem Laws.pos (laws : math.Laws curve excess back) : 0 < w :=
  Nat.lt_of_lt_of_le (by decide) laws.width

theorem Laws.le (laws : math.Laws curve excess back) : w ≤ W := by
  rw [laws.double]
  exact Nat.le_mul_of_pos_left w two_pos

/-- A pair of raw values whose ratio is not above the bound of the polynomial. -/
def Direct (math : TurnMath w W) (small large : BitVec w) : Prop :=
  0 < small.toInt ∧ 0 < large.toInt ∧
    small.toInt * 2 ^ (w - 1) ≤ large.toInt * math.fixedTanTurnEighth.toInt

/-- Below the diagonal the arctangent of a direct pair is one eighth of a turn at most, above it
between one eighth and one quarter, and it grows with the ratio; `excess` is what an eighth is
exceeded by, `back` what a greater ratio may lose.  The diagonal itself is one eighth. -/
def Ordered (math : TurnMath w W) (excess back : ℕ) : Prop :=
  (∀ y x, math.Direct y x →
    (math.turnAtan2 y x).toNat ≤ (turnEighth w).toNat + excess ∧
      (turnEighth w).toNat ≤ (math.turnAtan2 x y).toNat + excess ∧
      (math.turnAtan2 x y).toNat ≤ (turnQuarter w).toNat) ∧
  (∀ y x y' x', math.Direct y x → math.Direct y' x' → y.toInt * x'.toInt ≤ y'.toInt * x.toInt →
    (math.turnAtan2 y x).toNat ≤ (math.turnAtan2 y' x').toNat + back) ∧
  ∀ x : BitVec w, 0 < x.toInt → math.turnAtan2 x x = turnEighth w

theorem Direct.lt {small large : BitVec w} (h : math.Direct small large) :
    small.toInt < large.toInt := by
  obtain ⟨-, hlarge, hle⟩ := h
  have hhigh := toInt_le_highest math.fixedTanTurnEighth
  have hpow : (0 : ℤ) < 2 ^ (w - 1) := by positivity
  rw [highest] at hhigh
  apply lt_of_mul_lt_mul_right _ hpow.le
  calc small.toInt * 2 ^ (w - 1) ≤ large.toInt * math.fixedTanTurnEighth.toInt := hle
    _ < large.toInt * 2 ^ (w - 1) := mul_lt_mul_of_pos_left (by linarith) hlarge

section Ratio

variable (laws : math.Laws curve excess back)
include laws

/-- Within the bound a ratio is the rounded quotient of the raw values. -/
theorem toInt_turnRatio {numerator denominator : BitVec w} (hnumerator : 0 ≤ numerator.toInt)
    (hpos : 0 < denominator.toInt)
    (h : numerator.toInt * 2 ^ (w - 1) ≤ denominator.toInt * math.fixedTanTurnEighth.toInt) :
    (math.turnRatio numerator denominator).toInt =
        numerator.toInt * 2 ^ (w - 1) / denominator.toInt ∧
      numerator.toInt * 2 ^ (w - 1) / denominator.toInt ≤ math.fixedTanTurnEighth.toInt := by
  have hw := laws.pos
  have hle : numerator.toInt * 2 ^ (w - 1) / denominator.toInt ≤
      math.fixedTanTurnEighth.toInt := Int.ediv_le_of_le_mul hpos (by linarith)
  have hnonneg : 0 ≤ numerator.toInt * 2 ^ (w - 1) / denominator.toInt :=
    Int.ediv_nonneg (mul_nonneg hnumerator (by positivity)) hpos.le
  have hhigh := toInt_le_highest math.fixedTanTurnEighth
  rw [highest] at hhigh
  refine ⟨?_, hle⟩
  have hden : (denominator.setWidth W).toNat = denominator.toNat :=
    BitVec.toNat_setWidth_of_le laws.le
  have hdenInt := natCast_toNat hw hpos.le
  obtain ⟨hshift, hbelow⟩ := toNat_numerator hw laws.double hnumerator
  have hquotient : ((math.div (numerator.setWidth W <<< (w - 1)) (denominator.setWidth W)).toNat :
      ℤ) = numerator.toInt * 2 ^ (w - 1) / denominator.toInt := by
    rw [laws.div _ _ (hshift ▸ hbelow) (by rw [hden]; omega), hshift, hden, Int.natCast_ediv,
      Int.natCast_mul, Int.toNat_of_nonneg hnumerator, hdenInt]
    push_cast
    rfl
  have hpow : ((2 ^ (w - 1) : ℕ) : ℤ) = 2 ^ (w - 1) := by push_cast; rfl
  have hclamp : (math.clampQuotient (math.div (numerator.setWidth W <<< (w - 1))
      (denominator.setWidth W))).toNat =
        (math.div (numerator.setWidth W <<< (w - 1)) (denominator.setWidth W)).toNat := by
    rw [laws.clampQuotient, min_eq_left]
    omega
  rw [turnRatio, eqLane, beq_zero_of_pos hpos, select_maskLane, if_neg Bool.false_ne_true,
    toInt_of_toNat_lt hw, hclamp, hquotient]
  rw [hclamp]
  omega

/-- Within the bound the arctangent of a ratio is the polynomial. -/
theorem toInt_turnAtanRatio {small large : BitVec w} (h : math.Direct small large) :
    (math.turnAtanRatio small large).toInt =
      curve (small.toInt * 2 ^ (w - 1) / large.toInt) := by
  obtain ⟨hsmall, hlarge, hle⟩ := h
  have hw := laws.pos
  obtain ⟨hratio, hbound⟩ := toInt_turnRatio laws hsmall.le hlarge hle
  have htest : small.toNat * 2 ^ (w - 1) ≤ large.toNat * math.fixedTanTurnEighth.toInt.toNat := by
    zify
    rw [natCast_toNat hw hsmall.le, natCast_toNat hw hlarge.le, Int.toNat_of_nonneg laws.bound]
    exact hle
  have hnonneg : 0 ≤ small.toInt * 2 ^ (w - 1) / large.toInt :=
    Int.ediv_nonneg (mul_nonneg hsmall.le (by positivity)) hlarge.le
  rw [turnAtanRatio, eqLane, eqLane, beq_zero_of_pos hsmall, beq_zero_of_pos hlarge,
    turnRatioLe_eq hw laws.double, decide_eq_true htest, bne, beq_zero_of_pos hlarge]
  simp only [Bool.not_false, Bool.and_self, select_maskLane, if_true]
  rw [show maskLane w false ||| maskLane w false = maskLane w false from BitVec.or_self,
    select_maskLane, if_neg Bool.false_ne_true, laws.unit _ (hratio ▸ hnonneg) (hratio ▸ hbound),
    hratio]

theorem turnRatio_zero {denominator : BitVec w} (h : denominator ≠ 0#w) :
    math.turnRatio 0#w denominator = 0#w := by
  have hden : (denominator.setWidth W).toNat = denominator.toNat :=
    BitVec.toNat_setWidth_of_le laws.le
  have hpos : 0 < denominator.toNat :=
    Nat.pos_of_ne_zero fun hzero => h (BitVec.eq_of_toNat_eq hzero)
  have hquotient := laws.div ((0#w).setWidth W <<< (w - 1)) (denominator.setWidth W)
    (by simp) (hden ▸ hpos)
  rw [turnRatio, eqLane, beq_eq_false_iff_ne.mpr h, select_maskLane, if_neg Bool.false_ne_true]
  apply BitVec.eq_of_toNat_eq
  rw [laws.clampQuotient, hquotient]
  simp

/-- On the diagonal the difference is zero. -/
theorem turnAtanRatio_self {x : BitVec w} (h : 0 < x.toInt) :
    math.turnAtanRatio x x = turnEighth w := by
  have hw := laws.pos
  have hhigh := toInt_le_highest math.fixedTanTurnEighth
  have hpow : (0 : ℤ) < 2 ^ (w - 1) := by positivity
  rw [highest] at hhigh
  have htest : ¬ x.toNat * 2 ^ (w - 1) ≤ x.toNat * math.fixedTanTurnEighth.toInt.toNat := by
    rw [not_le]
    apply Nat.mul_lt_mul_of_pos_left
    · zify
      rw [Int.toNat_of_nonneg laws.bound]
      linarith
    · zify
      rw [natCast_toNat hw h.le]
      exact h
  have hsum : x + x ≠ 0#w := by
    intro hzero
    have hnat := natCast_toNat hw h.le
    have hle := toInt_le_highest x
    have hdouble := two_mul_pow_pred hw
    have hsumNat := congrArg BitVec.toNat hzero
    rw [highest] at hle
    rw [Word.toNat_add_of_lt (by zify at hdouble ⊢; linarith)] at hsumNat
    simp only [BitVec.toNat_ofNat, Nat.zero_mod] at hsumNat
    omega
  have hunit : math.turnAtanUnit 0#w = 0#w := by
    apply BitVec.eq_of_toInt_eq
    rw [laws.unit] <;> rw [BitVec.toInt_zero]
    · exact laws.zero
    · exact laws.bound
  have hdelta : math.addSat (turnEighth w) 0#w = turnEighth w := by
    apply BitVec.eq_of_toInt_eq
    rw [laws.addSat, BitVec.toInt_zero, add_zero]
    exact clampTo_of_mem (toInt_lowest_le _) (toInt_le_highest _)
  rw [turnAtanRatio, eqLane, beq_zero_of_pos h, turnRatioLe_eq hw laws.double,
    decide_eq_false htest, Bool.false_and]
  simp only [select_maskLane, BitVec.or_self, Bool.false_eq_true, if_false, BitVec.sub_self]
  rw [turnRatio_zero laws hsum, hunit, hdelta]

/-- In the first quadrant the smaller raw value is over the larger one. -/
theorem turnAtan2_of_pos {y x : BitVec w} (hy : 0 < y.toInt) (hx : 0 < x.toInt) :
    math.turnAtan2 y x = if y.toInt ≤ x.toInt then math.turnAtanRatio y x
      else turnQuarter w - math.turnAtanRatio x y := by
  have hw := laws.pos
  have hle : y ≤ x ↔ y.toInt ≤ x.toInt := by
    rw [BitVec.le_def, ← natCast_toNat hw hy.le, ← natCast_toNat hw hx.le]
    exact Int.ofNat_le.symm
  rw [turnAtan2, absMagnitude_of_pos hy, absMagnitude_of_pos hx]
  simp only [eqLane, beq_zero_of_pos hx, beq_zero_of_pos hy, ltSigned, gtSigned, BitVec.toInt_zero,
    decide_eq_false (not_lt.mpr hx.le), decide_eq_true hx, decide_eq_true hy, maskLane_and,
    Bool.and_self, select_maskLane, Bool.false_eq_true, if_false, if_true, gt_iff_lt]
  simp only [turnAtanFirstQuadrant, leUnsigned, select_maskLane, decide_eq_true_eq, hle]
  split_ifs <;> rfl

/-- The ratio of a direct pair, in the range of the curve. -/
theorem Direct.ratio_mem {small large : BitVec w} (h : math.Direct small large) :
    0 ≤ small.toInt * 2 ^ (w - 1) / large.toInt ∧
      small.toInt * 2 ^ (w - 1) / large.toInt ≤ math.fixedTanTurnEighth.toInt :=
  ⟨Int.ediv_nonneg (mul_nonneg h.1.le (by positivity)) h.2.1.le,
    (toInt_turnRatio laws h.1.le h.2.1 h.2.2).2⟩

/-- A direct pair of raw values, below the diagonal and above it. -/
theorem toNat_turnAtan2 {y x : BitVec w} (h : math.Direct y x) :
    ((math.turnAtan2 y x).toNat : ℤ) = curve (y.toInt * 2 ^ (w - 1) / x.toInt) ∧
      ((math.turnAtan2 x y).toNat : ℤ) =
        2 ^ (w - 2) - curve (y.toInt * 2 ^ (w - 1) / x.toInt) := by
  have hw := laws.pos
  obtain ⟨hlow, hhigh⟩ := h.ratio_mem laws
  have hlt := h.lt
  have hcurve := toInt_turnAtanRatio laws h
  have hnonneg := laws.nonneg _ hlow hhigh
  have hbelow := laws.below _ hlow hhigh
  have hsmall := laws.small
  have hoffset : ((math.turnAtanRatio y x).toNat : ℤ) =
      curve (y.toInt * 2 ^ (w - 1) / x.toInt) := by
    rw [natCast_toNat hw (hcurve ▸ hnonneg), hcurve]
  have hquarter := toNat_turnQuarter laws.width
  have hpow := two_eighths laws.width
  have hle : (math.turnAtanRatio y x).toNat ≤ (turnQuarter w).toNat := by
    rw [hquarter]
    omega
  rw [turnAtan2_of_pos laws h.1 h.2.1, turnAtan2_of_pos laws h.2.1 h.1, if_pos hlt.le,
    if_neg (not_le.mpr hlt)]
  refine ⟨hoffset, ?_⟩
  rw [toNat_sub_of_le hle, Nat.cast_sub hle, hoffset, hquarter]
  push_cast
  rfl

/-- **Arctangents of direct pairs are ordered**, as far as the curve of the width is. -/
theorem ordered_of_laws : math.Ordered excess back := by
  have heighth := toNat_turnEighth laws.width
  have hquarter := toNat_turnQuarter laws.width
  refine ⟨?_, ?_, ?_⟩
  · intro y x h
    obtain ⟨hlow, hhigh⟩ := h.ratio_mem laws
    obtain ⟨hbelow, habove⟩ := toNat_turnAtan2 laws h
    have hnonneg := laws.nonneg _ hlow hhigh
    have hle := laws.below _ hlow hhigh
    have hpow := two_eighths laws.width
    have hcast : ((2 ^ (w - 2) : ℕ) : ℤ) = 2 ^ (w - 2) := by push_cast; rfl
    rw [heighth, hquarter]
    omega
  · intro y x y' x' h h' hratio
    have hmono : y.toInt * 2 ^ (w - 1) / x.toInt ≤ y'.toInt * 2 ^ (w - 1) / x'.toInt := by
      apply (Int.le_ediv_iff_mul_le h'.2.1).mpr
      have hdiv := Int.ediv_mul_le (y.toInt * 2 ^ (w - 1)) h.2.1.ne'
      have hpow : (0 : ℤ) ≤ 2 ^ (w - 1) := by positivity
      apply le_of_mul_le_mul_right _ h.2.1
      calc y.toInt * 2 ^ (w - 1) / x.toInt * x'.toInt * x.toInt
          = y.toInt * 2 ^ (w - 1) / x.toInt * x.toInt * x'.toInt := by ring
        _ ≤ y.toInt * 2 ^ (w - 1) * x'.toInt := mul_le_mul_of_nonneg_right hdiv h'.2.1.le
        _ = y.toInt * x'.toInt * 2 ^ (w - 1) := by ring
        _ ≤ y'.toInt * x.toInt * 2 ^ (w - 1) := mul_le_mul_of_nonneg_right hratio hpow
        _ = y'.toInt * 2 ^ (w - 1) * x.toInt := by ring
    have hrises := laws.rises _ _ (h.ratio_mem laws).1 hmono (h'.ratio_mem laws).2
    rw [← (toNat_turnAtan2 laws h).1, ← (toNat_turnAtan2 laws h').1] at hrises
    exact_mod_cast hrises
  · intro x h
    rw [turnAtan2_of_pos laws h h, if_pos le_rfl, turnAtanRatio_self laws h]

end Ratio

end TurnMath

end Lane

end RunD
