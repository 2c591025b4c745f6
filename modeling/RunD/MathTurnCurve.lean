/-
The arctangent polynomials of `math64` and `math32`.

Horner's rule of `math64` loses one unit at most from a square to the next one,
and a ratio grows by more than that, so the results never fall.  The pairs of
`math32` lose up to four units, one for each rounded product.  There the results
fall by one unit at some ratios and never by two: where four products could fall
at once and the ratio is too large for that, the last product does not fall,
which chunks of the squares show.
-/
import RunD.MathTurn

namespace RunD

open RunD.Fixed (lowest highest lowest_nonpos)
open RunD.Horner
open RunD.Lane

/-! ### `math64` never falls -/

namespace Math64

/-- The arctangent of a ratio, as a number. -/
def turnAtanCurve (r : ℤ) : ℤ :=
  (r * horner (2 ^ 63 : ℕ) ((r * r).tdiv (2 ^ 63 : ℕ)) turnAtanCoef).tdiv (2 ^ 63 : ℕ)

/-- One above the square of the greatest ratio. -/
def turnSquareTop : ℤ := 1582480459898763000

set_option maxRecDepth 4000 in
theorem turnAtanCoef_definite : Definite (2 ^ 63 : ℕ) turnSquareTop 1 turnAtanCoef := by
  decide

set_option maxRecDepth 4000 in
/-- From a square to the next one the polynomial falls by one unit at most, and it stays above
the greatest ratio. -/
theorem turnAtanCoef_drift :
    3820445788478006404 ≤ (drift (2 ^ 63 : ℕ) turnSquareTop 1 turnAtanCoef).lo ∧
      -1 ≤ (drift (2 ^ 63 : ℕ) turnSquareTop 1 turnAtanCoef).fall := by
  decide

set_option maxRecDepth 4000 in
theorem turnAtanCoef_tails : ∀ cs ∈ turnAtanCoef.tails,
    -2 ^ 63 < (drift (2 ^ 63 : ℕ) turnSquareTop 1 cs).lo ∧
      (drift (2 ^ 63 : ℕ) turnSquareTop 1 cs).hi < 2 ^ 63 := by
  decide

section Curve

variable {s r : ℤ} (hs : 0 ≤ s) (htop : s < turnSquareTop)

include hs htop in
theorem natAbs_horner_lt {cs : List ℤ} (hcs : cs <:+ turnAtanCoef) :
    (horner (2 ^ 63 : ℕ) s cs).natAbs < 2 ^ 63 := by
  have hdrift := drift_holds (S := (2 ^ 63 : ℕ)) (by norm_num) hs zero_le_one
    (Int.add_one_le_of_lt htop) (turnAtanCoef_definite.of_suffix hcs)
  obtain ⟨hlow, hhigh⟩ := turnAtanCoef_tails cs ((List.mem_tails _ _).mpr hcs)
  have habove := hdrift.low.1
  have hbelow := hdrift.high.1
  omega

include hs htop in
theorem horner_step :
    3820445788478006404 ≤ horner (2 ^ 63 : ℕ) s turnAtanCoef ∧
      3820445788478006404 ≤ horner (2 ^ 63 : ℕ) (s + 1) turnAtanCoef ∧
      horner (2 ^ 63 : ℕ) s turnAtanCoef - 1 ≤ horner (2 ^ 63 : ℕ) (s + 1) turnAtanCoef := by
  have hdrift := drift_holds (S := (2 ^ 63 : ℕ)) (by norm_num) hs zero_le_one
    (Int.add_one_le_of_lt htop) turnAtanCoef_definite
  obtain ⟨hlow, hfall⟩ := turnAtanCoef_drift
  refine ⟨hlow.trans hdrift.low.1, hlow.trans hdrift.low.2, ?_⟩
  have hmove := hfall.trans hdrift.fall
  linarith

variable (hr : 0 ≤ r) (hbound : r ≤ 3820445788478006404)
include hr hbound

theorem square_mem : 0 ≤ (r * r).tdiv (2 ^ 63 : ℕ) ∧ (r * r).tdiv (2 ^ 63 : ℕ) < turnSquareTop := by
  have hle : r * r ≤ 3820445788478006404 * 3820445788478006404 :=
    mul_le_mul hbound hbound hr (by norm_num)
  refine ⟨Int.tdiv_nonneg (mul_nonneg hr hr) (by norm_num), ?_⟩
  rw [Int.tdiv_eq_ediv_of_nonneg (mul_nonneg hr hr)]
  apply Int.ediv_lt_of_lt_mul (by norm_num)
  exact lt_of_le_of_lt hle (by decide)

/-- A square is the last one or the next one. -/
theorem square_succ : ((r + 1) * (r + 1)).tdiv (2 ^ 63 : ℕ) = (r * r).tdiv (2 ^ 63 : ℕ) ∨
    ((r + 1) * (r + 1)).tdiv (2 ^ 63 : ℕ) = (r * r).tdiv (2 ^ 63 : ℕ) + 1 := by
  have hnext : (r + 1) * (r + 1) = r * r + (2 * r + 1) := by ring
  rw [hnext, Int.tdiv_eq_ediv_of_nonneg (mul_nonneg hr hr), Int.tdiv_eq_ediv_of_nonneg
    (add_nonneg (mul_nonneg hr hr) (by linarith))]
  generalize r * r = square
  norm_num
  omega

/-- **The curve never falls**: the ratio grows by more than the polynomial falls. -/
theorem turnAtanCurve_succ : turnAtanCurve r ≤ turnAtanCurve (r + 1) := by
  obtain ⟨hs, htop⟩ := square_mem hr hbound
  obtain ⟨hlow, hlow', hstep⟩ := horner_step hs htop
  apply Int.tdiv_le_tdiv (by norm_num)
  rcases square_succ hr hbound with hsame | hnext
  · rw [hsame]
    exact mul_le_mul_of_nonneg_right (by linarith) (by linarith)
  · rw [hnext]
    set p := horner (2 ^ 63 : ℕ) ((r * r).tdiv (2 ^ 63 : ℕ)) turnAtanCoef
    set p' := horner (2 ^ 63 : ℕ) ((r * r).tdiv (2 ^ 63 : ℕ) + 1) turnAtanCoef
    calc r * p ≤ r * (p' + 1) := mul_le_mul_of_nonneg_left (by linarith) hr
      _ = r * p' + r := by ring
      _ ≤ r * p' + p' := by linarith
      _ = (r + 1) * p' := by ring

theorem toInt_turnAtanUnit {ratio : BitVec 64} (h : ratio.toInt = r) :
    (turnAtanUnit ratio).toInt = turnAtanCurve r := by
  obtain ⟨hs, htop⟩ := square_mem hr hbound
  have hcoef : (turnAtanCoef.map (BitVec.ofInt 64)).dropLast.map BitVec.toInt ++
      [((turnAtanCoef.map (BitVec.ofInt 64)).getLastD 0#64).toInt] = turnAtanCoef := by
    decide
  have hsquare : (mulFixed ratio ratio).toInt = (r * r).tdiv (2 ^ 63 : ℕ) := by
    rw [toInt_mulFixed, h]
    apply clampTo_of_mem
    · exact (lowest_nonpos 64).trans hs
    · exact htop.le.trans (by decide)
  have hpolynomial : (turnPoly34 (mulFixed ratio ratio)
      (turnAtanCoef.map (BitVec.ofInt 64))).toInt =
        horner (2 ^ 63 : ℕ) ((r * r).tdiv (2 ^ 63 : ℕ)) turnAtanCoef := by
    have hinside : ∀ cs, cs <:+ (turnAtanCoef.map (BitVec.ofInt 64)).dropLast.map BitVec.toInt ++
        [((turnAtanCoef.map (BitVec.ofInt 64)).getLastD 0#64).toInt] →
          (horner (2 ^ 63 : ℕ) (mulFixed ratio ratio).toInt cs).natAbs < 2 ^ 63 := by
      rw [hcoef, hsquare]
      exact fun cs hcs => natAbs_horner_lt hs htop hcs
    have hexact := toInt_polynomial_of_lt toInt_mulFixed toInt_addSat (hsquare ▸ hs) hinside
    rw [hcoef, hsquare] at hexact
    exact hexact
  have hvalue := natAbs_horner_lt hs htop List.suffix_rfl
  have hproduct := natAbs_tdiv_mul_le (S := (2 ^ 63 : ℕ)) (by norm_num) hr
    (hbound.trans (by norm_num)) (horner (2 ^ 63 : ℕ) ((r * r).tdiv (2 ^ 63 : ℕ)) turnAtanCoef)
  obtain ⟨hlow, hhigh⟩ := mem_of_natAbs_lt (n := 64) (lt_of_le_of_lt hproduct hvalue)
  rw [mul_comm] at hlow hhigh
  rw [turnAtanUnit, toInt_mulFixed, hpolynomial, h, clampTo_of_mem hlow hhigh]
  rfl

end Curve

theorem turnAtanCurve_mono {r r' : ℤ} (hr : 0 ≤ r) (hle : r ≤ r')
    (hbound : r' ≤ 3820445788478006404) : turnAtanCurve r ≤ turnAtanCurve r' := by
  induction r', hle using Int.leInduction with
  | base => exact le_rfl
  | succ r' hle ih =>
      exact (ih (by linarith)).trans (turnAtanCurve_succ (hr.trans hle) (by linarith))

theorem turnMath_laws : turnMath.Laws turnAtanCurve 0 0 where
  width := by decide
  double := rfl
  div := fun _ _ hnumerator hpos => toNat_unsignedDiv (by decide) hnumerator hpos
  clampQuotient := fun quotient => toNat_setWidth_select quotient _ (by decide)
  addSat := toInt_addSat
  bound := by decide
  unit := fun _ hr hbound => toInt_turnAtanUnit hr hbound rfl
  zero := by decide
  nonneg := by
    intro r hr hbound
    have hstart : turnAtanCurve 0 = 0 := by decide
    exact hstart ▸ turnAtanCurve_mono le_rfl hr hbound
  below := by
    intro r hr hbound
    have hend : turnAtanCurve 3820445788478006404 ≤ (2 ^ (64 - 3) + 0 : ℕ) := by
      set_option maxRecDepth 4000 in
      decide
    exact (turnAtanCurve_mono hr hbound le_rfl).trans hend
  small := by decide
  rises := by
    intro r r' hr hle hbound
    rw [Nat.cast_zero, add_zero]
    exact turnAtanCurve_mono hr hle hbound

end Math64

/-! ### `math32` falls by one unit at most -/

namespace Math32

theorem mulScaled_nonneg {x y : ℤ} (hx : 0 ≤ x) (hy : 0 ≤ y) : 0 ≤ mulScaled x y :=
  Int.tdiv_nonneg (mul_nonneg hx hy) (by norm_num)

theorem mulScaled_le {x y : ℤ} (hx : 0 ≤ x) (hy : y ≤ 2 ^ 31) : mulScaled x y ≤ x := by
  have hle : x * y ≤ x * 2 ^ 31 := mul_le_mul_of_nonneg_left hy hx
  calc mulScaled x y ≤ (x * 2 ^ 31).tdiv (2 ^ 31 : ℕ) := Int.tdiv_le_tdiv (by norm_num) hle
    _ = x := Int.mul_tdiv_cancel _ (by norm_num)

theorem mulScaled_mono {x y u v : ℤ} (hx : 0 ≤ x) (hu : 0 ≤ u) (hxy : x ≤ y) (huv : u ≤ v) :
    mulScaled x u ≤ mulScaled y v :=
  Int.tdiv_le_tdiv (by norm_num) (mul_le_mul hxy huv hu (hx.trans hxy))

/-- A bound of the squares of ratios, where the last chunk of `turnTail_steady` ends. -/
def turnSquareTop : ℤ := 368450616

section Square

variable {s t : ℤ} (hs : 0 ≤ s) (hst : s ≤ t) (ht : t ≤ turnSquareTop)

include hs hst in
theorem square2_mono : square2 s ≤ square2 t := mulScaled_mono hs hs hst hst

include hs in
theorem square2_nonneg : 0 ≤ square2 s := mulScaled_nonneg hs hs

include hs hst in
theorem square4_mono : square4 s ≤ square4 t :=
  mulScaled_mono (square2_nonneg hs) (square2_nonneg hs) (square2_mono hs hst) (square2_mono hs hst)

include hs in
theorem square4_nonneg : 0 ≤ square4 s := mulScaled_nonneg (square2_nonneg hs) (square2_nonneg hs)

include hs hst in
theorem square8_mono : square8 s ≤ square8 t :=
  mulScaled_mono (square4_nonneg hs) (square4_nonneg hs) (square4_mono hs hst) (square4_mono hs hst)

include hs in
theorem square8_nonneg : 0 ≤ square8 s := mulScaled_nonneg (square4_nonneg hs) (square4_nonneg hs)

/-- The powers of the bound. -/
theorem square_top : square2 turnSquareTop = 63216246 ∧ square4 turnSquareTop = 1860919 ∧
    square8 turnSquareTop = 1612 := by
  decide

end Square

/-- A pair that falls and is never negative on the squares. -/
structure Falling (i j : Fin 12) : Prop where
  odd : turnAtanCoef j ≤ 0
  even : 0 ≤ turnAtanCoef i + mulScaled (turnAtanCoef j) turnSquareTop

theorem falling : Falling 0 1 ∧ Falling 2 3 ∧ Falling 4 5 ∧ Falling 6 7 ∧ Falling 8 9 ∧
    Falling 10 11 := by
  refine ⟨?_, ?_, ?_, ?_, ?_, ?_⟩ <;> exact ⟨by decide, by decide⟩

section Falls

variable {i j k l : Fin 12} {s t m : ℤ}

theorem Falling.pairAt_anti (h : Falling i j) (hst : s ≤ t) : pairAt i j t ≤ pairAt i j s :=
  add_le_add_right (Int.tdiv_le_tdiv (by norm_num) (mul_le_mul_of_nonpos_left hst h.odd)) _

theorem Falling.pairAt_nonneg (h : Falling i j) (hs : s ≤ turnSquareTop) : 0 ≤ pairAt i j s :=
  h.even.trans (h.pairAt_anti hs)

theorem Falling.pairAt_le (h : Falling i j) (hs : 0 ≤ s) : pairAt i j s ≤ turnAtanCoef i := by
  have hstart := h.pairAt_anti hs
  simpa [pairAt, mulScaled] using hstart

theorem Falling.pairAt_falls (h : Falling i j) (hs : 0 ≤ s) (hm : 0 ≤ m) :
    FallsBy (2 ^ 31 : ℕ) m (-turnAtanCoef j) (2 ^ 31 : ℕ) (pairAt i j s) (pairAt i j (s + m)) := by
  have hconst := FallsBy.of_le (S := (2 ^ 31 : ℕ)) (m := m) (by norm_num) (le_refl (turnAtanCoef i))
  have hfall := hconst.add (fallsBy_mul_coefficient (by norm_num) h.odd hs hm)
  rw [zero_add, zero_add] at hfall
  exact hfall

variable (h : Falling i j) (h' : Falling k l)
include h h'

theorem quadAt_nonneg (hs : 0 ≤ s) (hle : s ≤ turnSquareTop) : 0 ≤ quadAt i j k l s :=
  add_nonneg (h.pairAt_nonneg hle) (mulScaled_nonneg (h'.pairAt_nonneg hle) (square2_nonneg hs))

theorem quadAt_falls (hs : 0 ≤ s) (hm : 0 ≤ m) (hle : s + m ≤ turnSquareTop) :
    FallsBy (2 ^ 31 : ℕ) m (-turnAtanCoef j + (-turnAtanCoef l * 63216246 / (2 ^ 31 : ℕ) + 1))
      ((2 ^ 31 : ℕ) + ((2 ^ 31 : ℕ) * 63216246 / (2 ^ 31 : ℕ) + 1 + (2 ^ 31 : ℕ)))
      (quadAt i j k l s) (quadAt i j k l (s + m)) := by
  have hstep : s ≤ s + m := le_add_of_nonneg_right hm
  have hsquare : square2 s ≤ 63216246 :=
    square_top.1 ▸ square2_mono hs (hstep.trans hle)
  apply (h.pairAt_falls hs hm).add
  exact (h'.pairAt_falls hs hm).mul (by norm_num) (h'.pairAt_nonneg (hstep.trans hle))
    (h'.pairAt_nonneg hle) hm (neg_nonneg.mpr h'.odd) (by norm_num) (square2_nonneg hs)
    (square2_mono hs hstep) hsquare

end Falls

section Poly

variable {s m : ℤ} (hs : 0 ≤ s) (hm : 0 ≤ m) (hle : s + m ≤ turnSquareTop)
include hs hm hle

theorem turnHead_falls :
    FallsBy (2 ^ 31 : ℕ) m 461567806 6509443810 (turnHead s) (turnHead (s + m)) := by
  obtain ⟨h0, h2, h4, h6, -, -⟩ := falling
  have hstep : s ≤ s + m := le_add_of_nonneg_right hm
  have hsquare : square4 s ≤ 1860919 :=
    square_top.2.1 ▸ square4_mono hs (hstep.trans hle)
  have hproduct := (quadAt_falls h4 h6 hs hm hle).mul (by norm_num)
    (quadAt_nonneg h4 h6 hs (hstep.trans hle)) (quadAt_nonneg h4 h6 (hs.trans hstep) hle) hm
    (by decide) (by decide) (square4_nonneg hs) (square4_mono hs hstep) hsquare
  exact ((quadAt_falls h0 h2 hs hm hle).add hproduct).mono hm (by decide) (by decide)

theorem turnTail_falls :
    FallsBy (2 ^ 31 : ℕ) m 57 2147486920 (turnTail s) (turnTail (s + m)) := by
  obtain ⟨-, -, -, -, h8, h10⟩ := falling
  have hstep : s ≤ s + m := le_add_of_nonneg_right hm
  have hsquare : square8 s ≤ 1612 :=
    square_top.2.2 ▸ square8_mono hs (hstep.trans hle)
  exact ((quadAt_falls h8 h10 hs hm hle).mul (by norm_num)
    (quadAt_nonneg h8 h10 hs (hstep.trans hle)) (quadAt_nonneg h8 h10 (hs.trans hstep) hle) hm
    (by decide) (by decide) (square8_nonneg hs) (square8_mono hs hstep) hsquare).mono hm
    (by decide) (by decide)

theorem turnAtanPoly_falls :
    FallsBy (2 ^ 31 : ℕ) m 461567863 8656930730 (turnAtanPoly s) (turnAtanPoly (s + m)) :=
  (turnHead_falls hs hm hle).add (turnTail_falls hs hm hle)

end Poly

/-! ### The tail -/

/-- From `a` to `b` the last power grows by one at most, and for neither of its values does the
product fall. -/
def Steady (a b : ℤ) : Prop :=
  square8 b ≤ square8 a + 1 ∧ ∀ v ∈ [square8 a, square8 b],
    mulScaled (tailAt a b) v ≤ mulScaled (tailAt b a) v

theorem Steady.turnTail_mono {a b s t : ℤ} (h : Steady a b) (ha : 0 ≤ a) (hb : b ≤ turnSquareTop)
    (has : a ≤ s) (hst : s ≤ t) (htb : t ≤ b) : turnTail s ≤ turnTail t := by
  obtain ⟨-, -, -, -, h8, h10⟩ := falling
  have hs : 0 ≤ s := ha.trans has
  have ht : 0 ≤ t := hs.trans hst
  have hsb : s ≤ b := hst.trans htb
  have hlow := square8_mono ha has
  have hmid := square8_mono hs hst
  have hhigh := square8_mono ht htb
  have hvalue : square8 s ∈ [square8 a, square8 b] := by
    have hgrow := h.1
    simp only [List.mem_cons, List.not_mem_nil, or_false]
    omega
  have habove : quadAt 8 9 10 11 s ≤ tailAt a b :=
    add_le_add (h8.pairAt_anti has) (mulScaled_mono (h10.pairAt_nonneg (hsb.trans hb))
      (square2_nonneg hs) (h10.pairAt_anti has) (square2_mono hs hsb))
  have hbelow : tailAt b a ≤ quadAt 8 9 10 11 t :=
    add_le_add (h8.pairAt_anti htb) (mulScaled_mono (h10.pairAt_nonneg hb)
      (square2_nonneg ha) (h10.pairAt_anti htb) (square2_mono ha (has.trans hst)))
  have hpositive : 0 ≤ tailAt b a :=
    add_nonneg (h8.pairAt_nonneg hb) (mulScaled_nonneg (h10.pairAt_nonneg hb) (square2_nonneg ha))
  calc turnTail s ≤ mulScaled (tailAt a b) (square8 s) :=
        mulScaled_mono (quadAt_nonneg h8 h10 hs (hsb.trans hb)) (square8_nonneg hs) habove le_rfl
    _ ≤ mulScaled (tailAt b a) (square8 s) :=
        h.2 _ hvalue
    _ ≤ turnTail t := mulScaled_mono hpositive (square8_nonneg hs) hbelow hmid

/-- A scaled product of natural numbers, in the operations that a kernel runs at once. -/
def productAt (x y : ℕ) : ℕ := Nat.shiftRight (Nat.mul x y) 31

theorem mulScaled_natCast (x y : ℕ) : mulScaled x y = (productAt x y : ℕ) := by
  have hshift : productAt x y = x * y / 2 ^ 31 := Nat.shiftRight_eq_div_pow (x * y) 31
  rw [mulScaled, hshift, ← Nat.cast_mul, Int.natCast_div]
  exact Int.tdiv_eq_ediv_of_nonneg (Int.natCast_nonneg _)

/-- The pair of a coefficient `c` and a coefficient `-d`. -/
def pairNat (c d s : ℕ) : ℕ := Nat.sub c (productAt d s)

theorem pairAt_natCast {i j : Fin 12} {c d s : ℕ} (hi : turnAtanCoef i = c)
    (hj : turnAtanCoef j = -(d : ℤ)) (hle : d ≤ c) (hs : s ≤ 2 ^ 31) :
    pairAt i j s = (pairNat c d s : ℕ) := by
  have hproduct : productAt d s ≤ c := by
    have hshift : productAt d s = d * s / 2 ^ 31 := Nat.shiftRight_eq_div_pow (d * s) 31
    rw [hshift]
    exact (Nat.div_le_of_le_mul (by rw [Nat.mul_comm]; exact Nat.mul_le_mul_right d hs)).trans hle
  have hneg : mulScaled (-(d : ℤ)) s = -mulScaled d s := by
    rw [mulScaled, mulScaled, neg_mul, Int.neg_tdiv]
  rw [pairAt, hi, hj, hneg, mulScaled_natCast, ← sub_eq_add_neg]
  exact (Nat.cast_sub hproduct).symm

def squareNat (s : ℕ) : ℕ := productAt s s

theorem square8_natCast (s : ℕ) : square8 s = (squareNat (squareNat (squareNat s)) : ℕ) := by
  rw [square8, square4, square2, mulScaled_natCast, mulScaled_natCast, mulScaled_natCast]
  rfl

/-- The last four coefficients at `s`, with the square of `t`. -/
def quadNat (s t : ℕ) : ℕ :=
  Nat.add (pairNat 81654160 73704920 s) (productAt (pairNat 67352940 62155800 s) (squareNat t))

theorem tailAt_natCast {s t : ℕ} (hs : s ≤ 2 ^ 31) : tailAt s t = (quadNat s t : ℕ) := by
  rw [tailAt, pairAt_natCast (c := 81654160) (d := 73704920) rfl rfl (by decide) hs,
    pairAt_natCast (c := 67352940) (d := 62155800) rfl rfl (by decide) hs, square2,
    mulScaled_natCast, mulScaled_natCast, ← Nat.cast_add]
  rfl

/-- `Steady` for the powers and the factors of its two bounds. -/
def steadyAt (powerA powerB low high : ℕ) : Bool :=
  Nat.ble powerB (Nat.succ powerA) &&
    (Nat.ble (productAt low powerA) (productAt high powerA) &&
      Nat.ble (productAt low powerB) (productAt high powerB))

def steadyNat (a b : ℕ) : Bool :=
  steadyAt (squareNat (squareNat (squareNat a))) (squareNat (squareNat (squareNat b)))
    (quadNat a b) (quadNat b a)

theorem Steady.of_nat {a b : ℕ} (ha : a ≤ 2 ^ 31) (hb : b ≤ 2 ^ 31)
    (h : steadyNat a b = true) : Steady a b := by
  rw [steadyNat, steadyAt, Bool.and_eq_true, Bool.and_eq_true, Nat.ble_eq, Nat.ble_eq,
    Nat.ble_eq] at h
  obtain ⟨hgrow, hlow, hhigh⟩ := h
  rw [Steady, tailAt_natCast ha, tailAt_natCast hb, square8_natCast, square8_natCast]
  refine ⟨by exact_mod_cast hgrow, fun v hv => ?_⟩
  rcases List.mem_cons.mp hv with rfl | hv
  · rw [mulScaled_natCast, mulScaled_natCast]
    exact_mod_cast hlow
  · rw [List.mem_singleton.mp hv, mulScaled_natCast, mulScaled_natCast]
    exact_mod_cast hhigh

/-- `chunks` chunks from `a` on. -/
def steadyFrom : ℕ → ℕ → Bool
  | 0, _ => true
  | chunks + 1, a => steadyNat a (Nat.add a 16000) && steadyFrom chunks (Nat.add a 16000)

theorem steadyNat_of_from {chunks a : ℕ} (h : steadyFrom chunks a = true) {n : ℕ}
    (hn : n < chunks) : steadyNat (a + 16000 * n) (a + 16000 * (n + 1)) = true := by
  induction chunks generalizing a n with
  | zero => exact absurd hn (Nat.not_lt_zero n)
  | succ chunks ih =>
      rw [steadyFrom, Bool.and_eq_true] at h
      cases n with
      | zero => exact h.1
      | succ n =>
          have hrest := ih h.2 (Nat.lt_of_succ_lt_succ hn)
          have hshift : ∀ m, Nat.add a 16000 + 16000 * m = a + 16000 * (m + 1) := by
            intro m
            show a + 16000 + 16000 * m = _
            ring
          rwa [hshift, hshift] at hrest
set_option maxRecDepth 20000 in
theorem turnTail_steadyFrom : steadyFrom 1553 343602616 = true := by
  rfl

/-- The chunks from the square of the ratio 859000000 on. -/
theorem turnTail_steady (n : ℕ) (hn : n < 1553) :
    Steady (343602616 + 16000 * n) (343602616 + 16000 * (n + 1)) := by
  have hsteady := steadyNat_of_from turnTail_steadyFrom hn
  have hnat := Steady.of_nat (by omega) (by omega) hsteady
  push_cast at hnat
  exact hnat

/-- **The tail never falls** at the squares of the greater ratios. -/
theorem turnTail_mono {s t : ℤ} (hs : 343602616 ≤ s) (hst : s ≤ t) (ht : t ≤ turnSquareTop) :
    turnTail s ≤ turnTail t := by
  have hchunks : ∀ n : ℕ, n ≤ 1553 → ∀ s t : ℤ, 343602616 ≤ s → s ≤ t →
      t ≤ 343602616 + 16000 * n → turnTail s ≤ turnTail t := by
    intro n
    induction n with
    | zero =>
        intro _ s t hs hst ht
        have hsame : s = t := by omega
        rw [hsame]
    | succ n ih =>
        intro hn s t hs hst ht
        have hchunk := turnTail_steady n hn
        have htop : (343602616 + 16000 * (n + 1) : ℤ) ≤ turnSquareTop := by
          rw [turnSquareTop]
          omega
        push_cast at ht
        rcases le_or_gt t (343602616 + 16000 * n : ℤ) with hbefore | hafter
        · exact ih (by omega) s t hs hst hbefore
        rcases le_or_gt (343602616 + 16000 * n : ℤ) s with hin | hout
        · exact hchunk.turnTail_mono (by omega) htop hin hst ht
        · -- the two arguments are in different chunks
          have hfirst := ih (by omega) s (343602616 + 16000 * n) hs hout.le le_rfl
          exact hfirst.trans (hchunk.turnTail_mono (by omega) htop le_rfl hafter.le ht)
  exact hchunks 1553 le_rfl s t hs hst ht

/-! ### The curve -/

section Curve

/-- A bound of the polynomial from below. -/
theorem turnAtanPoly_ge {s : ℤ} (hs : 0 ≤ s) (hle : s ≤ turnSquareTop) :
    1288943181 ≤ turnAtanPoly s := by
  obtain ⟨h0, h2, h4, h6, h8, h10⟩ := falling
  have hfirst : 1288943181 ≤ pairAt 0 1 turnSquareTop := by decide
  have hpair := h0.pairAt_anti hle
  have hsecond := mulScaled_nonneg (h2.pairAt_nonneg hle) (square2_nonneg hs)
  have hthird := mulScaled_nonneg (quadAt_nonneg h4 h6 hs hle) (square4_nonneg hs)
  have hlast := mulScaled_nonneg (quadAt_nonneg h8 h10 hs hle) (square8_nonneg hs)
  rw [turnAtanPoly, turnHead, turnTail, quadAt]
  linarith

variable {r k : ℤ} (hr : 0 ≤ r) (hk : 0 ≤ k) (hle : r + k ≤ 889516852)
include hr hk hle

/-- The squares of two ratios, and how far they are from each other. -/
theorem mulScaled_self_mem : 0 ≤ mulScaled r r ∧ mulScaled r r ≤ mulScaled (r + k) (r + k) ∧
    mulScaled (r + k) (r + k) ≤ turnSquareTop ∧
    2 ^ 31 * (mulScaled (r + k) (r + k) - mulScaled r r) ≤ 2 * 889516852 * k + 2 ^ 31 := by
  have hstep : r ≤ r + k := le_add_of_nonneg_right hk
  have htop : mulScaled 889516852 889516852 ≤ turnSquareTop := by decide
  have hmove := mul_tdiv_sub_lt (S := (2 ^ 31 : ℕ)) (by norm_num)
    (Or.inl ⟨mul_nonneg hr hr, mul_nonneg (hr.trans hstep) (hr.trans hstep)⟩)
  have hproduct : (r + k) * (r + k) - r * r ≤ 2 * 889516852 * k := by
    calc (r + k) * (r + k) - r * r = (r + (r + k)) * k := by ring
      _ ≤ 2 * 889516852 * k := mul_le_mul_of_nonneg_right (by linarith) hk
  refine ⟨mulScaled_nonneg hr hr, mulScaled_mono hr hr hstep hstep,
    (mulScaled_mono (hr.trans hstep) (hr.trans hstep) hle hle).trans htop, ?_⟩
  rw [mulScaled, mulScaled]
  push_cast at hmove ⊢
  linarith

/-- How far the curve falls, from a fall of the polynomial. -/
theorem turnAtanCurve_falls {rate base bound : ℤ} (hrate : 0 ≤ rate) (hbase : 0 ≤ base)
    (hbound : r ≤ bound)
    (hfalls : FallsBy (2 ^ 31 : ℕ) (mulScaled (r + k) (r + k) - mulScaled r r) rate base
      (turnAtanPoly (mulScaled r r)) (turnAtanPoly (mulScaled (r + k) (r + k)))) :
    2 ^ 62 * (turnAtanCurve r - turnAtanCurve (r + k)) <
      bound * (rate * (mulScaled (r + k) (r + k) - mulScaled r r) + base) -
        2 ^ 31 * (k * 1288943181) + 2 ^ 62 := by
  obtain ⟨hs, hst, ht, -⟩ := mulScaled_self_mem hr hk hle
  have hp := turnAtanPoly_ge hs (hst.trans ht)
  have hp' := turnAtanPoly_ge (hs.trans hst) ht
  set m := mulScaled (r + k) (r + k) - mulScaled r r
  set p := turnAtanPoly (mulScaled r r)
  set p' := turnAtanPoly (mulScaled (r + k) (r + k))
  have hcurve := mul_tdiv_sub_lt (S := (2 ^ 31 : ℕ)) (x := (r + k) * p') (y := r * p)
    (by norm_num) (Or.inl ⟨mul_nonneg (add_nonneg hr hk) (by linarith),
      mul_nonneg hr (by linarith)⟩)
  have hbudget : 0 ≤ rate * m + base := add_nonneg (mul_nonneg hrate (by linarith)) hbase
  have hfall : 2 ^ 31 * (r * (p - p')) ≤ bound * (rate * m + base) := by
    rw [FallsBy] at hfalls
    push_cast at hfalls
    calc 2 ^ 31 * (r * (p - p')) = r * (2 ^ 31 * (p - p')) := by ring
      _ ≤ r * (rate * m + base) := mul_le_mul_of_nonneg_left hfalls hr
      _ ≤ bound * (rate * m + base) := mul_le_mul_of_nonneg_right hbound hbudget
  have hgrow : k * 1288943181 ≤ k * p' := mul_le_mul_of_nonneg_left hp' hk
  have hmove : r * p - (r + k) * p' = r * (p - p') - k * p' := by ring
  have hvalue : turnAtanCurve r = (r * p).tdiv (2 ^ 31 : ℕ) := rfl
  have hvalue' : turnAtanCurve (r + k) = ((r + k) * p').tdiv (2 ^ 31 : ℕ) := rfl
  rw [← hvalue, ← hvalue'] at hcurve
  push_cast at hcurve
  linarith

end Curve

/-- From a ratio to the next one the curve falls by one unit at most. -/
theorem turnAtanCurve_succ {r : ℤ} (hr : 0 ≤ r) (hle : r + 1 ≤ 889516852) :
    turnAtanCurve r ≤ turnAtanCurve (r + 1) + 1 := by
  obtain ⟨hs, hst, ht, hgap⟩ := mulScaled_self_mem hr zero_le_one hle
  have hnear : mulScaled (r + 1) (r + 1) - mulScaled r r ≤ 1 := by omega
  have hhead := turnHead_falls hs (sub_nonneg.mpr hst) (by rwa [add_sub_cancel])
  have htail := turnTail_falls hs (sub_nonneg.mpr hst) (by rwa [add_sub_cancel])
  rw [add_sub_cancel] at hhead htail
  rcases le_or_gt 859000000 r with hlarge | hsmall
  · -- the tail does not fall here
    have hstart : mulScaled 859000000 859000000 = 343602616 := by decide
    have hfrom : 343602616 ≤ mulScaled r r :=
      hstart ▸ mulScaled_mono (by norm_num) (by norm_num) hlarge hlarge
    have hfalls := hhead.add (FallsBy.of_le (S := (2 ^ 31 : ℕ))
      (m := mulScaled (r + 1) (r + 1) - mulScaled r r) (by norm_num) (turnTail_mono hfrom hst ht))
    have hcurve := turnAtanCurve_falls hr zero_le_one hle (by norm_num) (by norm_num)
      ((le_add_of_nonneg_right zero_le_one).trans hle) hfalls
    omega
  · -- four products are rounded, so the polynomial falls by four at most
    have hpoly := hhead.add htail
    have hfour : turnAtanPoly (mulScaled r r) - turnAtanPoly (mulScaled (r + 1) (r + 1)) ≤ 4 := by
      rw [FallsBy] at hpoly
      push_cast at hpoly
      rw [turnAtanPoly, turnAtanPoly]
      omega
    have hfalls : FallsBy (2 ^ 31 : ℕ) (mulScaled (r + 1) (r + 1) - mulScaled r r) 0
        (4 * 2 ^ 31) (turnAtanPoly (mulScaled r r))
          (turnAtanPoly (mulScaled (r + 1) (r + 1))) := by
      rw [FallsBy]
      push_cast
      linarith
    have hcurve := turnAtanCurve_falls hr zero_le_one hle le_rfl (by norm_num) hsmall.le hfalls
    omega

/-- At a greater distance the growth of the ratio makes up for the falls. -/
theorem turnAtanCurve_far {r k : ℤ} (hr : 0 ≤ r) (hk : 2 ≤ k) (hle : r + k ≤ 889516852) :
    turnAtanCurve r ≤ turnAtanCurve (r + k) + 1 ∧
      (4 ≤ k → turnAtanCurve r ≤ turnAtanCurve (r + k)) := by
  have hpos : 0 ≤ k := by omega
  obtain ⟨hs, hst, ht, hgap⟩ := mulScaled_self_mem hr hpos hle
  have hfalls := turnAtanPoly_falls hs (sub_nonneg.mpr hst) (by rwa [add_sub_cancel])
  rw [add_sub_cancel] at hfalls
  have hcurve := turnAtanCurve_falls hr hpos hle (by norm_num) (by norm_num)
    ((le_add_of_nonneg_right hpos).trans hle) hfalls
  constructor
  · omega
  · intro hfour
    omega

/-! ### Nothing saturates -/

theorem toInt_mulFixed_of_lt {x y : BitVec 32} (hx : x.toInt.natAbs < 2 ^ 31) (hy : 0 ≤ y.toInt) :
    (mulFixed x y).toInt = mulScaled x.toInt y.toInt := by
  have hscale : y.toInt ≤ (2 ^ 31 : ℕ) := by
    have hhighest : highest 32 = 2 ^ 31 - 1 := rfl
    have hhigh := toInt_le_highest y
    omega
  obtain ⟨hlow, hhigh⟩ := mem_of_natAbs_lt (n := 32) (lt_of_le_of_lt
    (natAbs_tdiv_mul_le (S := (2 ^ 31 : ℕ)) (by norm_num) hy hscale x.toInt) hx)
  rw [toInt_mulFixed, clampTo_of_mem hlow hhigh]
  rfl

/-- A product of values that are not negative, with their numbers. -/
theorem toInt_mulFixed_of_nonneg {x y : BitVec 32} {u v : ℤ} (hx : x.toInt = u) (hy : y.toInt = v)
    (hu : 0 ≤ u) (hv : 0 ≤ v) : (mulFixed x y).toInt = mulScaled u v := by
  subst hx hy
  apply toInt_mulFixed_of_lt _ hv
  have hhighest : highest 32 = 2 ^ 31 - 1 := rfl
  have hhigh := toInt_le_highest x
  omega

theorem toInt_addSat_of_lt {x y : BitVec 32} {u v : ℤ} (hx : x.toInt = u) (hy : y.toInt = v)
    (hlow : 0 ≤ u + v) (hhigh : u + v < 2 ^ 31) : (addSat x y).toInt = u + v := by
  rw [toInt_addSat, hx, hy, clampTo_of_mem]
  · exact (lowest_nonpos 32).trans hlow
  · exact Int.le_sub_one_of_lt hhigh

theorem turnAtanCoef_mem : ∀ i, (BitVec.ofInt 32 (turnAtanCoef i)).toInt = turnAtanCoef i ∧
    (turnAtanCoef i).natAbs < 2 ^ 31 := by
  decide

section Saturation

variable {i j k l : Fin 12} {s : ℤ} {square : BitVec 32}
variable (h : Falling i j) (hs : 0 ≤ s) (hle : s ≤ turnSquareTop)
include h hs hle

theorem Falling.toInt_turnPair (hsquare : square.toInt = s) :
    (turnPair (BitVec.ofInt 32 (turnAtanCoef i)) (BitVec.ofInt 32 (turnAtanCoef j)) square).toInt =
      pairAt i j s := by
  obtain ⟨heven, hevenLt⟩ := turnAtanCoef_mem i
  obtain ⟨hodd, hoddLt⟩ := turnAtanCoef_mem j
  have hterm : (mulFixed (BitVec.ofInt 32 (turnAtanCoef j)) square).toInt =
      mulScaled (turnAtanCoef j) s := by
    rw [toInt_mulFixed_of_lt (hodd.symm ▸ hoddLt) (hsquare.symm ▸ hs), hodd, hsquare]
  have hnonneg := h.pairAt_nonneg hle
  have hbelow := h.pairAt_le hs
  exact toInt_addSat_of_lt heven hterm hnonneg (lt_of_le_of_lt hbelow (by omega))

variable (h' : Falling k l)
include h'

theorem quadAt_le : quadAt i j k l s ≤ turnAtanCoef i + turnAtanCoef k := by
  have hsquare : square2 s ≤ 2 ^ 31 :=
    (square2_mono hs hle).trans (square_top.1 ▸ by norm_num)
  exact add_le_add (h.pairAt_le hs)
    ((mulScaled_le (h'.pairAt_nonneg hle) hsquare).trans (h'.pairAt_le hs))

theorem toInt_quad {first second power : BitVec 32} (hfirst : first.toInt = pairAt i j s)
    (hsecond : second.toInt = pairAt k l s) (hpower : power.toInt = square2 s)
    (hsum : turnAtanCoef i + turnAtanCoef k < 2 ^ 31) :
    (addSat first (mulFixed second power)).toInt = quadAt i j k l s := by
  have hterm := toInt_mulFixed_of_nonneg hsecond hpower (h'.pairAt_nonneg hle) (square2_nonneg hs)
  exact toInt_addSat_of_lt hfirst hterm (quadAt_nonneg h h' hs hle)
    (lt_of_le_of_lt (quadAt_le h hs hle h') hsum)

end Saturation

/-- The coefficients together are below the scale. -/
theorem turnAtanPoly_lt {s : ℤ} (hs : 0 ≤ s) (hle : s ≤ turnSquareTop) :
    turnHead s < 1897901451 ∧ turnAtanPoly s < 2 ^ 31 := by
  obtain ⟨h0, h2, h4, h6, h8, h10⟩ := falling
  have hquad := quadAt_le h0 hs hle h2
  have hquad4 := quadAt_le h4 hs hle h6
  have hquad8 := quadAt_le h8 hs hle h10
  have hsecond : mulScaled (quadAt 4 5 6 7 s) (square4 s) ≤ quadAt 4 5 6 7 s :=
    mulScaled_le (quadAt_nonneg h4 h6 hs hle)
      ((square4_mono hs hle).trans (square_top.2.1 ▸ by norm_num))
  have hthird : mulScaled (quadAt 8 9 10 11 s) (square8 s) ≤ quadAt 8 9 10 11 s :=
    mulScaled_le (quadAt_nonneg h8 h10 hs hle)
      ((square8_mono hs hle).trans (square_top.2.2 ▸ by norm_num))
  have hcoefs : turnAtanCoef 0 + turnAtanCoef 2 = 1640555300 ∧
      turnAtanCoef 4 + turnAtanCoef 6 = 257346150 ∧
      turnAtanCoef 8 + turnAtanCoef 10 = 149007100 := by
    decide
  rw [turnAtanPoly, turnHead, turnTail]
  omega

theorem toInt_turnPoly12 {s : ℤ} {square : BitVec 32} (hs : 0 ≤ s) (hle : s ≤ turnSquareTop)
    (hsquare : square.toInt = s) :
    (turnPoly12 square fun i => BitVec.ofInt 32 (turnAtanCoef i)).toInt = turnAtanPoly s := by
  obtain ⟨h0, h2, h4, h6, h8, h10⟩ := falling
  have hpower2 := toInt_mulFixed_of_nonneg hsquare hsquare hs hs
  have hpower4 := toInt_mulFixed_of_nonneg hpower2 hpower2 (square2_nonneg hs) (square2_nonneg hs)
  have hpower8 := toInt_mulFixed_of_nonneg hpower4 hpower4 (square4_nonneg hs) (square4_nonneg hs)
  have hquad := toInt_quad h0 hs hle h2 (h0.toInt_turnPair hs hle hsquare)
    (h2.toInt_turnPair hs hle hsquare) hpower2 (by decide)
  have hquad4 := toInt_quad h4 hs hle h6 (h4.toInt_turnPair hs hle hsquare)
    (h6.toInt_turnPair hs hle hsquare) hpower2 (by decide)
  have hquad8 := toInt_quad h8 hs hle h10 (h8.toInt_turnPair hs hle hsquare)
    (h10.toInt_turnPair hs hle hsquare) hpower2 (by decide)
  have hterm4 := toInt_mulFixed_of_nonneg hquad4 hpower4 (quadAt_nonneg h4 h6 hs hle)
    (square4_nonneg hs)
  have hterm8 := toInt_mulFixed_of_nonneg hquad8 hpower8 (quadAt_nonneg h8 h10 hs hle)
    (square8_nonneg hs)
  have htail := mulScaled_nonneg (quadAt_nonneg h8 h10 hs hle) (square8_nonneg hs)
  have hheadNonneg := add_nonneg (quadAt_nonneg h0 h2 hs hle)
    (mulScaled_nonneg (quadAt_nonneg h4 h6 hs hle) (square4_nonneg hs))
  obtain ⟨hheadLt, hlt⟩ := turnAtanPoly_lt hs hle
  have hhead := toInt_addSat_of_lt hquad hterm4 hheadNonneg (hheadLt.trans (by norm_num))
  exact toInt_addSat_of_lt hhead hterm8 (add_nonneg hheadNonneg htail) hlt

theorem toInt_turnAtanUnit {ratio : BitVec 32} (hr : 0 ≤ ratio.toInt)
    (hbound : ratio.toInt ≤ 889516852) :
    (turnAtanUnit ratio).toInt = turnAtanCurve ratio.toInt := by
  obtain ⟨hs, -, hle, -⟩ := mulScaled_self_mem hr le_rfl (by rwa [add_zero])
  rw [add_zero] at hle
  have hsquare := toInt_mulFixed_of_nonneg (x := ratio) (y := ratio) rfl rfl hr hr
  exact toInt_mulFixed_of_nonneg rfl (toInt_turnPoly12 hs hle hsquare) hr
    ((by norm_num : (0 : ℤ) ≤ 1288943181).trans (turnAtanPoly_ge hs hle))

theorem turnAtanCurve_nonneg {r : ℤ} (hr : 0 ≤ r) (hbound : r ≤ 889516852) :
    0 ≤ turnAtanCurve r := by
  obtain ⟨hs, -, hle, -⟩ := mulScaled_self_mem hr le_rfl (by rwa [add_zero])
  rw [add_zero] at hle
  exact mulScaled_nonneg hr
    ((by norm_num : (0 : ℤ) ≤ 1288943181).trans (turnAtanPoly_ge hs hle))

theorem turnAtanCurve_rises {r r' : ℤ} (hr : 0 ≤ r) (hle : r ≤ r') (hbound : r' ≤ 889516852) :
    turnAtanCurve r ≤ turnAtanCurve r' + 1 := by
  obtain ⟨k, rfl⟩ : ∃ k, r' = r + k := ⟨r' - r, by rw [add_sub_cancel]⟩
  have hk : 0 ≤ k := by linarith
  rcases (by omega : k = 0 ∨ k = 1 ∨ 2 ≤ k) with rfl | rfl | hfar
  · rw [add_zero]
    exact le_add_of_nonneg_right zero_le_one
  · exact turnAtanCurve_succ hr hbound
  · exact (turnAtanCurve_far hr hfar hbound).1

/-- The curve ends above one eighth of a turn, and it is not above its end before. -/
theorem turnAtanCurve_le {r : ℤ} (hr : 0 ≤ r) (hbound : r ≤ 889516852) :
    turnAtanCurve r ≤ 536871009 := by
  have hend : turnAtanCurve 889516852 = 536871009 ∧ turnAtanCurve 889516851 ≤ 536871009 ∧
      turnAtanCurve 889516850 ≤ 536871009 ∧ turnAtanCurve 889516849 ≤ 536871009 := by
    decide
  obtain ⟨k, hk⟩ : ∃ k, r + k = 889516852 := ⟨889516852 - r, by rw [add_sub_cancel]⟩
  rcases (by omega : r = 889516852 ∨ r = 889516851 ∨ r = 889516850 ∨ r = 889516849 ∨ 4 ≤ k) with
    rfl | rfl | rfl | rfl | hfar
  · exact hend.1.le
  · exact hend.2.1
  · exact hend.2.2.1
  · exact hend.2.2.2
  · have hle := (turnAtanCurve_far hr (by omega) hk.le).2 hfar
    rw [hk, hend.1] at hle
    exact hle

theorem turnMath_laws : turnMath.Laws turnAtanCurve 97 1 where
  width := by decide
  double := rfl
  div := fun _ _ hnumerator hpos => toNat_unsignedDiv (by decide) hnumerator hpos
  clampQuotient := fun quotient => toNat_setWidth_select quotient _ (by decide)
  addSat := toInt_addSat
  bound := by decide
  unit := fun _ hr hbound => toInt_turnAtanUnit hr hbound
  zero := by decide
  nonneg := fun _ hr hbound => turnAtanCurve_nonneg hr hbound
  below := fun _ hr hbound => turnAtanCurve_le hr hbound
  small := by decide
  rises := fun _ _ hr hle hbound => turnAtanCurve_rises hr hle hbound

end Math32

/-! ### Both widths -/

end RunD
