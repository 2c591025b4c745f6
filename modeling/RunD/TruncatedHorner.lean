/-
Polynomials in fixed-point arithmetic, rounded towards zero after each product.

A number stands for itself over a scale.  Horner's rule multiplies, divides by
the scale with truncation and adds the next coefficient, so a value is off the
exact polynomial by a little at every coefficient and need not be monotone where
the polynomial is.  What can be said is how far the value moves while the
argument moves by a step: `drift` carries bounds of the values and of their
difference through the coefficients, in interval arithmetic.  Where a value is
put together from products of several powers, `FallsBy` bounds how far it falls
between any two arguments.
-/
import Mathlib.Tactic.Linarith
import Mathlib.Tactic.Ring
import Mathlib.Tactic.NormNum

namespace RunD.Horner

variable {S : ℤ}

/-! ### Truncated quotients -/

/-- On one side of zero a quotient moves by less than one more than in proportion. -/
theorem mul_tdiv_sub_lt (hS : 0 < S) {x y : ℤ} (h : 0 ≤ x ∧ 0 ≤ y ∨ x ≤ 0 ∧ y ≤ 0) :
    S * (y.tdiv S - x.tdiv S) < y - x + S := by
  have hx := Int.mul_tdiv_add_tmod x S
  have hy := Int.mul_tdiv_add_tmod y S
  have hrest : x.tmod S - y.tmod S < S := by
    rcases h with ⟨-, hypos⟩ | ⟨hxneg, -⟩
    · have hlow := Int.tmod_nonneg S hypos
      have hhigh := Int.tmod_lt_of_pos x hS
      linarith
    · have hhigh := Int.tmod_nonneg S (neg_nonneg.mpr hxneg)
      have hlow := Int.lt_tmod_of_pos y hS
      rw [Int.neg_tmod] at hhigh
      linarith
  rw [mul_sub]
  linarith

/-- A product with an argument up to `top` is within the bounds of its other factor. -/
theorem tdiv_mul_mem (hS : 0 < S) {top lo hi p u : ℤ} (hu : 0 ≤ u) (htop : u ≤ top)
    (hlo : lo ≤ p) (hhi : p ≤ hi) :
    min 0 ((lo * top).tdiv S) ≤ (p * u).tdiv S ∧
      (p * u).tdiv S ≤ max 0 ((hi * top).tdiv S) := by
  refine ⟨?_, ?_⟩
  · rcases le_or_gt 0 p with hp | hp
    · exact (min_le_left _ _).trans (Int.tdiv_nonneg (mul_nonneg hp hu) hS.le)
    · refine (min_le_right _ _).trans (Int.tdiv_le_tdiv hS ?_)
      calc lo * top ≤ p * top := mul_le_mul_of_nonneg_right hlo (hu.trans htop)
        _ ≤ p * u := mul_le_mul_of_nonpos_left htop hp.le
  · rcases le_or_gt p 0 with hp | hp
    · refine le_trans ?_ (le_max_left _ _)
      rw [← Int.zero_tdiv S]
      exact Int.tdiv_le_tdiv hS (mul_nonpos_of_nonpos_of_nonneg hp hu)
    · refine le_trans (Int.tdiv_le_tdiv hS ?_) (le_max_right _ _)
      calc p * u ≤ p * top := mul_le_mul_of_nonneg_left htop hp.le
        _ ≤ hi * top := mul_le_mul_of_nonneg_right hhi (hu.trans htop)

/-! ### Falls -/

/-- Over a distance `m` of the argument the value falls from `x` to `y` by at most `rate` for
each step and `base` once, both over the scale. -/
def FallsBy (S m rate base x y : ℤ) : Prop := S * (x - y) ≤ rate * m + base

variable {m rate base rate' base' x y x' y' : ℤ}

theorem FallsBy.add (h : FallsBy S m rate base x y) (h' : FallsBy S m rate' base' x' y') :
    FallsBy S m (rate + rate') (base + base') (x + x') (y + y') := by
  rw [FallsBy] at h h' ⊢
  linarith

theorem FallsBy.of_le (hS : 0 < S) (h : x ≤ y) : FallsBy S m 0 0 x y := by
  rw [FallsBy, zero_mul, add_zero]
  exact mul_nonpos_of_nonneg_of_nonpos hS.le (sub_nonpos.mpr h)

theorem FallsBy.mono (h : FallsBy S m rate base x y) (hm : 0 ≤ m) (hrate : rate ≤ rate')
    (hbase : base ≤ base') : FallsBy S m rate' base' x y :=
  h.trans (add_le_add (mul_le_mul_of_nonneg_right hrate hm) hbase)

/-- A falling coefficient falls at its own rate, and once by the rounding. -/
theorem fallsBy_mul_coefficient (hS : 0 < S) {c u : ℤ} (hc : c ≤ 0) (hu : 0 ≤ u) (hm : 0 ≤ m) :
    FallsBy S m (-c) S ((c * u).tdiv S) ((c * (u + m)).tdiv S) := by
  have hside : c * (u + m) ≤ 0 ∧ c * u ≤ 0 :=
    ⟨mul_nonpos_of_nonpos_of_nonneg hc (add_nonneg hu hm), mul_nonpos_of_nonpos_of_nonneg hc hu⟩
  have hmove := mul_tdiv_sub_lt hS (Or.inr hside)
  have hproduct : c * u - c * (u + m) = -c * m := by ring
  rw [FallsBy]
  linarith

/-- A product with an argument that grows up to `top` falls in the proportion of `top`, and once
by the rounding. -/
theorem FallsBy.mul (hS : 0 < S) (h : FallsBy S m rate base x y) (hx : 0 ≤ x) (hy : 0 ≤ y)
    (hm : 0 ≤ m) (hrate : 0 ≤ rate) (hbase : 0 ≤ base) {u v top : ℤ} (hu : 0 ≤ u) (huv : u ≤ v)
    (htop : u ≤ top) :
    FallsBy S m (rate * top / S + 1) (base * top / S + 1 + S) ((x * u).tdiv S)
      ((y * v).tdiv S) := by
  have hfall := mul_tdiv_sub_lt hS
    (Or.inl ⟨mul_nonneg hy (hu.trans huv), mul_nonneg hx hu⟩)
  have hmove : x * u - y * v ≤ (x - y) * u := by
    have hle := mul_le_mul_of_nonneg_left huv hy
    linarith
  have hscaled : S * ((x - y) * u) ≤ (rate * m + base) * top := by
    calc S * ((x - y) * u) = S * (x - y) * u := by ring
      _ ≤ (rate * m + base) * u := mul_le_mul_of_nonneg_right h hu
      _ ≤ (rate * m + base) * top :=
          mul_le_mul_of_nonneg_left htop (add_nonneg (mul_nonneg hrate hm) hbase)
  have hround : ∀ a : ℤ, a ≤ S * (a / S + 1) := by
    intro a
    have hdiv := Int.mul_ediv_add_emod a S
    have hrest := Int.emod_lt_of_pos a hS
    linarith
  have hproportion : (x - y) * u ≤ (rate * top / S + 1) * m + (base * top / S + 1) := by
    apply le_of_mul_le_mul_left _ hS
    calc S * ((x - y) * u) ≤ rate * top * m + base * top := by linarith
      _ ≤ S * (rate * top / S + 1) * m + S * (base * top / S + 1) :=
          add_le_add (mul_le_mul_of_nonneg_right (hround _) hm) (hround _)
      _ = S * ((rate * top / S + 1) * m + (base * top / S + 1)) := by ring
  rw [FallsBy]
  linarith

/-! ### Horner's rule -/

/-- The polynomial with the given coefficients, the constant one first. -/
def horner (S u : ℤ) : List ℤ → ℤ
  | [] => 0
  | c :: cs => c + (horner S u cs * u).tdiv S

theorem natAbs_tdiv_mul_le (hS : 0 < S) {u : ℤ} (hu : 0 ≤ u) (hle : u ≤ S) (p : ℤ) :
    ((p * u).tdiv S).natAbs ≤ p.natAbs := by
  have hnat : u.natAbs ≤ S.natAbs := by omega
  rw [Int.natAbs_tdiv, Int.natAbs_mul]
  apply Nat.div_le_of_le_mul
  rw [Nat.mul_comm]
  exact Nat.mul_le_mul_right _ hnat

/-- With an argument up to the scale a value is not above the sum of its coefficients. -/
theorem natAbs_horner_le (hS : 0 < S) {u : ℤ} (hu : 0 ≤ u) (hle : u ≤ S) (cs : List ℤ) :
    (horner S u cs).natAbs ≤ (cs.map Int.natAbs).sum := by
  induction cs with
  | nil => exact le_rfl
  | cons c cs ih =>
      have hterm := natAbs_tdiv_mul_le hS hu hle (horner S u cs)
      rw [horner, List.map_cons, List.sum_cons]
      exact (Int.natAbs_add_le _ _).trans (Nat.add_le_add_left (hterm.trans ih) _)

/-- Bounds of a value, and of what it is less and more one step later. -/
structure Drift where
  lo : ℤ
  hi : ℤ
  fall : ℤ
  rise : ℤ
  deriving DecidableEq, Repr

/-- The bounds after a product with arguments up to `top`, at a step of `h`. -/
def Drift.next (S top h c : ℤ) (d : Drift) : Drift where
  lo := c + min 0 ((d.lo * top).tdiv S)
  hi := c + max 0 ((d.hi * top).tdiv S)
  fall := (h * d.lo + top * min 0 d.fall) / S
  rise := -(-(h * d.hi + top * max 0 d.rise) / S)

def drift (S top h : ℤ) : List ℤ → Drift
  | [] => ⟨0, 0, 0, 0⟩
  | c :: cs => (drift S top h cs).next S top h c

/-- The values before the last coefficient keep their sign, for all coefficients. -/
def Definite (S top h : ℤ) : List ℤ → Prop
  | [] => True
  | _ :: cs =>
      (0 ≤ (drift S top h cs).lo ∨ (drift S top h cs).hi ≤ 0) ∧ Definite S top h cs

instance Definite.decidable (S top h : ℤ) : (cs : List ℤ) → Decidable (Definite S top h cs)
  | [] => isTrue trivial
  | _ :: cs =>
      haveI := Definite.decidable S top h cs
      inferInstanceAs (Decidable (_ ∧ _))

theorem Definite.of_suffix {top h : ℤ} {cs cs' : List ℤ} (hcs : Definite S top h cs)
    (hsuffix : cs' <:+ cs) : Definite S top h cs' := by
  induction cs with
  | nil => rw [List.suffix_nil.mp hsuffix]; exact hcs
  | cons c cs ih =>
      rcases List.suffix_cons_iff.mp hsuffix with rfl | htail
      · exact hcs
      · exact ih hcs.2 htail

/-- A value and the value one step later are within bounds. -/
structure Drift.Holds (d : Drift) (p q : ℤ) : Prop where
  low : d.lo ≤ p ∧ d.lo ≤ q
  high : p ≤ d.hi ∧ q ≤ d.hi
  fall : d.fall ≤ q - p
  rise : q - p ≤ d.rise

theorem Drift.Holds.next (hS : 0 < S) {top h u : ℤ} (hu : 0 ≤ u) (hh : 0 ≤ h)
    (htop : u + h ≤ top) {d : Drift} {p q : ℤ} (hd : d.Holds p q) (hsign : 0 ≤ d.lo ∨ d.hi ≤ 0)
    (c : ℤ) :
    (d.next S top h c).Holds (c + (p * u).tdiv S) (c + (q * (u + h)).tdiv S) := by
  have hup : 0 ≤ u + h := add_nonneg hu hh
  have hle : u ≤ top := (le_add_of_nonneg_right hh).trans htop
  obtain ⟨hplo, hphi⟩ := tdiv_mul_mem hS hu hle hd.low.1 hd.high.1
  obtain ⟨hqlo, hqhi⟩ := tdiv_mul_mem hS hup htop hd.low.2 hd.high.2
  have hside : 0 ≤ p * u ∧ 0 ≤ q * (u + h) ∨ p * u ≤ 0 ∧ q * (u + h) ≤ 0 := by
    rcases hsign with hpos | hneg
    · exact Or.inl ⟨mul_nonneg (hpos.trans hd.low.1) hu, mul_nonneg (hpos.trans hd.low.2) hup⟩
    · exact Or.inr ⟨mul_nonpos_of_nonpos_of_nonneg (hd.high.1.trans hneg) hu,
        mul_nonpos_of_nonpos_of_nonneg (hd.high.2.trans hneg) hup⟩
  have hrise := mul_tdiv_sub_lt hS hside
  have hfall := mul_tdiv_sub_lt hS (hside.imp And.symm And.symm)
  -- the product moves by the step times the factor and the argument times its own move
  have hmove : q * (u + h) - p * u = h * q + u * (q - p) := by ring
  have hlow : h * d.lo + top * min 0 d.fall ≤ h * q + u * (q - p) := by
    apply add_le_add (mul_le_mul_of_nonneg_left hd.low.2 hh)
    calc top * min 0 d.fall ≤ u * min 0 d.fall :=
          mul_le_mul_of_nonpos_right hle (min_le_left _ _)
      _ ≤ u * (q - p) := mul_le_mul_of_nonneg_left ((min_le_right _ _).trans hd.fall) hu
  have hhigh : h * q + u * (q - p) ≤ h * d.hi + top * max 0 d.rise := by
    apply add_le_add (mul_le_mul_of_nonneg_left hd.high.2 hh)
    calc u * (q - p) ≤ u * max 0 d.rise :=
          mul_le_mul_of_nonneg_left (hd.rise.trans (le_max_right _ _)) hu
      _ ≤ top * max 0 d.rise := mul_le_mul_of_nonneg_right hle (le_max_left _ _)
  set D := (q * (u + h)).tdiv S - (p * u).tdiv S with hD
  refine ⟨⟨by simpa [Drift.next] using hplo, by simpa [Drift.next] using hqlo⟩,
    ⟨by simpa [Drift.next] using hphi, by simpa [Drift.next] using hqhi⟩, ?_, ?_⟩
  · show (h * d.lo + top * min 0 d.fall) / S ≤ _
    rw [add_sub_add_left_eq_sub, ← hD]
    apply Int.le_of_lt_add_one
    apply Int.ediv_lt_of_lt_mul hS
    linarith
  · show _ ≤ -(-(h * d.hi + top * max 0 d.rise) / S)
    rw [add_sub_add_left_eq_sub, ← hD]
    apply le_neg_of_le_neg
    apply Int.le_of_lt_add_one
    apply Int.ediv_lt_of_lt_mul hS
    linarith

/-- **The drift bounds the values**, at an argument and one step later. -/
theorem drift_holds (hS : 0 < S) {top h u : ℤ} (hu : 0 ≤ u) (hh : 0 ≤ h) (htop : u + h ≤ top)
    {cs : List ℤ} (hcs : Definite S top h cs) :
    (drift S top h cs).Holds (horner S u cs) (horner S (u + h) cs) := by
  induction cs with
  | nil => exact ⟨⟨le_rfl, le_rfl⟩, ⟨le_rfl, le_rfl⟩, le_rfl, le_rfl⟩
  | cons c cs ih => exact (ih hcs.2).next hS hu hh htop hcs.1 c

end RunD.Horner
