/-
The strict addition is IEEE-754 addition.

The specification is relational and mentions no algorithm: `RoundsNearestEven`
says of a rational number and a word that the word is the number rounded to
nearest, ties to even, with overflow to infinity from half an ulp above the
largest finite value on; `IeeeSum` adds what an addition owes to NaN,
infinity and zero operands.

The proof counts in least subnormals.  The aligned and jammed sum tracks eight
times the exact sum at every even integer (`signedSum_aligned`), the
normalising loops keep it tracking at the multiples of four
(`normalizeDown_spec`, `normalizeUp_spec`), and rounding away three guard bits
then leaves the result within half a unit, even at a tie
(`roundGuardBits_spec`), which is nearest by `nearest_significand`.
-/
import RunD.StrictWord
import RunD.StickyRound
import Mathlib.Tactic.LinearCombination

namespace RunD

variable {F : Format}

/-! ### The specification -/

/-- The magnitude from which rounding to nearest overflows: half a unit in the last place above
the largest finite number. -/
def Format.overflowThreshold (F : Format) : ℚ :=
  (2 : ℚ) ^ F.exponentBias * (2 - (2 : ℚ) ^ (-(F.fractionBits + 1 : ℤ)))

/-- The value of a word. -/
def Format.value (F : Format) (bits : UInt64) : ℚ := (decode bits F).value F

/-- `r` is the word of `x` rounded to nearest, ties to even. -/
def RoundsNearestEven (F : Format) (x : ℚ) (r : UInt64) : Prop :=
  if F.overflowThreshold ≤ |x| then
    r = infinity (decide (x < 0)) F
  else
    (decode r F).Finite ∧ r.toNat < 2 ^ F.width ∧
      (∀ y, (decode y F).Finite → |x - F.value r| ≤ |x - F.value y|) ∧
      (∀ y, (decode y F).Finite → F.value y ≠ F.value r →
        |x - F.value r| = |x - F.value y| → r.toNat % 2 = 0)

/-- `r` is what IEEE-754 addition under `policy` makes of `a` and `b`. -/
structure IeeeSum (F : Format) (policy : StrictFloatReductionPolicy) (a b r : UInt64) : Prop where
  /-- A NaN operand, or two opposite infinities, give the canonical NaN. -/
  nan : (decode a F).nan ∨ (decode b F).nan ∨
      ((decode a F).inf ∧ (decode b F).inf ∧ (decode a F).sign ≠ (decode b F).sign) →
    r = F.canonicalNan
  /-- Otherwise an infinite operand is the sum. -/
  inf_left : (decode a F).inf → ¬ (decode b F).nan →
      ((decode b F).inf → (decode a F).sign = (decode b F).sign) →
    r = infinity (decode a F).sign F
  inf_right : (decode b F).inf → ¬ (decode a F).nan →
      ((decode a F).inf → (decode a F).sign = (decode b F).sign) →
    r = infinity (decode b F).sign F
  /-- A zero sum of finite operands is positive, unless the policy preserves the sign of two
  negative zeros. -/
  zero : (decode a F).Finite → (decode b F).Finite → F.value a + F.value b = 0 →
    r = zero (policy.signedZeroPolicy == .preserveOnlyWhenBothNegative &&
      (decode a F).zero && (decode b F).zero && (decode a F).sign && (decode b F).sign) F
  /-- Any other sum of finite operands is rounded to nearest, ties to even. -/
  finite : (decode a F).Finite → (decode b F).Finite → F.value a + F.value b ≠ 0 →
    RoundsNearestEven F (F.value a + F.value b) r

/-! ### The aligned sum tracks the exact sum -/

theorem shiftRightJam128_eq_jam {v : ℕ} (hv : v < 2 ^ 127) (s : ℕ) :
    shiftRightJam128 v s = jam v s := by
  unfold shiftRightJam128
  split
  · simp [*, jam_zero]
  split
  · next hbig =>
    have hlt : v < 2 ^ s := lt_of_lt_of_le hv (Nat.pow_le_pow_right (by omega) hbig)
    by_cases h0 : v = 0
    · simp [h0, jam]
    · simp [h0, jam, Nat.mod_eq_of_lt hlt, Nat.div_eq_of_lt hlt]
  · rw [Nat.shiftRight_eq_div_pow, jam]
    by_cases h : v % 2 ^ s = 0
    · simp [h]
    · simp [h, or_one_eq]

/-- The guard bits of a mantissa of a lawful format leave room for every sticky shift. -/
theorem Decoded.InRange.guarded_lt {d : Decoded} (hF : F.Lawful) (hd : d.InRange F) :
    8 * d.mantissa < 2 ^ 127 := by
  have hfits := hF.fits
  have hm := hd.mantissa_lt
  have : 2 ^ (F.fractionBits + 1) ≤ 2 ^ 64 := Nat.pow_le_pow_right (by omega) (by omega)
  omega

theorem Decoded.InRange.places_eq {d : Decoded} (hd : d.InRange F) :
    ((d.places F : ℕ) : ℤ) = d.exponent - (1 - F.exponentBias) := by
  have := hd.exponent_ge
  rw [Decoded.places, Int.toNat_of_nonneg (by omega)]

/-- Alignment is a sticky shift by the difference in places. -/
theorem alignedMantissa_eq {d : Decoded} (hF : F.Lawful) (hd : d.InRange F) {e : ℤ} {k : ℕ}
    (hk : (k : ℤ) = e - (1 - F.exponentBias)) :
    alignedMantissa e d = d.signum * (jam (8 * d.mantissa) (k - d.places F) : ℕ) := by
  have hshift : (e - d.exponent).toNat = k - d.places F := by
    have := hd.places_eq
    omega
  have hguard : d.mantissa <<< kAddGuardBits = 8 * d.mantissa := by
    rw [Nat.shiftLeft_eq, kAddGuardBits]
    omega
  simp only [alignedMantissa, hguard, hshift, shiftRightJam128_eq_jam (hd.guarded_lt hF),
    Decoded.signum]
  split <;> simp

theorem Decoded.signum_cases (d : Decoded) : d.signum = 1 ∨ d.signum = -1 := by
  unfold Decoded.signum
  split <;> simp

section Aligned

variable {a b : Decoded}

/-- What alignment keeps of an exact sum: the aligned sum tracks the even integers, and when a
bit was lost it is so large that at most one normalising shift to the left follows. -/
structure Aligned (F : Format) (t : ℤ) (k : ℕ) (s : ℤ) : Prop where
  tracks : Tracks 2 k t (8 * s)
  exact_or_large : t * 2 ^ k = 8 * s ∨ 4 * 2 ^ F.fractionBits < |t|

/-- The operand with more places is exact, the other one is jammed. -/
theorem aligned_of_places_le (ha : a.InRange F) (hb : b.InRange F)
    (hle : b.places F ≤ a.places F) :
    Aligned F (a.signum * (8 * a.mantissa : ℕ) +
        b.signum * (jam (8 * b.mantissa) (a.places F - b.places F) : ℕ))
      (a.places F) (a.ulps F + b.ulps F) := by
  obtain ⟨d, hd⟩ := Nat.exists_eq_add_of_le hle
  rw [hd, Nat.add_sub_cancel_left]
  have hsum : 8 * (a.ulps F + b.ulps F) =
      (a.signum * (4 * a.mantissa)) * (2 : ℕ) * 2 ^ (d + b.places F) +
        b.signum * (8 * b.mantissa : ℕ) * 2 ^ b.places F := by
    rw [Decoded.ulps, Decoded.ulps, hd, Nat.add_comm d]
    push_cast
    ring
  have hleft : a.signum * (8 * a.mantissa : ℕ) = (a.signum * (4 * a.mantissa)) * (2 : ℕ) := by
    push_cast
    ring
  have hright : Tracks 2 d (b.signum * (jam (8 * b.mantissa) d : ℕ))
      (b.signum * (8 * b.mantissa : ℕ)) := by
    rcases b.signum_cases with h | h
    · simpa only [h, one_mul] using tracks_jam (8 * b.mantissa) d
    · simpa only [h, neg_one_mul] using (tracks_jam (8 * b.mantissa) d).neg
  constructor
  · rw [hsum, hleft, Nat.add_comm (b.places F) d]
    exact (hright.scale (b.places F)).add_multiple _
  · by_cases hlost : 8 * b.mantissa % 2 ^ d = 0
    · -- nothing was shifted out
      left
      have hback : ((jam (8 * b.mantissa) d : ℕ) : ℤ) * 2 ^ d = (8 * b.mantissa : ℕ) := by
        exact_mod_cast jam_mul_eq hlost
      rw [hsum, ← hback, hleft, Nat.add_comm (b.places F) d, pow_add]
      ring
    · -- a lost bit needs four places of difference, so the other operand is normal
      right
      have hd4 : 4 ≤ d := by
        by_contra hlt
        apply hlost
        have hdvd : 2 ^ d ∣ 2 ^ 3 := pow_dvd_pow 2 (by omega)
        exact Nat.mod_eq_zero_of_dvd (Dvd.dvd.mul_right (by simpa using hdvd) _)
      have hnormal : 2 ^ F.fractionBits ≤ a.mantissa := by
        rcases ha.normal with h | h
        · have := ha.places_eq
          omega
        · exact h
      have hsmall : jam (8 * b.mantissa) d ≤ 2 ^ F.fractionBits := by
        have hm := hb.mantissa_lt
        rw [pow_succ] at hm
        have hdiv : 8 * b.mantissa / 2 ^ d < 2 ^ F.fractionBits := by
          rw [Nat.div_lt_iff_lt_mul (Nat.two_pow_pos d)]
          have h16 : 2 ^ 4 ≤ 2 ^ d := Nat.pow_le_pow_right (by omega) hd4
          calc 8 * b.mantissa < 2 ^ F.fractionBits * 2 ^ 4 := by omega
            _ ≤ 2 ^ F.fractionBits * 2 ^ d := Nat.mul_le_mul_left _ h16
        have := jam_le (8 * b.mantissa) d
        omega
      have hA : (2 : ℤ) ^ F.fractionBits ≤ a.mantissa := by exact_mod_cast hnormal
      have hJ : ((jam (8 * b.mantissa) d : ℕ) : ℤ) ≤ 2 ^ F.fractionBits := by exact_mod_cast hsmall
      have hJ0 : (0 : ℤ) ≤ (jam (8 * b.mantissa) d : ℕ) := Int.natCast_nonneg _
      have hpos : (0 : ℤ) < 2 ^ F.fractionBits := by positivity
      rw [lt_abs]
      push_cast
      rcases a.signum_cases with h | h
      · left
        rcases b.signum_cases with h' | h' <;> rw [h, h'] <;> linarith
      · right
        rcases b.signum_cases with h' | h' <;> rw [h, h'] <;> linarith

/-- The sum before normalisation, in the terms of the exact sum. -/
theorem signedSum_aligned (hF : F.Lawful) (ha : a.InRange F) (hb : b.InRange F) :
    Aligned F (alignedMantissa (max a.exponent b.exponent) a +
        alignedMantissa (max a.exponent b.exponent) b)
      (max (a.places F) (b.places F)) (a.ulps F + b.ulps F) := by
  have hk : ((max (a.places F) (b.places F) : ℕ) : ℤ) =
      max a.exponent b.exponent - (1 - F.exponentBias) := by
    have := ha.places_eq
    have := hb.places_eq
    push_cast
    omega
  rw [alignedMantissa_eq hF ha hk, alignedMantissa_eq hF hb hk]
  rcases le_total (b.places F) (a.places F) with h | h
  · rw [max_eq_left h, Nat.sub_self, jam_zero]
    exact aligned_of_places_le ha hb h
  · rw [max_eq_right h, Nat.sub_self, jam_zero, add_comm, add_comm (a.ulps F)]
    exact aligned_of_places_le hb ha h

end Aligned

/-- The magnitude of an aligned sum, and its sign. -/
theorem Aligned.natAbs {t s : ℤ} {k : ℕ} (h : Aligned F t k s) :
    Tracks 2 k (t.natAbs : ℤ) (8 * (s.natAbs : ℤ)) ∧
      ((t.natAbs : ℤ) * 2 ^ k = 8 * (s.natAbs : ℤ) ∨ 4 * 2 ^ F.fractionBits < t.natAbs) ∧
      (t = 0 ↔ s = 0) ∧ (t < 0 ↔ s < 0) := by
  have hle : 0 ≤ t ↔ 0 ≤ s := by
    have := h.tracks.le_iff (c := 0) 0 (by simp)
    omega
  have hge : t ≤ 0 ↔ s ≤ 0 := by
    have := h.tracks.ge_iff (c := 0) 0 (by simp)
    omega
  have hlarge : 4 * 2 ^ F.fractionBits < |t| ↔ 4 * 2 ^ F.fractionBits < t.natAbs := by
    rw [Int.abs_eq_natAbs]
    exact_mod_cast Iff.rfl
  refine ⟨?_, ?_, by omega, by omega⟩
  · rcases le_total 0 t with h0 | h0
    · rw [Int.natAbs_of_nonneg h0, Int.natAbs_of_nonneg (hle.mp h0)]
      exact h.tracks
    · rw [Int.ofNat_natAbs_of_nonpos h0, Int.ofNat_natAbs_of_nonpos (hge.mp h0), mul_neg]
      exact h.tracks.neg
  · rw [← hlarge]
    refine h.exact_or_large.imp_left fun hexact => ?_
    rcases le_total 0 t with h0 | h0
    · rw [Int.natAbs_of_nonneg h0, Int.natAbs_of_nonneg (hle.mp h0), hexact]
    · rw [Int.ofNat_natAbs_of_nonpos h0, Int.ofNat_natAbs_of_nonpos (hge.mp h0), mul_neg,
        ← hexact, neg_mul]

/-! ### Normalising -/

theorem normalizeDown_spec (F : Format) {k : ℕ} {n : ℤ} (m : ℕ) (e : ℤ)
    (h : Tracks 2 k m n) :
    ∃ i : ℕ, (normalizeDown F m e).2 = e + i ∧
      Tracks 2 (k + i) ((normalizeDown F m e).1 : ℕ) n ∧
      (normalizeDown F m e).1 < normalizedMax F ∧
      (i = 0 ∧ (normalizeDown F m e).1 = m ∨ normalizedMin F ≤ (normalizeDown F m e).1) := by
  induction m, e using normalizeDown.induct F generalizing k with
  | case1 m e hge ih =>
      have hjam : shiftRightJam128 m 1 = jam m 1 := by
        by_cases hm : m % 2 = 0
        · simp [shiftRightJam128, jam, hm, Nat.shiftRight_eq_div_pow]
        · simp [shiftRightJam128, jam, hm, Nat.shiftRight_eq_div_pow, or_one_eq]
      rw [hjam] at ih
      obtain ⟨i, he, htracks, hlt, hmin⟩ := ih h.jam_one
      rw [normalizeDown, dif_pos hge, hjam]
      refine ⟨i + 1, by rw [he]; push_cast; ring, ?_, hlt, Or.inr ?_⟩
      · rw [show k + (i + 1) = k + 1 + i by omega]
        exact htracks
      · rcases hmin with ⟨-, heq⟩ | hmin
        · rw [heq, normalizedMin_eq, jam]
          rw [normalizedMax_eq] at hge
          split <;> omega
        · exact hmin
  | case2 m e hlt =>
      rw [normalizeDown, dif_neg hlt]
      exact ⟨0, by simp, h, by omega, Or.inl ⟨rfl, rfl⟩⟩

theorem normalizeUp_spec (F : Format) (k : ℕ) (m : ℕ) (e : ℤ)
    (hk : (k : ℤ) = e - (1 - F.exponentBias)) (hm : m < normalizedMax F) :
    ∃ i : ℕ, i ≤ k ∧ normalizeUp F m e = (m * 2 ^ i, e - i) ∧
      m * 2 ^ i < normalizedMax F ∧ (normalizedMin F ≤ m * 2 ^ i ∨ i = k) ∧
      (i = 0 ∨ m * 2 ^ (i - 1) < normalizedMin F) := by
  induction m, e using normalizeUp.induct F generalizing k with
  | case1 m e hcond ih =>
      obtain ⟨hsmall, hexp⟩ := hcond
      have hshift : m <<< 1 = m * 2 := by rw [Nat.shiftLeft_eq, pow_one]
      obtain ⟨k, rfl⟩ : ∃ k', k = k' + 1 := ⟨k - 1, by omega⟩
      rw [hshift] at ih
      obtain ⟨i, hik, heq, hlt, hstop, hleast⟩ := ih k (by push_cast at hk; omega) (by
        rw [normalizedMin_eq] at hsmall
        rw [normalizedMax_eq]
        omega)
      have hpow : m * 2 * 2 ^ i = m * 2 ^ (i + 1) := by rw [pow_succ]; ring
      rw [normalizeUp, if_pos ⟨hsmall, hexp⟩, hshift, heq, hpow]
      rw [hpow] at hlt hstop
      refine ⟨i + 1, by omega, ?_, hlt, hstop.imp_right (by omega), Or.inr ?_⟩
      · congr 1
        push_cast
        ring
      · rcases hleast with rfl | hleast
        · simpa using hsmall
        · have : m * 2 * 2 ^ (i - 1) < normalizedMin F := hleast
          rcases i with - | i
          · simpa using hsmall
          · rw [Nat.add_sub_cancel] at this ⊢
            rwa [pow_succ, mul_comm (2 ^ i), ← mul_assoc]
  | case2 m e hcond =>
      rw [normalizeUp, if_neg hcond]
      refine ⟨0, by omega, by simp, by simpa using hm, ?_, Or.inl rfl⟩
      simp only [pow_zero, mul_one]
      omega

/-- After both loops the mantissa tracks eight times the magnitude at the multiples of four, and
is either normalised or at the least exponent. -/
theorem normalize_spec (F : Format) {t s k : ℕ} {e : ℤ}
    (hk : (k : ℤ) = e - (1 - F.exponentBias))
    (htracks : Tracks 2 k (t : ℤ) (8 * (s : ℤ)))
    (hlarge : (t : ℤ) * 2 ^ k = 8 * (s : ℤ) ∨ 4 * 2 ^ F.fractionBits < t) :
    ∃ m k' : ℕ,
      normalizeUp F (normalizeDown F t e).1 (normalizeDown F t e).2 =
        (m, 1 - F.exponentBias + k') ∧
      Tracks 4 k' (m : ℤ) (8 * (s : ℤ)) ∧ m < normalizedMax F ∧
      (normalizedMin F ≤ m ∨ k' = 0) := by
  obtain ⟨i, he, htr, hlt, hdown⟩ := normalizeDown_spec F t e htracks
  generalize (normalizeDown F t e).1 = m₁ at *
  rw [he]
  obtain ⟨l, hl, hup, hlt', hstop, hleast⟩ :=
    normalizeUp_spec F (k + i) m₁ (e + i) (by push_cast; omega) hlt
  refine ⟨m₁ * 2 ^ l, k + i - l, ?_, ?_, hlt', hstop.imp_right (by omega)⟩
  · rw [hup]
    congr 1
    omega
  rcases l with - | l
  · -- no shift to the left
    rw [pow_zero, mul_one, Nat.sub_zero]
    exact htr.coarsen 2
  have hsmall : m₁ < normalizedMin F := by
    rcases hleast with h | h
    · omega
    · have := Nat.le_mul_of_pos_right m₁ (Nat.two_pow_pos (l + 1 - 1))
      omega
  -- a left shift after a right shift is impossible
  obtain ⟨rfl, rfl⟩ : i = 0 ∧ m₁ = t := by
    rcases hdown with h | h
    · exact h
    · omega
  obtain ⟨k₀, rfl⟩ : ∃ k₀, k = k₀ + (l + 1) := ⟨k - (l + 1), by omega⟩
  rw [show k₀ + (l + 1) + 0 - (l + 1) = k₀ by omega]
  rcases hlarge with hexact | hlarge
  · refine tracks_exact ?_
    rw [← hexact, pow_add]
    push_cast
    ring
  · -- a bit was lost: exactly one shift
    obtain rfl : l = 0 := by
      rcases l with - | l
      · rfl
      rcases hleast with h | h
      · omega
      rw [normalizedMin_eq, Nat.add_sub_cancel, pow_succ, ← mul_assoc] at h
      have := Nat.le_mul_of_pos_right m₁ (Nat.two_pow_pos l)
      omega
    have hdouble := Tracks.double (k := k₀) htr
    rw [show ((m₁ * 2 ^ (0 + 1) : ℕ) : ℤ) = 2 * m₁ by push_cast; ring]
    exact hdouble

/-! ### Rounding -/

theorem roundGuardBits_spec (m : ℕ) :
    8 * roundGuardBits m ≤ m + 4 ∧ m ≤ 8 * roundGuardBits m + 4 ∧
      (m + 4 = 8 * roundGuardBits m ∨ m = 8 * roundGuardBits m + 4 →
        roundGuardBits m % 2 = 0) := by
  simp only [roundGuardBits, kAddGuardBits, Nat.shiftRight_eq_div_pow]
  split <;> omega

/-- The rounded magnitude leaves the range of finite numbers. -/
def Overflows (F : Format) (k m : ℕ) : Prop :=
  F.exponentMax ≤ k + 1 ∨ roundGuardBits m = 2 ^ (F.fractionBits + 1) ∧ F.exponentMax ≤ k + 2

/-- A word composed from fields that are not the largest exponent is the finite word with the
mantissa and the places those fields say. -/
theorem Format.Lawful.compose_finite (hF : F.Lawful) (sign : Bool) {raw m k : ℕ}
    {fraction : ℕ} (hraw : raw < F.exponentMax) (hfrac : fraction < 2 ^ F.fractionBits)
    (hvalue : raw = 0 ∧ k = 0 ∧ m = fraction ∨
      raw = k + 1 ∧ m = 2 ^ F.fractionBits + fraction) :
    (decode (compose sign raw (UInt64.ofNat fraction) F) F).Finite ∧
      (compose sign raw (UInt64.ofNat fraction) F).toNat < 2 ^ F.width ∧
      (decode (compose sign raw (UInt64.ofNat fraction) F) F).ulps F =
        (if sign then -1 else 1) * (m * 2 ^ k) ∧
      (compose sign raw (UInt64.ofNat fraction) F).toNat % 2 = m % 2 := by
  have hfits := hF.fits
  have hfpos := hF.fractionPos
  have hraw' : raw < 2 ^ F.exponentBits := by
    have := hF.exponentMax
    omega
  have hlow : (UInt64.ofNat fraction).toNat % 2 ^ F.fractionBits = fraction := by
    have : 2 ^ F.fractionBits ≤ 2 ^ 64 := Nat.pow_le_pow_right (by omega) (by omega)
    rw [UInt64.toNat_ofNat', Nat.mod_eq_of_lt (by omega : fraction < 2 ^ 64),
      Nat.mod_eq_of_lt hfrac]
  have hE := hF.rawExponent_compose sign hraw' (UInt64.ofNat fraction)
  have hS := hF.signBit_compose sign hraw' (UInt64.ofNat fraction)
  have hM := hF.fraction_compose sign hraw' (UInt64.ofNat fraction)
  have hword := hF.compose_toNat sign hraw' (UInt64.ofNat fraction)
  have hlt := hF.compose_lt sign hraw' (UInt64.ofNat fraction)
  rw [hlow] at hM hword
  generalize compose sign raw (UInt64.ofNat fraction) F = r at *
  have hfin : (decode r F).Finite := (hF.finite_iff r).mpr (by omega)
  have hsign : (decide (F.signBit r = 1)) = sign := by
    rw [hS]
    cases sign <;> rfl
  have hparity : r.toNat % 2 = fraction % 2 := by
    obtain ⟨f, hf⟩ : ∃ f, F.fractionBits = f + 1 := ⟨F.fractionBits - 1, by omega⟩
    rw [hword, hf, pow_succ, show F.exponentBits + (f + 1) = F.exponentBits + f + 1 by omega,
      pow_succ, ← mul_assoc, ← mul_assoc]
    omega
  refine ⟨hfin, hlt, ?_, ?_⟩
  · rw [hF.decode_eq, if_neg (by omega), hE, hM, hsign]
    rcases hvalue with ⟨rfl, rfl, rfl⟩ | ⟨rfl, rfl⟩
    · rw [if_pos rfl]
      simp [Decoded.ulps, Decoded.places, Decoded.signum]
    · rw [if_neg (by omega)]
      have hplaces : (((k + 1 : ℕ) : ℤ) - F.exponentBias - (1 - F.exponentBias)).toNat = k := by
        omega
      simp only [Decoded.ulps, Decoded.places, Decoded.signum, hplaces]
  · rw [hparity]
    rcases hvalue with ⟨-, -, rfl⟩ | ⟨-, rfl⟩
    · rfl
    · obtain ⟨f, hf⟩ : ∃ f, F.fractionBits = f + 1 := ⟨F.fractionBits - 1, by omega⟩
      rw [hf, pow_succ]
      omega

/-- The composed word: an infinity on overflow, otherwise the finite word whose value is the
rounded mantissa in its place. -/
theorem composeRoundedNormal_spec (hF : F.Lawful) (sign : Bool) {k m : ℕ}
    (hlt : m < normalizedMax F) (hnorm : normalizedMin F ≤ m ∨ k = 0) :
    (Overflows F k m →
      composeRoundedNormal sign (1 - F.exponentBias + k) m F = infinity sign F) ∧
    (¬ Overflows F k m →
      (decode (composeRoundedNormal sign (1 - F.exponentBias + k) m F) F).Finite ∧
      (composeRoundedNormal sign (1 - F.exponentBias + k) m F).toNat < 2 ^ F.width ∧
      (decode (composeRoundedNormal sign (1 - F.exponentBias + k) m F) F).ulps F =
        (if sign then -1 else 1) * (roundGuardBits m * 2 ^ k) ∧
      ((composeRoundedNormal sign (1 - F.exponentBias + k) m F).toNat % 2 =
        roundGuardBits m % 2)) := by
  obtain ⟨hlo, hhi, -⟩ := roundGuardBits_spec m
  rw [normalizedMax_eq] at hlt
  rw [normalizedMin_eq] at hnorm
  have hpow : 2 ^ (F.fractionBits + 1) = 2 * 2 ^ F.fractionBits := by rw [pow_succ, mul_comm]
  have hpos := Nat.two_pow_pos F.fractionBits
  have hE := hF.exponentMax_ge
  simp only [Overflows, composeRoundedNormal, hpow]
  generalize roundGuardBits m = R at *
  by_cases hcarry : R = 2 * 2 ^ F.fractionBits
  · -- the carry leaves the hidden bit of the next binade
    have hhalf : R >>> 1 = 2 ^ F.fractionBits := by
      rw [Nat.shiftRight_eq_div_pow]
      omega
    have hge : 2 * 2 ^ F.fractionBits ≤ R := hcarry.ge
    simp only [hge, if_true, hhalf]
    constructor
    · intro hover
      rw [if_pos (by omega)]
    · intro hfin
      rw [if_neg (by omega), if_neg (by omega), Nat.sub_self]
      have hraw : (1 - F.exponentBias + (k : ℤ) + 1 + F.exponentBias).toNat = k + 2 := by omega
      rw [hraw]
      have hroom : k + 2 < F.exponentMax := by omega
      obtain ⟨h1, h2, h3, h4⟩ := hF.compose_finite sign (k := k + 1) (m := 2 ^ F.fractionBits)
        hroom hpos (Or.inr ⟨rfl, rfl⟩)
      refine ⟨h1, h2, ?_, ?_⟩
      · rw [h3, hcarry, pow_succ]
        push_cast
        ring
      · have hfpos := hF.fractionPos
        obtain ⟨f, hf⟩ : ∃ f, F.fractionBits = f + 1 := ⟨F.fractionBits - 1, by omega⟩
        rw [h4, hcarry, hf, pow_succ]
        omega
  · have hRlt : R < 2 * 2 ^ F.fractionBits := by omega
    simp only [hcarry, false_and, or_false, not_le.mpr hRlt, if_false]
    have hraw : 1 - F.exponentBias + (k : ℤ) + F.exponentBias = ((k + 1 : ℕ) : ℤ) := by
      push_cast
      ring
    rw [hraw]
    constructor
    · intro hover
      rw [if_pos (by exact_mod_cast hover)]
    · intro hfin
      rw [if_neg (by exact_mod_cast hfin)]
      by_cases hsub : R < 2 ^ F.fractionBits
      · -- below the hidden bit: a subnormal, at the least exponent
        have hk : k = 0 := by omega
        rw [if_pos (Or.inr hsub)]
        exact hF.compose_finite sign (by omega) hsub (Or.inl ⟨rfl, hk, rfl⟩)
      · rw [if_neg (by push_cast; omega), Int.toNat_natCast]
        exact hF.compose_finite sign (by omega) (by omega) (Or.inr ⟨rfl, by omega⟩)

/-! ### Overflow happens at the threshold -/

theorem Format.Lawful.exponentMax_eq_bias (hF : F.Lawful) :
    (F.exponentMax : ℤ) = 2 * F.exponentBias + 1 := by
  have hpos := hF.exponentPos
  obtain ⟨e, he⟩ : ∃ e, F.exponentBits = e + 1 := ⟨F.exponentBits - 1, by omega⟩
  have := Nat.two_pow_pos e
  rw [hF.exponentMax, hF.exponentBias, he, Nat.add_sub_cancel, pow_succ]
  push_cast [Nat.cast_sub (by omega : 1 ≤ 2 ^ e * 2)]
  ring

/-- The overflow threshold in eighths of the least subnormal. -/
theorem Format.Lawful.overflowThreshold_eq (hF : F.Lawful) :
    8 * F.overflowThreshold =
      ((16 * 2 ^ F.fractionBits - 4) * 2 ^ (F.exponentMax - 2) : ℤ) * F.leastSubnormal := by
  have hX := hF.exponentMax_ge
  have hbias := hF.exponentMax_eq_bias
  have htop : (2 : ℚ) ^ (F.exponentMax - 2) = (2 : ℚ) ^ (2 * F.exponentBias - 1) := by
    rw [← zpow_natCast]
    congr 1
    omega
  have hsplit : (2 : ℚ) ^ (2 * F.exponentBias - 1) * (2 : ℚ) ^ (1 - F.exponentBias - F.fractionBits)
      = (2 : ℚ) ^ F.exponentBias * (2 : ℚ) ^ (-(F.fractionBits : ℤ)) := by
    rw [← zpow_add₀ (by norm_num), ← zpow_add₀ (by norm_num)]
    congr 1
    ring
  have hcancel : (2 : ℚ) ^ F.fractionBits * (2 : ℚ) ^ (-(F.fractionBits : ℤ)) = 1 := by
    rw [zpow_neg, zpow_natCast]
    exact mul_inv_cancel₀ (by positivity)
  have hhalf : (2 : ℚ) ^ (-(F.fractionBits + 1 : ℤ)) = (2 : ℚ) ^ (-(F.fractionBits : ℤ)) / 2 := by
    rw [neg_add, zpow_add₀ (by norm_num)]
    norm_num
    ring
  rw [Format.overflowThreshold, Format.leastSubnormal, hhalf]
  push_cast
  rw [htop, mul_assoc, hsplit]
  linear_combination (-16 * (2 : ℚ) ^ F.exponentBias) * hcancel

section Rounded

variable {k m s : ℕ} (hF : F.Lawful) (htracks : Tracks 4 k (m : ℤ) (8 * (s : ℤ)))
  (hlt : m < normalizedMax F) (hnorm : normalizedMin F ≤ m ∨ k = 0)
include hF htracks hlt hnorm

theorem overflows_iff : Overflows F k m ↔
    (16 * 2 ^ F.fractionBits - 4) * 2 ^ (F.exponentMax - 2) ≤ 8 * (s : ℤ) := by
  obtain ⟨hlo, hhi, htie⟩ := roundGuardBits_spec m
  have hX := hF.exponentMax_ge
  have hposN := Nat.two_pow_pos F.fractionBits
  have hpos : (1 : ℤ) ≤ 2 ^ F.fractionBits := by exact_mod_cast hposN
  rw [normalizedMax_eq] at hlt
  rw [normalizedMin_eq] at hnorm
  have hpow : 2 ^ (F.fractionBits + 1) = 2 * 2 ^ F.fractionBits := by rw [pow_succ, mul_comm]
  rw [Overflows, hpow]
  -- a normal mantissa with a higher exponent is above the threshold
  have hhigh : 8 * 2 ^ F.fractionBits ≤ m → F.exponentMax - 2 + 1 ≤ k →
      (16 * 2 ^ F.fractionBits - 4) * 2 ^ (F.exponentMax - 2) ≤ 8 * (s : ℤ) := by
    intro hm hk
    have hm' : (8 * 2 ^ F.fractionBits : ℤ) ≤ m := by exact_mod_cast hm
    have h8 := (htracks.le_iff (2 * 2 ^ F.fractionBits) (by push_cast; ring)).mp hm'
    have hstep : (2 : ℤ) ^ (F.exponentMax - 2 + 1) ≤ 2 ^ k :=
      pow_le_pow_right₀ (by norm_num) hk
    rw [pow_succ] at hstep
    have hB : (0 : ℤ) < 2 ^ (F.exponentMax - 2) := by positivity
    calc (16 * 2 ^ F.fractionBits - 4) * 2 ^ (F.exponentMax - 2)
        ≤ (8 * 2 ^ F.fractionBits : ℤ) * (2 ^ (F.exponentMax - 2) * 2) := by linarith
      _ ≤ 8 * 2 ^ F.fractionBits * 2 ^ k := mul_le_mul_of_nonneg_left hstep (by positivity)
      _ ≤ 8 * (s : ℤ) := h8
  constructor
  · rintro (hk | ⟨hR, hk⟩)
    · exact hhigh (by omega) (by omega)
    · by_cases hk' : F.exponentMax = k + 2
      · -- rounding carried into the first exponent that is too large
        have hm : (16 * 2 ^ F.fractionBits - 4 : ℤ) ≤ m := by
          have : 16 * 2 ^ F.fractionBits ≤ m + 4 := by omega
          have : (16 * 2 ^ F.fractionBits : ℤ) ≤ m + 4 := by exact_mod_cast this
          linarith
        have h8 := (htracks.le_iff (4 * 2 ^ F.fractionBits - 1) (by push_cast; ring)).mp hm
        rw [hk', Nat.add_sub_cancel]
        exact h8
      · exact hhigh (by omega) (by omega)
  · intro hbig
    by_contra hno
    rw [not_or, not_and_or, not_le, not_le] at hno
    obtain ⟨hk, hR⟩ := hno
    by_cases hk' : F.exponentMax = k + 2
    · -- in the last binade the rounded mantissa is odd or below the largest
      have hm : ¬ (16 * 2 ^ F.fractionBits - 4 : ℤ) ≤ m := by
        intro hge
        have : 16 * 2 ^ F.fractionBits ≤ m + 4 := by
          have : (16 * 2 ^ F.fractionBits : ℤ) ≤ m + 4 := by linarith
          exact_mod_cast this
        omega
      rw [hk', Nat.add_sub_cancel] at hbig
      exact hm ((htracks.le_iff (4 * 2 ^ F.fractionBits - 1) (by push_cast; ring)).mpr hbig)
    · have hm : ¬ (16 * 2 ^ F.fractionBits : ℤ) ≤ m := by
        have : ¬ 16 * 2 ^ F.fractionBits ≤ m := by omega
        exact_mod_cast this
      have h8 := mt (htracks.le_iff (4 * 2 ^ F.fractionBits) (by push_cast; ring)).mpr hm
      rw [not_le] at h8
      have hstep : (2 : ℤ) ^ (k + 1) ≤ 2 ^ (F.exponentMax - 2) :=
        pow_le_pow_right₀ (by norm_num) (by omega)
      rw [pow_succ] at hstep
      have hunit : (2 : ℤ) ^ k ≤ 2 ^ F.fractionBits * 2 ^ k :=
        le_mul_of_one_le_left (by positivity) hpos
      have hbelow : 8 * (s : ℤ) < 8 * s :=
        calc 8 * (s : ℤ) < 16 * 2 ^ F.fractionBits * 2 ^ k := h8
          _ ≤ (16 * 2 ^ F.fractionBits - 4) * (2 ^ k * 2) := by linarith
          _ ≤ (16 * 2 ^ F.fractionBits - 4) * 2 ^ (F.exponentMax - 2) :=
            mul_le_mul_of_nonneg_left hstep (by linarith)
          _ ≤ 8 * s := hbig
      exact lt_irrefl _ hbelow

omit hF hlt in
/-- The rounded mantissa is within half a unit of the exact magnitude, and even at a tie. -/
theorem rounded_near :
    (8 * (roundGuardBits m : ℤ) - 4) * 2 ^ k ≤ 8 * s ∧
      8 * (s : ℤ) ≤ (8 * roundGuardBits m + 4) * 2 ^ k ∧
      (8 * (s : ℤ) = (8 * roundGuardBits m - 4) * 2 ^ k ∨
        8 * (s : ℤ) = (8 * roundGuardBits m + 4) * 2 ^ k → roundGuardBits m % 2 = 0) ∧
      (k = 0 ∨ (2 : ℤ) ^ (F.fractionBits + k) ≤ s) := by
  obtain ⟨hlo, hhi, htie⟩ := roundGuardBits_spec m
  generalize roundGuardBits m = R at *
  have hbelow := htracks.le_iff (c := 8 * (R : ℤ) - 4) (2 * R - 1) (by push_cast; ring)
  have habove := htracks.ge_iff (c := 8 * (R : ℤ) + 4) (2 * R + 1) (by push_cast; ring)
  have hbelow' := htracks.ge_iff (c := 8 * (R : ℤ) - 4) (2 * R - 1) (by push_cast; ring)
  have habove' := htracks.le_iff (c := 8 * (R : ℤ) + 4) (2 * R + 1) (by push_cast; ring)
  refine ⟨hbelow.mp (by omega), habove.mp (by omega), ?_, ?_⟩
  · rintro (h | h)
    · have := hbelow'.mpr h.le
      exact htie (Or.inl (by omega))
    · have := habove'.mpr h.ge
      exact htie (Or.inr (by omega))
  · rcases hnorm with hm | hk
    · right
      rw [normalizedMin_eq] at hm
      have hm' : (8 * 2 ^ F.fractionBits : ℤ) ≤ m := by exact_mod_cast hm
      have h8 := (htracks.le_iff (2 * 2 ^ F.fractionBits) (by push_cast; ring)).mp hm'
      rw [pow_add]
      linarith
    · exact Or.inl hk

end Rounded

/-! ### From integers to rational values -/

theorem Decoded.InRange.significand {d : Decoded} (hd : d.InRange F) :
    Significand (F.fractionBits + 1) (d.ulps F) := by
  refine ⟨d.mantissa, d.places F, hd.mantissa_lt, ?_⟩
  have hnonneg : (0 : ℤ) ≤ d.mantissa * 2 ^ d.places F := by positivity
  rcases d.signum_cases with h | h
  · rw [Decoded.ulps, h, one_mul, abs_of_nonneg hnonneg]
  · rw [Decoded.ulps, h, neg_one_mul, abs_neg, abs_of_nonneg hnonneg]

theorem Format.Lawful.value_eq (hF : F.Lawful) {bits : UInt64} (h : (decode bits F).Finite) :
    F.value bits = (decode bits F).ulps F * F.leastSubnormal :=
  Decoded.value_eq_ulps (hF.decode_inRange h).exponent_ge

/-- Whether a multiple of the least subnormal reaches the overflow threshold. -/
theorem Format.Lawful.threshold_le_iff (hF : F.Lawful) (x : ℤ) :
    F.overflowThreshold ≤ |(x : ℚ) * F.leastSubnormal| ↔
      (16 * 2 ^ F.fractionBits - 4) * 2 ^ (F.exponentMax - 2) ≤ 8 * (x.natAbs : ℤ) := by
  have hpos := leastSubnormal_pos F
  have habs : |(x : ℚ) * F.leastSubnormal| = ((x.natAbs : ℤ) : ℚ) * F.leastSubnormal := by
    rw [abs_mul, abs_of_pos hpos, Nat.cast_natAbs, Int.cast_abs]
    simp
  have h8 := hF.overflowThreshold_eq
  rw [habs]
  generalize ((16 * 2 ^ F.fractionBits - 4) * 2 ^ (F.exponentMax - 2) : ℤ) = T at *
  constructor
  · intro h
    have : (T : ℚ) * F.leastSubnormal ≤ ((8 * (x.natAbs : ℤ) : ℤ) : ℚ) * F.leastSubnormal := by
      push_cast at *
      linarith
    exact_mod_cast le_of_mul_le_mul_right this hpos
  · intro h
    have hQ : (T : ℚ) ≤ ((8 * (x.natAbs : ℤ) : ℤ) : ℚ) := by exact_mod_cast h
    have := mul_le_mul_of_nonneg_right hQ hpos.le
    push_cast at *
    linarith

theorem abs_sub_mul_pos {c : ℚ} (hc : 0 < c) (x y : ℤ) :
    |(x : ℚ) * c - y * c| = ((|x - y| : ℤ) : ℚ) * c := by
  rw [← sub_mul, abs_mul, abs_of_pos hc]
  push_cast
  rfl

/-- Nearness among the integers is nearness among the values. -/
theorem roundsNearestEven_of_ulps (hF : F.Lawful) {x : ℤ} {r : UInt64}
    (hsmall : ¬ (16 * 2 ^ F.fractionBits - 4) * 2 ^ (F.exponentMax - 2) ≤ 8 * (x.natAbs : ℤ))
    (hfin : (decode r F).Finite) (hwidth : r.toNat < 2 ^ F.width)
    (hnear : ∀ y, Significand (F.fractionBits + 1) y →
      |x - (decode r F).ulps F| ≤ |x - y| ∧
        (y ≠ (decode r F).ulps F → |x - (decode r F).ulps F| = |x - y| → r.toNat % 2 = 0)) :
    RoundsNearestEven F (x * F.leastSubnormal) r := by
  have hpos := leastSubnormal_pos F
  rw [RoundsNearestEven, if_neg (mt (hF.threshold_le_iff x).mp hsmall)]
  refine ⟨hfin, hwidth, ?_, ?_⟩
  · intro y hy
    rw [hF.value_eq hfin, hF.value_eq hy, abs_sub_mul_pos hpos, abs_sub_mul_pos hpos]
    have := (hnear _ (hF.decode_inRange hy).significand).1
    exact mul_le_mul_of_nonneg_right (by exact_mod_cast this) hpos.le
  · intro y hy hne heq
    rw [hF.value_eq hfin, hF.value_eq hy] at hne heq
    rw [abs_sub_mul_pos hpos, abs_sub_mul_pos hpos] at heq
    refine (hnear _ (hF.decode_inRange hy).significand).2 ?_ ?_
    · rintro h
      exact hne (by rw [h])
    · exact_mod_cast mul_right_cancel₀ hpos.ne' heq

/-- A finite word is itself the rounding of its value. -/
theorem roundsNearestEven_self (hF : F.Lawful) {r : UInt64} (hfin : (decode r F).Finite)
    (hwidth : r.toNat < 2 ^ F.width) : RoundsNearestEven F (F.value r) r := by
  have hd := hF.decode_inRange hfin
  rw [hF.value_eq hfin]
  refine roundsNearestEven_of_ulps hF ?_ hfin hwidth fun y _ => ?_
  · have habs : (((decode r F).ulps F).natAbs : ℤ) =
        (decode r F).mantissa * 2 ^ (decode r F).places F := by
      have hnonneg : (0 : ℤ) ≤ (decode r F).mantissa * 2 ^ (decode r F).places F := by positivity
      rw [Decoded.ulps]
      rcases (decode r F).signum_cases with h | h <;> rw [h] <;> omega
    have hm : ((decode r F).mantissa : ℤ) ≤ 2 * 2 ^ F.fractionBits - 1 := by
      have := hd.mantissa_lt
      rw [pow_succ] at this
      have : ((decode r F).mantissa : ℤ) + 1 ≤ 2 ^ F.fractionBits * 2 := by exact_mod_cast this
      linarith
    have hp : (2 : ℤ) ^ (decode r F).places F ≤ 2 ^ (F.exponentMax - 2) :=
      pow_le_pow_right₀ (by norm_num) (by have := hd.places_le; omega)
    have hB : (0 : ℤ) < 2 ^ (F.exponentMax - 2) := by positivity
    have hmul : ((decode r F).mantissa : ℤ) * 2 ^ (decode r F).places F ≤
        (2 * 2 ^ F.fractionBits - 1) * 2 ^ (F.exponentMax - 2) :=
      mul_le_mul hm hp (by positivity) (by linarith [Int.natCast_nonneg (decode r F).mantissa])
    rw [habs]
    linarith
  · rw [sub_self, abs_zero]
    refine ⟨abs_nonneg _, fun hne heq => absurd ?_ hne⟩
    have := abs_eq_zero.mp heq.symm
    omega

/-! ### The sum of two finite operands -/

/-- The normalised magnitude of a sum, rounded and composed. -/
theorem composeRoundedNormal_rounds (hF : F.Lawful) {x : ℤ} {k m : ℕ}
    (htracks : Tracks 4 k (m : ℤ) (8 * (x.natAbs : ℤ))) (hlt : m < normalizedMax F)
    (hnorm : normalizedMin F ≤ m ∨ k = 0) :
    RoundsNearestEven F (x * F.leastSubnormal)
      (composeRoundedNormal (decide (x < 0)) (1 - F.exponentBias + k) m F) := by
  obtain ⟨hinf, hfin⟩ := composeRoundedNormal_spec hF (decide (x < 0)) hlt hnorm
  have hover := overflows_iff hF htracks hlt hnorm
  by_cases ho : Overflows F k m
  · rw [RoundsNearestEven, if_pos ((hF.threshold_le_iff x).mpr (hover.mp ho)), hinf ho]
    have hsign : ((x : ℚ) * F.leastSubnormal < 0) ↔ x < 0 := by
      rw [mul_neg_iff]
      have hpos := leastSubnormal_pos F
      constructor
      · rintro (⟨-, h⟩ | ⟨h, -⟩)
        · linarith
        · exact_mod_cast h
      · intro h
        exact Or.inr ⟨by exact_mod_cast h, hpos⟩
    simp only [hsign]
  · obtain ⟨hf, hw, hulps, hparity⟩ := hfin ho
    refine roundsNearestEven_of_ulps hF (mt hover.mpr ho) hf hw fun y hy => ?_
    obtain ⟨hlo, hhi, htie, hfull⟩ := rounded_near htracks hnorm
    rw [hulps, hparity]
    by_cases hneg : x < 0
    · -- reflect a negative sum
      have hx : (x.natAbs : ℤ) = -x := by omega
      have hy' : Significand (F.fractionBits + 1) (-y) := by
        obtain ⟨m', k', h1, h2⟩ := hy
        exact ⟨m', k', h1, by rw [abs_neg, h2]⟩
      obtain ⟨h1, h2⟩ := nearest_significand hlo hhi htie hfull hy'
      have hflip : ∀ z : ℤ, |x - -z| = |(x.natAbs : ℤ) - z| := by
        intro z
        rw [hx, ← abs_neg]
        congr 1
        ring
      simp only [hneg, decide_true, if_true, neg_one_mul]
      rw [hflip, show x - y = x - -(-y) by ring, hflip]
      exact ⟨h1, fun hne => h2 (by intro h; exact hne (by rw [← h, neg_neg]))⟩
    · have hx : (x.natAbs : ℤ) = x := by omega
      have := nearest_significand hlo hhi htie hfull hy
      rw [hx] at this
      simpa only [hneg, decide_false, Bool.false_eq_true, if_false, one_mul] using this

section Sum

variable {a b : Decoded} (hF : F.Lawful) (ha : a.InRange F) (hb : b.InRange F)
include hF ha hb

theorem composeRoundedFiniteSum_zero (h : a.ulps F + b.ulps F = 0) :
    composeRoundedFiniteSum (addFiniteMantissas a b) F = zero false F := by
  obtain ⟨-, -, hzero, -⟩ := (signedSum_aligned hF ha hb).natAbs
  simp only [addFiniteMantissas, if_pos (hzero.mpr h), composeRoundedFiniteSum, if_true]

theorem composeRoundedFiniteSum_rounds (h : a.ulps F + b.ulps F ≠ 0) :
    RoundsNearestEven F ((a.ulps F + b.ulps F : ℤ) * F.leastSubnormal)
      (composeRoundedFiniteSum (addFiniteMantissas a b) F) := by
  obtain ⟨htracks, hlarge, hzero, hneg⟩ := (signedSum_aligned hF ha hb).natAbs
  have hk : ((max (a.places F) (b.places F) : ℕ) : ℤ) =
      max a.exponent b.exponent - (1 - F.exponentBias) := by
    have := ha.places_eq
    have := hb.places_eq
    push_cast
    omega
  obtain ⟨m, k', hup, htr, hlt, hnorm⟩ := normalize_spec F hk htracks hlarge
  have hsum : composeRoundedFiniteSum (addFiniteMantissas a b) F =
      composeRoundedNormal (decide (a.ulps F + b.ulps F < 0)) (1 - F.exponentBias + k') m F := by
    simp only [addFiniteMantissas, if_neg (mt hzero.mp h), composeRoundedFiniteSum, hup, hneg]
    rw [if_neg (by simp), if_neg (by omega)]
  rw [hsum]
  exact composeRoundedNormal_rounds hF htr hlt hnorm

end Sum

/-! ### The strict addition -/

theorem Format.Lawful.decode_masked (hF : F.Lawful) (bits : UInt64) :
    decode (maskedFiniteBits bits F) F = decode bits F := by
  have hmod : (maskedFiniteBits bits F).toNat % 2 ^ F.width = bits.toNat % 2 ^ F.width := by
    rw [hF.maskedFiniteBits_toNat, Nat.mod_mod]
  obtain ⟨hf, he, hs⟩ := Format.fields_eq_of_mod hmod
  rw [hF.decode_eq, hF.decode_eq, hf, he, hs]

theorem Format.Lawful.masked_lt (hF : F.Lawful) (bits : UInt64) :
    (maskedFiniteBits bits F).toNat < 2 ^ F.width := by
  rw [hF.maskedFiniteBits_toNat]
  exact Nat.mod_lt _ (Nat.two_pow_pos _)

/-- Adding a zero to a nonzero finite word returns that word, which is its own rounding. -/
theorem roundsNearestEven_masked (hF : F.Lawful) {bits : UInt64} (h : (decode bits F).Finite) :
    RoundsNearestEven F (F.value bits) (maskedFiniteBits bits F) := by
  have hfin : (decode (maskedFiniteBits bits F) F).Finite := by rwa [hF.decode_masked]
  have := roundsNearestEven_self hF hfin (hF.masked_lt bits)
  rwa [Format.value, hF.decode_masked] at this

theorem Format.Lawful.value_eq_zero_iff (hF : F.Lawful) {bits : UInt64}
    (h : (decode bits F).Finite) : F.value bits = 0 ↔ (decode bits F).zero = true := by
  rw [hF.value_eq h, mul_eq_zero, or_iff_left (leastSubnormal_pos F).ne', Int.cast_eq_zero]
  exact (hF.decode_inRange h).ulps_eq_zero

/-- The sum of two finite words. -/
theorem addBits_finite (hF : F.Lawful) (policy : StrictFloatReductionPolicy) {a b : UInt64}
    (ha : (decode a F).Finite) (hb : (decode b F).Finite) :
    (F.value a + F.value b = 0 →
      addBits a b F policy = zero (policy.signedZeroPolicy == .preserveOnlyWhenBothNegative &&
        (decode a F).zero && (decode b F).zero && (decode a F).sign && (decode b F).sign) F) ∧
    (F.value a + F.value b ≠ 0 →
      RoundsNearestEven F (F.value a + F.value b) (addBits a b F policy)) := by
  have hza := hF.value_eq_zero_iff ha
  have hzb := hF.value_eq_zero_iff hb
  have hsum : F.value a + F.value b =
      (((decode a F).ulps F + (decode b F).ulps F : ℤ) : ℚ) * F.leastSubnormal := by
    rw [hF.value_eq ha, hF.value_eq hb]
    push_cast
    ring
  have hsum0 : F.value a + F.value b = 0 ↔ (decode a F).ulps F + (decode b F).ulps F = 0 := by
    rw [hsum, mul_eq_zero, or_iff_left (leastSubnormal_pos F).ne', Int.cast_eq_zero]
  have hspecial : ∀ r, resolveSpecialAddResult (decode a F) (decode b F) a b F policy = r →
      addBits a b F policy = r.getD
        (composeRoundedFiniteSum (addFiniteMantissas (decode a F) (decode b F)) F) := by
    rintro r rfl
    rw [addBits]
    cases resolveSpecialAddResult (decode a F) (decode b F) a b F policy <;> rfl
  simp only [resolveSpecialAddResult, ha.1, ha.2, hb.1, hb.2, Bool.or_self, Bool.false_eq_true,
    if_false] at hspecial
  rw [hspecial _ rfl]
  rcases hA : (decode a F).zero with - | - <;> rcases hB : (decode b F).zero with - | - <;>
    simp only [hA, hB, Bool.false_eq_true, Bool.and_false, Bool.and_true, Bool.false_and,
      Bool.and_self, if_false, if_true, iff_false, iff_true, Option.getD_some,
      Option.getD_none] at hza hzb ⊢
  · -- two nonzero operands
    rw [ne_eq, hsum0, hsum]
    exact ⟨fun h => composeRoundedFiniteSum_zero hF (hF.decode_inRange ha)
        (hF.decode_inRange hb) h,
      fun h => composeRoundedFiniteSum_rounds hF (hF.decode_inRange ha) (hF.decode_inRange hb) h⟩
  · rw [hzb, add_zero]
    exact ⟨fun h => absurd h hza, fun _ => roundsNearestEven_masked hF ha⟩
  · rw [hza, zero_add]
    exact ⟨fun h => absurd h hzb, fun _ => roundsNearestEven_masked hF hb⟩
  · rw [hza, hzb, add_zero]
    exact ⟨fun _ => trivial, fun h => absurd rfl h⟩

theorem addBits_ieee (hF : F.Lawful) (policy : StrictFloatReductionPolicy) (a b : UInt64) :
    IeeeSum F policy a b (addBits a b F policy) := by
  refine ⟨?_, ?_, ?_, fun ha hb => (addBits_finite hF policy ha hb).1,
    fun ha hb => (addBits_finite hF policy ha hb).2⟩
  · intro h
    simp only [addBits, resolveSpecialAddResult]
    rcases h with h | h | ⟨h1, h2, h3⟩
    · simp [h]
    · simp [h]
    · by_cases hnan : (decode a F).nan || (decode b F).nan
      · simp [hnan]
      · simp [hnan, h1, h2, h3]
  · intro hinf hnan hsame
    have hnan' := hF.nan_of_inf hinf
    simp only [addBits, resolveSpecialAddResult]
    by_cases hb : (decode b F).inf
    · simp [hnan, hnan', hinf, hb, hsame hb]
    · simp [hnan, hnan', hinf, hb]
  · intro hinf hnan hsame
    have hnan' := hF.nan_of_inf hinf
    simp only [addBits, resolveSpecialAddResult]
    by_cases ha : (decode a F).inf
    · simp [hnan, hnan', hinf, ha, hsame ha]
    · simp [hnan, hnan', hinf, ha]

/-- The aligned sum does not depend on the order of its operands. -/
theorem addFiniteMantissas_comm (a b : Decoded) :
    addFiniteMantissas a b = addFiniteMantissas b a := by
  simp only [addFiniteMantissas, max_comm a.exponent, add_comm (alignedMantissa _ a)]

theorem addBits_comm (a b : UInt64) (F : Format) (policy : StrictFloatReductionPolicy) :
    addBits a b F policy = addBits b a F policy := by
  have hspecial : resolveSpecialAddResult (decode a F) (decode b F) a b F policy =
      resolveSpecialAddResult (decode b F) (decode a F) b a F policy := by
    generalize decode a F = x
    generalize decode b F = y
    rcases x with ⟨xs, xz, xi, xn, -, -⟩
    rcases y with ⟨ys, yz, yi, yn, -, -⟩
    cases xn <;> cases yn <;> cases xi <;> cases yi <;> cases xz <;> cases yz <;>
      simp [resolveSpecialAddResult] <;> cases xs <;> cases ys <;> simp
  simp only [addBits, hspecial, addFiniteMantissas_comm (decode a F)]

/-- **The strict additions are IEEE-754 additions**: nearest, ties to even, at both precisions
and for every pair of words; a binary32 operand is the low half of its word.  Both are
commutative. -/
theorem strictAdd_ieee (policy : StrictFloatReductionPolicy) (a b : UInt64) :
    IeeeSum float32Format policy (a &&& 0xFFFFFFFF) (b &&& 0xFFFFFFFF)
        (addFloat32Bits a b policy) ∧
      IeeeSum float64Format policy a b (addFloat64Bits a b policy) ∧
      addFloat32Bits a b policy = addFloat32Bits b a policy ∧
      addFloat64Bits a b policy = addFloat64Bits b a policy :=
  ⟨addBits_ieee float32Format_lawful policy _ _, addBits_ieee float64Format_lawful policy a b,
    addBits_comm _ _ _ policy, addBits_comm a b _ policy⟩

end RunD
