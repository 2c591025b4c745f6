/-
The words of the strict floating-point formats as numbers: the three fields of
a word, what `decode` and `compose` do in terms of them, and the rational
value of a finite word.

`Lawful` collects what the later proofs need to know about a format's masks;
both formats of the source are lawful.  Every finite value is an integer
multiple of the least subnormal, so the exact arithmetic of addition happens
in integers: `Decoded.ulps` is the value counted in least subnormals, and
`value_eq_ulps` converts.
-/
import RunD.StrictFloat
import Mathlib.Data.Rat.Defs
import Mathlib.Algebra.Order.Field.Power
import Mathlib.Tactic.Linarith
import Mathlib.Tactic.Ring
import Mathlib.Tactic.FieldSimp

namespace RunD

/-! ### Lawful formats -/

/-- The masks of a format say what its field widths say. -/
structure Format.Lawful (F : Format) : Prop where
  fractionPos : 1 ≤ F.fractionBits
  exponentPos : 2 ≤ F.exponentBits
  fits : F.exponentBits + F.fractionBits + 1 ≤ 64
  signMask : F.signMask.toNat = 2 ^ (F.exponentBits + F.fractionBits)
  exponentMask : F.exponentMask.toNat = (2 ^ F.exponentBits - 1) * 2 ^ F.fractionBits
  fractionMask : F.fractionMask.toNat = 2 ^ F.fractionBits - 1
  exponentMax : F.exponentMax = 2 ^ F.exponentBits - 1
  exponentBias : F.exponentBias = 2 ^ (F.exponentBits - 1) - 1
  canonicalNan : F.canonicalNan.toNat =
    (2 ^ F.exponentBits - 1) * 2 ^ F.fractionBits + 2 ^ (F.fractionBits - 1)

theorem float32Format_lawful : float32Format.Lawful := by
  constructor <;> decide

theorem float64Format_lawful : float64Format.Lawful := by
  constructor <;> decide

namespace Format

variable (F : Format)

/-- The number of bits of a word of the format. -/
def width : Nat := F.exponentBits + F.fractionBits + 1

def fraction (bits : UInt64) : Nat := bits.toNat % 2 ^ F.fractionBits

def rawExponent (bits : UInt64) : Nat := bits.toNat / 2 ^ F.fractionBits % 2 ^ F.exponentBits

def signBit (bits : UInt64) : Nat :=
  bits.toNat / 2 ^ (F.exponentBits + F.fractionBits) % 2

theorem fraction_lt (bits : UInt64) : F.fraction bits < 2 ^ F.fractionBits :=
  Nat.mod_lt _ (Nat.two_pow_pos _)

theorem rawExponent_lt (bits : UInt64) : F.rawExponent bits < 2 ^ F.exponentBits :=
  Nat.mod_lt _ (Nat.two_pow_pos _)

end Format

variable {F : Format}

/-! ### The masks select the fields -/

theorem and_exponentMask (n e f : Nat) :
    (n &&& (2 ^ e - 1) * 2 ^ f) >>> f = n / 2 ^ f % 2 ^ e := by
  rw [Nat.shiftRight_and_distrib, Nat.shiftRight_eq_div_pow, Nat.shiftRight_eq_div_pow,
    Nat.mul_div_cancel _ (Nat.two_pow_pos f), Nat.and_two_pow_sub_one_eq_mod]

theorem Format.Lawful.toNat_ofNat_fractionBits (hF : F.Lawful) :
    (UInt64.ofNat F.fractionBits).toNat % 64 = F.fractionBits := by
  have := hF.fits
  rw [UInt64.toNat_ofNat']
  omega

theorem Format.Lawful.rawExponent_eq (hF : F.Lawful) (bits : UInt64) :
    ((bits &&& F.exponentMask) >>> UInt64.ofNat F.fractionBits).toNat = F.rawExponent bits := by
  rw [UInt64.toNat_shiftRight, UInt64.toNat_and, hF.toNat_ofNat_fractionBits, hF.exponentMask,
    and_exponentMask]
  rfl

theorem Format.Lawful.fraction_eq (hF : F.Lawful) (bits : UInt64) :
    (bits &&& F.fractionMask).toNat = F.fraction bits := by
  rw [UInt64.toNat_and, hF.fractionMask, Nat.and_two_pow_sub_one_eq_mod]
  rfl

theorem Format.Lawful.sign_eq (hF : F.Lawful) (bits : UInt64) :
    ((bits &&& F.signMask) != 0) = decide (F.signBit bits = 1) := by
  have hbit : (bits &&& F.signMask).toNat = (bits.toNat.testBit
      (F.exponentBits + F.fractionBits)).toNat * 2 ^ (F.exponentBits + F.fractionBits) := by
    rw [UInt64.toNat_and, hF.signMask, Nat.and_two_pow]
  have hpow := Nat.two_pow_pos (F.exponentBits + F.fractionBits)
  have hzero : bits &&& F.signMask = 0 ↔ (bits &&& F.signMask).toNat = 0 := by
    rw [← UInt64.toNat_inj]
    rfl
  have hfield : F.signBit bits = 1 ↔ bits.toNat.testBit (F.exponentBits + F.fractionBits) := by
    rw [Nat.testBit_eq_decide_div_mod_eq, decide_eq_true_iff]
    rfl
  rcases htest : bits.toNat.testBit (F.exponentBits + F.fractionBits) with - | -
  · simp [hfield, hzero, hbit, htest, bne]
  · simp [hfield, hzero, hbit, htest, bne]

/-- `decode` in terms of the fields of the word. -/
theorem Format.Lawful.decode_eq (hF : F.Lawful) (bits : UInt64) :
    decode bits F =
      if F.rawExponent bits = F.exponentMax then
        { sign := decide (F.signBit bits = 1), inf := F.fraction bits == 0,
          nan := F.fraction bits != 0 }
      else if F.rawExponent bits = 0 then
        { sign := decide (F.signBit bits = 1), zero := F.fraction bits == 0,
          exponent := 1 - F.exponentBias, mantissa := F.fraction bits }
      else
        { sign := decide (F.signBit bits = 1),
          exponent := (F.rawExponent bits : Int) - F.exponentBias,
          mantissa := 2 ^ F.fractionBits + F.fraction bits } := by
  have hor : 2 ^ F.fractionBits ||| F.fraction bits = 2 ^ F.fractionBits + F.fraction bits := by
    have := Nat.two_pow_add_eq_or_of_lt (F.fraction_lt bits) 1
    simpa using this.symm
  simp only [decode, hF.rawExponent_eq, hF.fraction_eq, hF.sign_eq, hor]

/-! ### Composing a word from its fields -/

theorem Format.Lawful.compose_toNat (hF : F.Lawful) (sign : Bool) {e : Nat}
    (he : e < 2 ^ F.exponentBits) (m : UInt64) :
    (compose sign e m F).toNat =
      sign.toNat * 2 ^ (F.exponentBits + F.fractionBits) + e * 2 ^ F.fractionBits +
        m.toNat % 2 ^ F.fractionBits := by
  have hfits := hF.fits
  have hfrac : m.toNat % 2 ^ F.fractionBits < 2 ^ F.fractionBits :=
    Nat.mod_lt _ (Nat.two_pow_pos _)
  have hbody : e * 2 ^ F.fractionBits + m.toNat % 2 ^ F.fractionBits
      < 2 ^ (F.exponentBits + F.fractionBits) := by
    rw [pow_add]
    have : (e + 1) * 2 ^ F.fractionBits ≤ 2 ^ F.exponentBits * 2 ^ F.fractionBits :=
      Nat.mul_le_mul_right _ he
    rw [Nat.add_mul] at this
    omega
  have hle64 : 2 ^ (F.exponentBits + F.fractionBits) ≤ 2 ^ 64 :=
    Nat.pow_le_pow_right (by omega) (by omega)
  have he64 : e < 2 ^ 64 := by
    have : 2 ^ F.exponentBits ≤ 2 ^ 64 := Nat.pow_le_pow_right (by omega) (by omega)
    omega
  have hexp : (UInt64.ofNat e <<< UInt64.ofNat F.fractionBits).toNat = e * 2 ^ F.fractionBits := by
    rw [UInt64.toNat_shiftLeft, hF.toNat_ofNat_fractionBits, UInt64.toNat_ofNat',
      Nat.shiftLeft_eq, Nat.mod_eq_of_lt he64, Nat.mod_eq_of_lt (by omega)]
  have hsign : (if sign then F.signMask else 0).toNat =
      2 ^ (F.exponentBits + F.fractionBits) * sign.toNat := by
    rcases sign with - | -
    · simp
    · simp [hF.signMask]
  rw [compose, UInt64.toNat_or, UInt64.toNat_or, hexp, hsign, UInt64.toNat_and, hF.fractionMask,
    Nat.and_two_pow_sub_one_eq_mod, Nat.lor_assoc, mul_comm e,
    ← Nat.two_pow_add_eq_or_of_lt hfrac,
    ← Nat.two_pow_add_eq_or_of_lt (by rw [mul_comm]; exact hbody)]
  ring

section Compose

variable (hF : F.Lawful) (sign : Bool) {e : Nat} (he : e < 2 ^ F.exponentBits) (m : UInt64)
include hF he

theorem Format.Lawful.fraction_compose :
    F.fraction (compose sign e m F) = m.toNat % 2 ^ F.fractionBits := by
  rw [Format.fraction, hF.compose_toNat sign he, pow_add, ← mul_assoc, ← Nat.add_mul,
    Nat.mul_add_mod', Nat.mod_mod]

theorem Format.Lawful.rawExponent_compose : F.rawExponent (compose sign e m F) = e := by
  have hfrac : m.toNat % 2 ^ F.fractionBits < 2 ^ F.fractionBits :=
    Nat.mod_lt _ (Nat.two_pow_pos _)
  have hword : (compose sign e m F).toNat =
      m.toNat % 2 ^ F.fractionBits + 2 ^ F.fractionBits * (2 ^ F.exponentBits * sign.toNat + e) := by
    rw [hF.compose_toNat sign he, pow_add]
    ring
  rw [Format.rawExponent, hword, Nat.add_mul_div_left _ _ (Nat.two_pow_pos _),
    Nat.div_eq_of_lt hfrac, zero_add, Nat.mul_add_mod, Nat.mod_eq_of_lt he]

theorem Format.Lawful.signBit_compose : F.signBit (compose sign e m F) = sign.toNat := by
  have hfrac : m.toNat % 2 ^ F.fractionBits < 2 ^ F.fractionBits :=
    Nat.mod_lt _ (Nat.two_pow_pos _)
  have hword : (compose sign e m F).toNat =
      m.toNat % 2 ^ F.fractionBits + 2 ^ F.fractionBits * (2 ^ F.exponentBits * sign.toNat + e) := by
    rw [hF.compose_toNat sign he, pow_add]
    ring
  have hsign : sign.toNat < 2 := Bool.toNat_lt sign
  rw [Format.signBit, Nat.add_comm F.exponentBits, pow_add, ← Nat.div_div_eq_div_mul, hword,
    Nat.add_mul_div_left _ _ (Nat.two_pow_pos _), Nat.div_eq_of_lt hfrac, zero_add,
    Nat.add_comm (2 ^ F.exponentBits * sign.toNat), Nat.add_mul_div_left _ _ (Nat.two_pow_pos _),
    Nat.div_eq_of_lt he, zero_add, Nat.mod_eq_of_lt hsign]

theorem Format.Lawful.compose_lt : (compose sign e m F).toNat < 2 ^ F.width := by
  have hfrac : m.toNat % 2 ^ F.fractionBits < 2 ^ F.fractionBits :=
    Nat.mod_lt _ (Nat.two_pow_pos _)
  have hbody : (e + 1) * 2 ^ F.fractionBits ≤ 2 ^ F.exponentBits * 2 ^ F.fractionBits :=
    Nat.mul_le_mul_right _ he
  have hsign : sign.toNat * 2 ^ (F.exponentBits + F.fractionBits) ≤
      1 * 2 ^ (F.exponentBits + F.fractionBits) :=
    Nat.mul_le_mul_right _ (by have := Bool.toNat_lt sign; omega)
  rw [hF.compose_toNat sign he, Format.width, pow_succ]
  rw [Nat.add_mul, ← pow_add] at hbody
  omega

end Compose

/-- The word of `bits` without what lies above the format. -/
theorem Format.Lawful.maskedFiniteBits_toNat (hF : F.Lawful) (bits : UInt64) :
    (maskedFiniteBits bits F).toNat = bits.toNat % 2 ^ F.width := by
  have hfrac : 2 ^ F.fractionBits - 1 < 2 ^ F.fractionBits := by
    have := Nat.two_pow_pos F.fractionBits
    omega
  have hpow := Nat.two_pow_pos F.fractionBits
  have hpow' := Nat.two_pow_pos F.exponentBits
  have hbody : 2 ^ F.fractionBits * (2 ^ F.exponentBits - 1) + (2 ^ F.fractionBits - 1) =
      2 ^ (F.exponentBits + F.fractionBits) - 1 := by
    rw [pow_add, Nat.mul_sub, mul_comm (2 ^ F.exponentBits)]
    have : 2 ^ F.fractionBits ≤ 2 ^ F.fractionBits * 2 ^ F.exponentBits :=
      Nat.le_mul_of_pos_right _ hpow'
    omega
  have hall : F.signMask.toNat ||| F.exponentMask.toNat ||| F.fractionMask.toNat =
      2 ^ F.width - 1 := by
    have hlt : 2 ^ (F.exponentBits + F.fractionBits) - 1 < 2 ^ (F.exponentBits + F.fractionBits) := by
      have := Nat.two_pow_pos (F.exponentBits + F.fractionBits)
      omega
    have hone := Nat.two_pow_add_eq_or_of_lt hlt 1
    rw [hF.signMask, hF.exponentMask, hF.fractionMask, Nat.lor_assoc,
      mul_comm (2 ^ F.exponentBits - 1), ← Nat.two_pow_add_eq_or_of_lt hfrac, hbody, Format.width,
      pow_succ]
    rw [mul_one] at hone
    omega
  rw [maskedFiniteBits, UInt64.toNat_and, UInt64.toNat_or, UInt64.toNat_or, hall,
    Nat.and_two_pow_sub_one_eq_mod]

theorem Format.fields_eq_of_mod {F : Format} {a b : UInt64}
    (h : a.toNat % 2 ^ F.width = b.toNat % 2 ^ F.width) :
    F.fraction a = F.fraction b ∧ F.rawExponent a = F.rawExponent b ∧
      F.signBit a = F.signBit b := by
  have hsplit : ∀ n : Nat, n % 2 ^ F.width / 2 ^ F.fractionBits % 2 ^ F.exponentBits =
      n / 2 ^ F.fractionBits % 2 ^ F.exponentBits := by
    intro n
    rw [Format.width, show F.exponentBits + F.fractionBits + 1 =
      F.fractionBits + (F.exponentBits + 1) by omega, pow_add, Nat.mod_mul_right_div_self,
      pow_succ, Nat.mod_mul_right_mod]
  have hlow : ∀ n : Nat, n % 2 ^ F.width % 2 ^ F.fractionBits = n % 2 ^ F.fractionBits := by
    intro n
    rw [Format.width, show F.exponentBits + F.fractionBits + 1 =
      F.fractionBits + (F.exponentBits + 1) by omega, pow_add, Nat.mod_mul_right_mod]
  have htop : ∀ n : Nat, n % 2 ^ F.width / 2 ^ (F.exponentBits + F.fractionBits) % 2 =
      n / 2 ^ (F.exponentBits + F.fractionBits) % 2 := by
    intro n
    rw [Format.width, pow_succ, Nat.mod_mul_right_div_self, Nat.mod_mod]
  refine ⟨?_, ?_, ?_⟩
  · rw [Format.fraction, Format.fraction, ← hlow, h, hlow]
  · rw [Format.rawExponent, Format.rawExponent, ← hsplit, h, hsplit]
  · rw [Format.signBit, Format.signBit, ← htop, h, htop]

/-! ### The value of a finite word -/

/-- Neither an infinity nor a NaN. -/
def Decoded.Finite (d : Decoded) : Prop := d.nan = false ∧ d.inf = false

/-- The sign of a decoded word as a factor. -/
def Decoded.signum (d : Decoded) : ℤ := if d.sign then -1 else 1

/-- The rational number a finite word stands for. -/
def Decoded.value (F : Format) (d : Decoded) : ℚ :=
  d.signum * d.mantissa * (2 : ℚ) ^ (d.exponent - F.fractionBits)

/-- The least positive number of the format. -/
def Format.leastSubnormal (F : Format) : ℚ := (2 : ℚ) ^ (1 - F.exponentBias - F.fractionBits)

/-- The places a mantissa stands above the least subnormal. -/
def Decoded.places (F : Format) (d : Decoded) : ℕ := (d.exponent - (1 - F.exponentBias)).toNat

/-- The value of a finite word counted in least subnormals. -/
def Decoded.ulps (F : Format) (d : Decoded) : ℤ := d.signum * (d.mantissa * 2 ^ d.places F)

/-- What decoding guarantees of a finite word. -/
structure Decoded.InRange (F : Format) (d : Decoded) : Prop where
  exponent_ge : 1 - F.exponentBias ≤ d.exponent
  places_le : d.places F + 2 ≤ F.exponentMax
  mantissa_lt : d.mantissa < 2 ^ (F.fractionBits + 1)
  normal : d.exponent = 1 - F.exponentBias ∨ 2 ^ F.fractionBits ≤ d.mantissa
  zero_iff : d.zero = true ↔ d.mantissa = 0

theorem leastSubnormal_pos (F : Format) : 0 < F.leastSubnormal := by
  unfold Format.leastSubnormal
  positivity

theorem Decoded.value_eq_ulps {d : Decoded} (h : 1 - F.exponentBias ≤ d.exponent) :
    d.value F = d.ulps F * F.leastSubnormal := by
  have hplaces : ((d.places F : ℕ) : ℤ) = d.exponent - (1 - F.exponentBias) := by
    rw [Decoded.places, Int.toNat_of_nonneg (by omega)]
  have hpow : (2 : ℚ) ^ (d.exponent - F.fractionBits) =
      (2 : ℚ) ^ (d.places F) * F.leastSubnormal := by
    rw [Format.leastSubnormal, ← zpow_natCast, hplaces, ← zpow_add₀ (by norm_num)]
    congr 1
    ring
  rw [Decoded.value, hpow, Decoded.ulps]
  push_cast
  ring

theorem Format.Lawful.exponentMax_ge (hF : F.Lawful) : 3 ≤ F.exponentMax := by
  have : 2 ^ 2 ≤ 2 ^ F.exponentBits := Nat.pow_le_pow_right (by omega) hF.exponentPos
  rw [hF.exponentMax]
  omega

/-- A word is finite exactly when its exponent field is not the largest. -/
theorem Format.Lawful.finite_iff (hF : F.Lawful) (bits : UInt64) :
    (decode bits F).Finite ↔ F.rawExponent bits ≠ F.exponentMax := by
  rw [hF.decode_eq, Decoded.Finite]
  by_cases hmax : F.rawExponent bits = F.exponentMax
  · simp only [hmax, if_true, ne_eq, not_true, iff_false]
    by_cases hfrac : F.fraction bits = 0 <;> simp [hfrac]
  · rw [if_neg hmax]
    split <;> simp [hmax]

theorem Format.Lawful.nan_of_inf (hF : F.Lawful) {bits : UInt64}
    (h : (decode bits F).inf = true) : (decode bits F).nan = false := by
  by_cases hmax : F.rawExponent bits = F.exponentMax
  · rw [hF.decode_eq, if_pos hmax] at h ⊢
    simpa using h
  · exact ((hF.finite_iff bits).mpr hmax).1

theorem Format.Lawful.decode_inRange (hF : F.Lawful) {bits : UInt64}
    (h : (decode bits F).Finite) : (decode bits F).InRange F := by
  have hmax := (hF.finite_iff bits).mp h
  have hfrac := F.fraction_lt bits
  have hraw := F.rawExponent_lt bits
  have hE := hF.exponentMax_ge
  have htop := hF.exponentMax
  rw [hF.decode_eq, if_neg hmax]
  by_cases hzero : F.rawExponent bits = 0
  · rw [if_pos hzero]
    refine ⟨le_refl _, ?_, ?_, Or.inl rfl, ?_⟩
    · simp only [Decoded.places, sub_self, Int.toNat_zero]
      omega
    · rw [pow_succ]
      dsimp only
      omega
    · simp
  · rw [if_neg hzero]
    refine ⟨by dsimp only; omega, ?_, ?_, Or.inr (Nat.le_add_right _ _), ?_⟩
    · simp only [Decoded.places]
      omega
    · rw [pow_succ]
      dsimp only
      omega
    · simp

theorem Decoded.InRange.ulps_eq_zero {d : Decoded} (h : d.InRange F) :
    d.ulps F = 0 ↔ d.zero = true := by
  rw [h.zero_iff, Decoded.ulps, Decoded.signum]
  split <;> simp

end RunD
