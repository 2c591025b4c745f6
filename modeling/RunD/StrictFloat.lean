/-
The software floating-point addition of the strict folds, bit by bit: decoding
a word into sign, exponent and mantissa, resolving NaN, infinity and zero
operands, aligning the mantissas with three guard bits and a sticky bit,
normalising, and composing the rounded word.

A word is a `UInt64`; a binary32 value lives in its low half.  Exponents are
integers.  A mantissa is a natural number where the source has a 128-bit
word: `addFiniteMantissas_lt` of `StrictAdd.lean` bounds a sum by thirty-two
times the hidden bit, so that no 128-bit operation of either format wraps.
-/
import RunD.FoldLaw
import Mathlib.Algebra.Order.Ring.Nat
import Mathlib.Data.Nat.Bitwise

namespace RunD

/-! ### Formats -/

/-- A binary interchange format, by its masks. -/
structure Format where
  exponentBits : Nat
  fractionBits : Nat
  signMask : UInt64
  exponentMask : UInt64
  fractionMask : UInt64
  exponentMax : Nat
  exponentBias : Int
  canonicalNan : UInt64
  deriving DecidableEq, Repr

def float32Format : Format :=
  { exponentBits := 8
    fractionBits := 23
    signMask := 0x80000000
    exponentMask := 0x7F800000
    fractionMask := 0x007FFFFF
    exponentMax := 0xFF
    exponentBias := 127
    canonicalNan := 0x7FC00000 }

def float64Format : Format :=
  { exponentBits := 11
    fractionBits := 52
    signMask := 0x8000000000000000
    exponentMask := 0x7FF0000000000000
    fractionMask := 0x000FFFFFFFFFFFFF
    exponentMax := 0x7FF
    exponentBias := 1023
    canonicalNan := 0x7FF8000000000000 }

def compose (sign : Bool) (rawExponent : Nat) (fraction : UInt64) (format : Format) : UInt64 :=
  (if sign then format.signMask else 0) |||
    (UInt64.ofNat rawExponent <<< UInt64.ofNat format.fractionBits) |||
    (fraction &&& format.fractionMask)

def infinity (sign : Bool) (format : Format) : UInt64 :=
  compose sign format.exponentMax 0 format

def zero (sign : Bool) (format : Format) : UInt64 :=
  compose sign 0 0 format

/-! ### Decoding -/

/-- A decoded word. -/
structure Decoded where
  sign : Bool := false
  zero : Bool := false
  inf : Bool := false
  nan : Bool := false
  exponent : Int := 0
  mantissa : Nat := 0
  deriving DecidableEq, Repr

def decode (bits : UInt64) (format : Format) : Decoded :=
  let rawExponent := ((bits &&& format.exponentMask) >>> UInt64.ofNat format.fractionBits).toNat
  let fraction := (bits &&& format.fractionMask).toNat
  let sign := (bits &&& format.signMask) != 0
  if rawExponent = format.exponentMax then
    { sign := sign, inf := fraction == 0, nan := fraction != 0 }
  else if rawExponent = 0 then
    { sign := sign, zero := fraction == 0, exponent := 1 - format.exponentBias,
      mantissa := fraction }
  else
    { sign := sign, exponent := (rawExponent : Int) - format.exponentBias,
      mantissa := 2 ^ format.fractionBits ||| fraction }

/-! ### Special operands -/

def maskedFiniteBits (bits : UInt64) (format : Format) : UInt64 :=
  bits &&& (format.signMask ||| format.exponentMask ||| format.fractionMask)

/-- The result when an operand is a NaN, an infinity or a zero. -/
def resolveSpecialAddResult (left right : Decoded) (leftBits rightBits : UInt64)
    (format : Format) (policy : StrictFloatReductionPolicy) : Option UInt64 :=
  if left.nan || right.nan then
    some format.canonicalNan
  else if left.inf || right.inf then
    if left.inf && right.inf && left.sign != right.sign then
      some format.canonicalNan
    else
      some (infinity (if left.inf then left.sign else right.sign) format)
  else if left.zero && right.zero then
    let negativeZero :=
      policy.signedZeroPolicy == .preserveOnlyWhenBothNegative && left.sign && right.sign
    some (zero negativeZero format)
  else if left.zero then
    some (maskedFiniteBits rightBits format)
  else if right.zero then
    some (maskedFiniteBits leftBits format)
  else
    none

/-! ### Finite operands -/

/-- The guard bits an aligned mantissa carries below its last place. -/
def kAddGuardBits : Nat := 3

/-- Shift right, or-ing every bit shifted out into the last bit kept. -/
def shiftRightJam128 (value shift : Nat) : Nat :=
  if shift = 0 then
    value
  else if 127 ≤ shift then
    if value = 0 then 0 else 1
  else
    (value >>> shift) ||| (if value % 2 ^ shift ≠ 0 then 1 else 0)

/-- A sum before rounding; the mantissa carries `kAddGuardBits` guard bits. -/
structure FiniteSum where
  zero : Bool := false
  sign : Bool := false
  exponent : Int := 0
  mantissa : Nat := 0
  deriving DecidableEq, Repr

/-- A mantissa aligned to `commonExponent`, with its guard bits and its sign. -/
def alignedMantissa (commonExponent : Int) (operand : Decoded) : Int :=
  let mantissa :=
    shiftRightJam128 (operand.mantissa <<< kAddGuardBits) (commonExponent - operand.exponent).toNat
  if operand.sign then -mantissa else mantissa

def addFiniteMantissas (left right : Decoded) : FiniteSum :=
  let commonExponent := max left.exponent right.exponent
  let signedSum := alignedMantissa commonExponent left + alignedMantissa commonExponent right
  if signedSum = 0 then
    { zero := true }
  else
    { zero := false
      sign := decide (signedSum < 0)
      exponent := commonExponent
      mantissa := signedSum.natAbs }

/-! ### Rounding and composing -/

/-- Drop the guard bits, rounding to nearest and a tie to even. -/
def roundGuardBits (mantissa : Nat) : Nat :=
  let roundBits := mantissa % 2 ^ kAddGuardBits
  let truncated := mantissa >>> kAddGuardBits
  let half := 2 ^ (kAddGuardBits - 1)
  if half < roundBits ∨ roundBits = half ∧ truncated % 2 ≠ 0 then truncated + 1 else truncated

def composeRoundedNormal (resultSign : Bool) (commonExponent : Int) (mantissa : Nat)
    (format : Format) : UInt64 :=
  let rounded := roundGuardBits mantissa
  -- rounding up can carry into the next binade
  let carried := 2 ^ (format.fractionBits + 1) ≤ rounded
  let significand := if carried then rounded >>> 1 else rounded
  let exponent := if carried then commonExponent + 1 else commonExponent
  let rawExponent := exponent + format.exponentBias
  let hidden := 2 ^ format.fractionBits
  if (format.exponentMax : Int) ≤ rawExponent then
    infinity resultSign format
  else if rawExponent ≤ 0 ∨ significand < hidden then
    compose resultSign 0 (UInt64.ofNat significand) format
  else
    compose resultSign rawExponent.toNat (UInt64.ofNat (significand - hidden)) format

/-- The hidden bit of a mantissa that carries its guard bits. -/
def normalizedMin (format : Format) : Nat := (1 <<< format.fractionBits) <<< kAddGuardBits

def normalizedMax (format : Format) : Nat := normalizedMin format <<< 1

theorem normalizedMin_eq (format : Format) :
    normalizedMin format = 8 * 2 ^ format.fractionBits := by
  simp only [normalizedMin, kAddGuardBits, Nat.shiftLeft_eq]
  omega

theorem normalizedMax_eq (format : Format) :
    normalizedMax format = 16 * 2 ^ format.fractionBits := by
  rw [normalizedMax, normalizedMin_eq, Nat.shiftLeft_eq]
  omega

theorem or_one_eq (n : Nat) : n ||| 1 = 2 * (n / 2) + 1 := by
  refine Nat.eq_of_testBit_eq fun i => ?_
  rcases i with - | i
  · simp
  · simp [Nat.testBit_succ, Nat.mul_add_div, Nat.or_div_two]

theorem shiftRightJam128_one_lt {m : Nat} (h : 2 ≤ m) : shiftRightJam128 m 1 < m := by
  have hdown : m >>> 1 = m / 2 := Nat.shiftRight_eq_div_pow m 1
  by_cases hm : m % 2 = 0
  · simp only [shiftRightJam128, hdown, pow_one, hm]
    simp
    omega
  · simp [shiftRightJam128, hdown, hm, or_one_eq]
    omega

/-- `while (sum.mantissa >= normalized_max)`: shift the mantissa down, keeping it sticky. -/
def normalizeDown (format : Format) (mantissa : Nat) (exponent : Int) : Nat × Int :=
  if h : normalizedMax format ≤ mantissa then
    normalizeDown format (shiftRightJam128 mantissa 1) (exponent + 1)
  else
    (mantissa, exponent)
  termination_by mantissa
  decreasing_by
    refine shiftRightJam128_one_lt (le_trans ?_ h)
    have := Nat.two_pow_pos format.fractionBits
    rw [normalizedMax_eq]
    omega

/-- `while (sum.mantissa < normalized_min && sum.exponent > (1 - format.exponent_bias))`:
shift the mantissa up. -/
def normalizeUp (format : Format) (mantissa : Nat) (exponent : Int) : Nat × Int :=
  if mantissa < normalizedMin format ∧ 1 - format.exponentBias < exponent then
    normalizeUp format (mantissa <<< 1) (exponent - 1)
  else
    (mantissa, exponent)
  termination_by (exponent - (1 - format.exponentBias)).toNat
  decreasing_by omega

def composeRoundedFiniteSum (sum : FiniteSum) (format : Format) : UInt64 :=
  if sum.zero then
    zero false format
  else
    let down := normalizeDown format sum.mantissa sum.exponent
    let up := normalizeUp format down.1 down.2
    let minExponent := 1 - format.exponentBias
    if up.2 < minExponent then
      composeRoundedNormal sum.sign minExponent
        (shiftRightJam128 up.1 (minExponent - up.2).toNat) format
    else
      composeRoundedNormal sum.sign up.2 up.1 format

/-! ### Addition -/

def addBits (leftBits rightBits : UInt64) (format : Format)
    (policy : StrictFloatReductionPolicy) : UInt64 :=
  let left := decode leftBits format
  let right := decode rightBits format
  match resolveSpecialAddResult left right leftBits rightBits format policy with
  | some specialResult => specialResult
  | none => composeRoundedFiniteSum (addFiniteMantissas left right) format

def addFloat32Bits (leftBits rightBits : UInt64) (policy : StrictFloatReductionPolicy) : UInt64 :=
  addBits (leftBits &&& 0xFFFFFFFF) (rightBits &&& 0xFFFFFFFF) float32Format policy

def addFloat64Bits (leftBits rightBits : UInt64) (policy : StrictFloatReductionPolicy) : UInt64 :=
  addBits leftBits rightBits float64Format policy

end RunD
