/-
The fold operations of the reduction kernel and the laws attached to them: the
value domain an operation works in, the word it is padded with, how it
overflows, and, for the two strict floating-point additions, the policy under
which they run.

Every enumeration of the source is an inductive type.  Where the source reads
an enumeration out of caller-supplied memory and has a path for a value that
is none of its enumerators, the type has a constructor `unlisted` for those
values, so that the path stays in the model.
-/
import Mathlib.Tactic.Common

namespace RunD

/-! ### Enumerations -/

/-- The reduction operators. -/
inductive FoldOperation where
  | xor
  | max
  | min
  | saturatingAdd
  | fixedBinaryTreeHash
  | strictFloat32Add
  | strictFloat64Add
  | unlisted (raw : UInt8)
  deriving DecidableEq, Repr

/-- What the words of a fold stand for. -/
inductive FoldValueDomain where
  | bitwiseInteger
  | unsignedInteger
  | hashDigest
  | float32Strict
  | float64Strict
  | unsupported
  | unlisted (raw : UInt8)
  deriving DecidableEq, Repr

/-- Which word stands in for a missing right operand. -/
inductive FoldPaddingLaw where
  | none
  | identity
  | fixedHashOdd
  | unsignedMax
  | unlisted (raw : UInt8)
  deriving DecidableEq, Repr

/-- What happens at the end of the value range. -/
inductive FoldOverflowLaw where
  | none
  | bitwiseInteger
  | unsignedCompare
  | saturatingUnsignedAdd
  | fixedHashMix
  | strictIeee754Add
  | unlisted (raw : UInt8)
  deriving DecidableEq, Repr

/-- `StrictFloatRoundingMode`. -/
inductive StrictFloatRoundingMode where
  | nearestTiesToEven
  | unlisted (raw : UInt8)
  deriving DecidableEq, Repr

/-- `StrictFloatNanPolicy`. -/
inductive StrictFloatNanPolicy where
  | canonicalQuiet
  | unlisted (raw : UInt8)
  deriving DecidableEq, Repr

/-- `StrictFloatSignedZeroPolicy`. -/
inductive StrictFloatSignedZeroPolicy where
  | canonicalPositive
  | preserveOnlyWhenBothNegative
  | unlisted (raw : UInt8)
  deriving DecidableEq, Repr

/-- `StrictFloatInfinityPolicy`. -/
inductive StrictFloatInfinityPolicy where
  | preserve
  | unlisted (raw : UInt8)
  deriving DecidableEq, Repr

/-- `StrictFloatSubnormalPolicy`. -/
inductive StrictFloatSubnormalPolicy where
  | preserve
  | unlisted (raw : UInt8)
  deriving DecidableEq, Repr

/-- `StrictFloatFmaPolicy`. -/
inductive StrictFloatFmaPolicy where
  | forbidden
  | unlisted (raw : UInt8)
  deriving DecidableEq, Repr

/-! ### Strict floating-point policies -/

/-- The law a strict floating-point fold is run under; the default is no law at all. -/
structure StrictFloatReductionPolicy where
  valid : Bool := false
  valueDomain : FoldValueDomain := .unsupported
  roundingMode : StrictFloatRoundingMode := .nearestTiesToEven
  nanPolicy : StrictFloatNanPolicy := .canonicalQuiet
  signedZeroPolicy : StrictFloatSignedZeroPolicy := .canonicalPositive
  infinityPolicy : StrictFloatInfinityPolicy := .preserve
  subnormalPolicy : StrictFloatSubnormalPolicy := .preserve
  fmaPolicy : StrictFloatFmaPolicy := .forbidden
  deriving DecidableEq, Repr

def strictFloat32ReductionPolicy : StrictFloatReductionPolicy :=
  { valid := true, valueDomain := .float32Strict }

def strictFloat64ReductionPolicy : StrictFloatReductionPolicy :=
  { valid := true, valueDomain := .float64Strict }

/-! ### The laws of an operation -/

/-- The odd padding word of the fixed binary-tree hash. -/
def kFixedBinaryTreeOddPadding : UInt64 := 0xA11CE5

def paddingLaw : FoldOperation → FoldPaddingLaw
  | .xor | .max | .saturatingAdd | .strictFloat32Add | .strictFloat64Add => .identity
  | .min => .unsignedMax
  | .fixedBinaryTreeHash => .fixedHashOdd
  | .unlisted _ => .none

def overflowLaw : FoldOperation → FoldOverflowLaw
  | .xor => .bitwiseInteger
  | .max | .min => .unsignedCompare
  | .saturatingAdd => .saturatingUnsignedAdd
  | .fixedBinaryTreeHash => .fixedHashMix
  | .strictFloat32Add | .strictFloat64Add => .strictIeee754Add
  | .unlisted _ => .none

def foldIdentityValue : FoldOperation → UInt64
  | .xor | .max | .saturatingAdd | .strictFloat32Add | .strictFloat64Add => 0
  | .min => 0xFFFFFFFFFFFFFFFF
  | .fixedBinaryTreeHash => 0
  | .unlisted _ => 0

def foldPaddingValue (operation : FoldOperation) : UInt64 :=
  match paddingLaw operation with
  | .identity => foldIdentityValue operation
  | .unsignedMax => 0xFFFFFFFFFFFFFFFF
  | .fixedHashOdd => kFixedBinaryTreeOddPadding
  | .none | .unlisted _ => 0

/-- What the kernel knows about an operation. -/
structure FoldPrimitiveSpec where
  operation : FoldOperation := .fixedBinaryTreeHash
  valueDomain : FoldValueDomain := .unsupported
  supported : Bool := false
  fixedTopology : Bool := false
  admitsFloatingPoint : Bool := false
  requiresStrictFloatingPoint : Bool := false
  identityValue : UInt64 := 0
  paddingValue : UInt64 := 0
  paddingLaw : FoldPaddingLaw := .none
  overflowLaw : FoldOverflowLaw := .none
  strictFloatReduction : StrictFloatReductionPolicy := {}
  deriving DecidableEq, Repr

def integerSpec (operation : FoldOperation) (valueDomain : FoldValueDomain) :
    FoldPrimitiveSpec :=
  { operation := operation
    valueDomain := valueDomain
    supported := true
    fixedTopology := true
    identityValue := foldIdentityValue operation
    paddingValue := foldPaddingValue operation
    paddingLaw := paddingLaw operation
    overflowLaw := overflowLaw operation }

def strictFloatSpec (operation : FoldOperation) (valueDomain : FoldValueDomain)
    (policy : StrictFloatReductionPolicy) : FoldPrimitiveSpec :=
  { integerSpec operation valueDomain with
    admitsFloatingPoint := true
    requiresStrictFloatingPoint := true
    strictFloatReduction := policy }

def describeFoldOperation : FoldOperation → FoldPrimitiveSpec
  | .xor => integerSpec .xor .bitwiseInteger
  | .max => integerSpec .max .unsignedInteger
  | .min => integerSpec .min .unsignedInteger
  | .saturatingAdd => integerSpec .saturatingAdd .unsignedInteger
  | .fixedBinaryTreeHash => integerSpec .fixedBinaryTreeHash .hashDigest
  | .strictFloat32Add =>
      strictFloatSpec .strictFloat32Add .float32Strict strictFloat32ReductionPolicy
  | .strictFloat64Add =>
      strictFloatSpec .strictFloat64Add .float64Strict strictFloat64ReductionPolicy
  | .unlisted raw => { operation := .unlisted raw, valueDomain := .unsupported }

def isFloatOperation (operation : FoldOperation) : Bool :=
  operation == .strictFloat32Add || operation == .strictFloat64Add

def isSupportedFoldOperation (operation : FoldOperation) : Bool :=
  let spec := describeFoldOperation operation
  spec.supported && spec.valueDomain != .unsupported

def foldOperationAllowsFloatingPoint (operation : FoldOperation) : Bool :=
  (describeFoldOperation operation).admitsFloatingPoint

def strictFloatReductionValid (operation : FoldOperation)
    (policy : StrictFloatReductionPolicy) : Bool :=
  if !isFloatOperation operation then
    !policy.valid
  else
    policy.valid &&
      policy.valueDomain == (describeFoldOperation operation).valueDomain &&
      policy.roundingMode == .nearestTiesToEven &&
      policy.nanPolicy == .canonicalQuiet &&
      (policy.signedZeroPolicy == .canonicalPositive ||
        policy.signedZeroPolicy == .preserveOnlyWhenBothNegative) &&
      policy.infinityPolicy == .preserve &&
      policy.subnormalPolicy == .preserve &&
      policy.fmaPolicy == .forbidden

/-! ### Facts about the laws -/

theorem describe_paddingValue (operation : FoldOperation) :
    (describeFoldOperation operation).paddingValue = foldPaddingValue operation := by
  cases operation <;> rfl

/-- Outside the hash, an operation is padded with its own identity. -/
theorem foldPaddingValue_eq_identity {operation : FoldOperation}
    (h : operation ≠ .fixedBinaryTreeHash) :
    foldPaddingValue operation = foldIdentityValue operation := by
  cases operation <;> first | rfl | exact absurd rfl h

end RunD
