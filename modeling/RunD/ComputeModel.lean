/-
The numeric model of a compute program: lanes, domains, fixed-point formats,
and the operations of the intermediate representation with their domains.

A lane is 32 or 64 bits wide; `invalid` stands for the lane the source makes
of a zero byte, and `unknown` for the domain it makes of one.  The fields of a
format are bytes, since the parser takes them from its input before anything
has looked at them.
-/
import RunD.Checked

namespace RunD

/-! ### Lanes, domains and formats -/

/-- `ComputeScalar`. -/
inductive ComputeScalar where
  | invalid
  | lane32
  | lane64
  deriving DecidableEq, Repr

/-- `ComputeDomain`. -/
inductive ComputeDomain where
  | unknown
  | i32
  | u32
  | i64
  | u64
  | fixed
  deriving DecidableEq, Repr

/-- `ComputeFixedFormat`; the last three fields are enumerations of the source, as bytes. -/
structure ComputeFixedFormat where
  integerBits : UInt8 := 0
  fractionBits : UInt8 := 0
  rounding : UInt8 := 0
  overflow : UInt8 := 0
  approximation : UInt8 := 0
  deriving DecidableEq, Repr

/-- `ComputeApproximation::Exact`. -/
def kExact : UInt8 := 1

/-- `ComputeApproximation::Deterministic`. -/
def kDeterministic : UInt8 := 2

def computeFixedFormatAbsent (format : ComputeFixedFormat) : Bool :=
  format.integerBits == 0 && format.fractionBits == 0 && format.rounding == 0 &&
    format.overflow == 0 && format.approximation == 0

def computeScalarBits : ComputeScalar → Nat
  | .lane32 => 32
  | .lane64 => 64
  | .invalid => 0

/-- The rounding, overflow and approximation of a format are enumerators. -/
def fixedPolicyValid (format : ComputeFixedFormat) : Bool :=
  1 ≤ format.rounding && format.rounding ≤ 4 && 1 ≤ format.overflow && format.overflow ≤ 2 &&
    1 ≤ format.approximation && format.approximation ≤ 2

def computeFixedFormatValid (scalar : ComputeScalar) (format : ComputeFixedFormat) : Bool :=
  format.integerBits != 0 && format.fractionBits != 0 &&
    format.integerBits.toNat + format.fractionBits.toNat == computeScalarBits scalar &&
    fixedPolicyValid format

def computeIntermediateFormatValid (format : ComputeFixedFormat) : Bool :=
  computeFixedFormatAbsent format ||
    (format.integerBits != 0 && format.fractionBits != 0 &&
      decide (format.integerBits.toNat + format.fractionBits.toNat ≤ 128) &&
      fixedPolicyValid format)

theorem computeFixedFormatAbsent_iff {format : ComputeFixedFormat} :
    computeFixedFormatAbsent format = true ↔ format = {} := by
  obtain ⟨i, f, r, o, a⟩ := format
  simp [computeFixedFormatAbsent, and_assoc]

/-! ### Limits -/

def kMaxComputeBindingCount : Nat := 64

def kMaxComputeNodeCount : Nat := 1024

/-! ### Numeric modes -/

def unsignedDomain (domain : ComputeDomain) : Bool := domain == .u32 || domain == .u64

def scalarModeFor (scalar : ComputeScalar) : UInt8 := if scalar = .lane64 then 2 else 1

def domainModeFor (scalar : ComputeScalar) : ComputeDomain → UInt8
  | .i32 => 3
  | .u32 => 4
  | .i64 => 5
  | .u64 => 6
  | .fixed => scalarModeFor scalar
  | .unknown => 0

def domainForMode (scalar : ComputeScalar) (mode : UInt8) : ComputeDomain :=
  if mode = scalarModeFor scalar then .fixed
  else if mode = 3 then (if scalar = .lane32 then .i32 else .unknown)
  else if mode = 4 then (if scalar = .lane32 then .u32 else .unknown)
  else if mode = 5 then (if scalar = .lane64 then .i64 else .unknown)
  else if mode = 6 then (if scalar = .lane64 then .u64 else .unknown)
  else .unknown

def scalarBitWidth (scalar : ComputeScalar) : Nat := if scalar = .lane64 then 64 else 32

def scalarBytes (scalar : ComputeScalar) : UInt32 := if scalar = .lane64 then 8 else 4

/-! ### Operations -/

/-- `IrOp`, in the order of the source: the position of an operation is its code. -/
inductive IrOp where
  | param
  | read
  | write
  | add
  | sub
  | mul
  | mulWrap
  | min
  | max
  | clamp
  | select
  | eq
  | lt
  | le
  | constant
  | neg
  | abs
  | absMagnitude
  | sign
  | ne
  | gt
  | ge
  | predicateNot
  | predicateAnd
  | predicateOr
  | bitAnd
  | bitOr
  | bitXor
  | bitNot
  | shlConst
  | shrLogicalConst
  | shrArithmeticConst
  | addSat
  | addSatUnsigned
  | subSat
  | negPositiveFixed
  | mulFixed
  | mulFixedScaled
  | mulUnsignedFixed
  | mulAddFixed
  | divFixed
  | recip
  | sqrt
  | rsqrt
  | sin
  | cos
  | tan
  | exp
  | log
  | atan2
  | divSigned
  | divUnsigned
  | minUnsigned
  | maxUnsigned
  | clampUnsigned
  | ltUnsigned
  | leUnsigned
  | gtUnsigned
  | geUnsigned
  | index
  | quantize
  | readAt
  | readUniform
  deriving DecidableEq, Repr

/-- Every operation, at the position of its code. -/
def irOps : List IrOp :=
  [.param, .read, .write, .add, .sub, .mul, .mulWrap, .min, .max, .clamp, .select, .eq, .lt, .le,
    .constant, .neg, .abs, .absMagnitude, .sign, .ne, .gt, .ge, .predicateNot, .predicateAnd,
    .predicateOr, .bitAnd, .bitOr, .bitXor, .bitNot, .shlConst, .shrLogicalConst,
    .shrArithmeticConst, .addSat, .addSatUnsigned, .subSat, .negPositiveFixed, .mulFixed,
    .mulFixedScaled, .mulUnsignedFixed, .mulAddFixed, .divFixed, .recip, .sqrt, .rsqrt, .sin, .cos,
    .tan, .exp, .log, .atan2, .divSigned, .divUnsigned, .minUnsigned, .maxUnsigned, .clampUnsigned,
    .ltUnsigned, .leUnsigned, .gtUnsigned, .geUnsigned, .index, .quantize, .readAt, .readUniform]

/-- The byte of an operation. -/
def IrOp.code (op : IrOp) : UInt8 := UInt8.ofNat (irOps.idxOf op)

/-- The operation of a byte; a byte without one has no `OpName`. -/
def IrOp.ofCode (byte : UInt8) : Option IrOp := irOps[byte.toNat]?

theorem mem_irOps (op : IrOp) : op ∈ irOps := by
  cases op <;> decide

theorem IrOp.code_toNat (op : IrOp) : op.code.toNat = irOps.idxOf op := by
  have hlt : irOps.idxOf op < 63 := List.idxOf_lt_length_of_mem (mem_irOps op)
  rw [IrOp.code, UInt8.toNat_ofNat']
  omega

theorem IrOp.ofCode_code (op : IrOp) : IrOp.ofCode op.code = some op := by
  have hlt := List.idxOf_lt_length_of_mem (mem_irOps op)
  rw [IrOp.ofCode, IrOp.code_toNat, List.getElem?_eq_getElem hlt, List.getElem_idxOf hlt]

theorem IrOp.code_of_ofCode {byte : UInt8} {op : IrOp} (h : IrOp.ofCode byte = some op) :
    op.code = byte := by
  have hnodup : irOps.Nodup := by decide
  obtain ⟨hlt, hop⟩ := List.getElem?_eq_some_iff.mp h
  rw [← UInt8.toNat_inj, IrOp.code_toNat, ← hop, hnodup.idxOf_getElem]

/-! ### Write modes -/

/-- `IrWriteMode::Value`. -/
def kWriteValue : UInt32 := 0

/-- `IrWriteMode::CheckedOrdinal`. -/
def kWriteCheckedOrdinal : UInt32 := 1

/-- `IrWriteMode::BoundaryMask`. -/
def kWriteBoundaryMask : UInt32 := 2

def irWriteModeValid (value : UInt32) : Bool := value ≤ kWriteBoundaryMask

/-! ### Domains of operations -/

def mergeComputeDomains (lhs rhs : ComputeDomain) : ComputeDomain :=
  if lhs = .unknown then rhs
  else if rhs = .unknown ∨ lhs = rhs then lhs
  else if lhs = .fixed ∨ rhs = .fixed then .unknown
  else
    let pair (first second : ComputeDomain) : Prop :=
      lhs = first ∧ rhs = second ∨ lhs = second ∧ rhs = first
    if pair .i32 .u32 then .u32
    else if pair .i32 .i64 ∨ pair .u32 .i64 then .i64
    else if pair .i32 .u64 ∨ pair .u32 .u64 ∨ pair .i64 .u64 then .u64
    else .unknown

def fixedOnlyOp : IrOp → Bool
  | .quantize | .negPositiveFixed | .mulFixed | .mulFixedScaled | .mulUnsignedFixed
  | .mulAddFixed | .divFixed | .recip | .sqrt | .rsqrt | .sin | .cos | .tan | .exp | .log
  | .atan2 => true
  | _ => false

def canonicalIrOpForDomain (op : IrOp) (domain : ComputeDomain) : IrOp :=
  if ¬ (domain = .u32 ∨ domain = .u64) then op
  else
    match op with
    | .min => .minUnsigned
    | .max => .maxUnsigned
    | .clamp => .clampUnsigned
    | .lt => .ltUnsigned
    | .le => .leUnsigned
    | .gt => .gtUnsigned
    | .ge => .geUnsigned
    | op => op

def irOpDomainValid (op : IrOp) (domain : ComputeDomain) : Bool :=
  let signedDomain := domain == .i32 || domain == .i64
  let unsignedDomain := domain == .u32 || domain == .u64
  let fixedDomain := domain == .fixed
  if !signedDomain && !unsignedDomain && !fixedDomain then false
  else if fixedOnlyOp op then fixedDomain
  else
    match op with
    | .abs | .absMagnitude | .sign | .addSat | .subSat | .shrArithmeticConst | .min | .max
    | .clamp | .lt | .le | .gt | .ge => signedDomain || fixedDomain
    | .addSatUnsigned => unsignedDomain || fixedDomain
    | .minUnsigned | .maxUnsigned | .clampUnsigned | .ltUnsigned | .leUnsigned | .gtUnsigned
    | .geUnsigned => unsignedDomain
    | .divSigned => signedDomain
    | .divUnsigned => unsignedDomain
    | _ => true

/-! ### Operand shapes -/

def unaryValueOp : IrOp → Bool
  | .neg | .abs | .absMagnitude | .sign | .quantize | .predicateNot | .bitNot | .negPositiveFixed
  | .recip | .sqrt | .rsqrt | .sin | .cos | .tan | .exp | .log => true
  | _ => false

def binaryValueOp : IrOp → Bool
  | .add | .sub | .mul | .mulWrap | .min | .max | .eq | .lt | .le | .ne | .gt | .ge
  | .predicateAnd | .predicateOr | .bitAnd | .bitOr | .bitXor | .addSat | .addSatUnsigned
  | .subSat | .mulFixed | .mulFixedScaled | .mulUnsignedFixed | .divFixed | .atan2 | .divSigned
  | .divUnsigned | .minUnsigned | .maxUnsigned | .ltUnsigned | .leUnsigned | .gtUnsigned
  | .geUnsigned => true
  | _ => false

def constShiftOp : IrOp → Bool
  | .shlConst | .shrLogicalConst | .shrArithmeticConst => true
  | _ => false

def ternaryValueOp : IrOp → Bool
  | .clamp | .select | .mulAddFixed | .clampUnsigned => true
  | _ => false

end RunD
