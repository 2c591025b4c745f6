/-
The parser of the canonical bytes of a compute program.

It reads the header, the bindings and the nodes in order.  Each binding and
each node is checked against what has been parsed before it, and an early
return hands its reason to the caller.  A read past the end of the bytes is
`compute_ir_malformed` wherever it happens.
-/
import RunD.ComputeIr

namespace RunD

open Reading

/-- A part of the parser; it leaves early with the reason of the rejection. -/
abbrev Parsing := Reading String

/-- The reason of a read past the end. -/
def kMalformed : String := "compute_ir_malformed"

def kMinBindingBytes : Nat := 15

def kSerializedNodeBytes : Nat := 18

def readFormat : Parsing ComputeFixedFormat := do
  let integerBits ← readU8 kMalformed
  let fractionBits ← readU8 kMalformed
  let rounding ← readU8 kMalformed
  let overflow ← readU8 kMalformed
  let approximation ← readU8 kMalformed
  pure { integerBits := integerBits, fractionBits := fractionBits, rounding := rounding,
         overflow := overflow, approximation := approximation }

/-! ### Bindings -/

def bindingIs (bindings : List ParsedBinding) (index : UInt32) (kind : UInt8) : Bool :=
  bindings[index.toNat]?.any fun binding => binding.kind == kind

def duplicateBindingName (bindings : List ParsedBinding) (binding : ParsedBinding) : Bool :=
  bindings.any fun existing => existing.kind == binding.kind && existing.name == binding.name

def readParsedBinding : Parsing ParsedBinding := do
  let kind ← readU8 kMalformed
  let numericMode ← readU8 kMalformed
  let name ← readBytes kMalformed
  let elementBytes ← readU32 kMalformed
  let floatingPoint ← readU8 kMalformed
  let valueBytes ← readBytes kMalformed
  pure { kind := kind, numericMode := numericMode, name := name, elementBytes := elementBytes,
         floatingPointParam := floatingPoint != 0, valueBytes := valueBytes }

def validateParsedBinding (bindings : List ParsedBinding) (binding : ParsedBinding) :
    Checked String Unit := do
  require (bindingKindNamed binding.kind ∧ 1 ≤ binding.numericMode ∧ binding.numericMode ≤ 6 ∧
      binding.elementBytes ≠ 0) "compute_ir_binding_invalid"
  require (¬ (binding.kind = kParamBindingKind ∧ binding.floatingPointParam))
    "compute_param_float_unsupported"
  require (¬ (binding.kind = kParamBindingKind ∧
      binding.valueBytes.length ≠ binding.elementBytes.toNat)) "compute_ir_param_size_mismatch"
  require (¬ (binding.kind ≠ kParamBindingKind ∧ binding.valueBytes ≠ []))
    "compute_ir_binding_payload_invalid"
  require (duplicateBindingName bindings binding = false) "compute_ir_binding_duplicate"

def appendParsedBinding (_index : Nat) (bindings : List ParsedBinding) :
    Parsing (List ParsedBinding) := do
  let binding ← readParsedBinding
  lift (validateParsedBinding bindings binding)
  pure (bindings ++ [binding])

/-! ### Nodes -/

def validNodeRef (node currentNode : UInt32) : Bool := node != 0 && node < currentNode

def readParsedNode : Parsing ParsedNode := do
  let op ← readU8 kMalformed
  let lhs ← readU32 kMalformed
  let rhs ← readU32 kMalformed
  let aux ← readU32 kMalformed
  let format ← readFormat
  match IrOp.ofCode op with
  | none => lift (leave "compute_ir_op_unsupported")
  | some op =>
      lift (require (computeIntermediateFormatValid format) "compute_ir_numeric_policy_invalid")
      pure { op := op, lhs := lhs, rhs := rhs, aux := aux, fixedFormat := format }

/-- What the checks of a node read of the program around it. -/
structure NodeContext where
  scalar : ComputeScalar
  scalarMode : UInt8
  bindings : List ParsedBinding

/-- The program computes in fixed point. -/
def NodeContext.fixedMode (context : NodeContext) : Bool :=
  context.scalarMode == scalarModeFor context.scalar

/-- The operands of a write, a value store in a fixed-point program. -/
def validateWriteOperands (context : NodeContext) (nodes : List ParsedNode) (node : ParsedNode)
    (currentNode : UInt32) : Checked String Unit := do
  require (validNodeRef node.lhs currentNode ∧ irWriteModeValid node.rhs ∧
      bindingIs context.bindings node.aux kWriteBindingKind) "compute_ir_node_invalid"
  if context.fixedMode then
    require (node.rhs = kWriteValue) "compute_ir_node_invalid"
    let source ← fetch nodes (node.lhs - 1).toNat
    require (source.op = .quantize) "compute_ir_quantize_required"

/-- The operands of an indexed read; the index binding holds 32-bit unsigned words. -/
def validateReadAtOperands (context : NodeContext) (node : ParsedNode) : Checked String Unit := do
  require (bindingIs context.bindings node.lhs kReadBindingKind ∧
      bindingIs context.bindings node.aux kReadBindingKind ∧ node.lhs ≠ node.aux ∧ node.rhs ≠ 0)
    "compute_ir_node_invalid"
  let indices ← fetch context.bindings node.lhs.toNat
  require (indices.numericMode = 4 ∧ indices.elementBytes = 4) "compute_ir_node_invalid"

def validateParsedNodeOperands (context : NodeContext) (nodes : List ParsedNode)
    (node : ParsedNode) (currentNode : UInt32) : Checked String Unit :=
  match node.op with
  | .param =>
      require (node.lhs = 0 ∧ node.rhs = 0 ∧
        bindingIs context.bindings node.aux kParamBindingKind) "compute_ir_node_invalid"
  | .read | .readUniform =>
      require (node.lhs = 0 ∧ node.rhs = 0 ∧
        bindingIs context.bindings node.aux kReadBindingKind) "compute_ir_node_invalid"
  | .readAt => validateReadAtOperands context node
  | .constant =>
      require (node.aux = 0 ∧ ¬ (context.scalar = .lane32 ∧ node.rhs ≠ 0)) "compute_ir_node_invalid"
  | .index => require (node.lhs = 0 ∧ node.rhs = 0 ∧ node.aux = 0) "compute_ir_node_invalid"
  | .write => validateWriteOperands context nodes node currentNode
  | .neg | .abs | .absMagnitude | .sign | .predicateNot | .bitNot | .negPositiveFixed | .recip
  | .sqrt | .rsqrt | .sin | .cos | .tan | .exp | .log | .quantize =>
      require (validNodeRef node.lhs currentNode ∧ node.rhs = 0 ∧ node.aux = 0)
        "compute_ir_node_invalid"
  | .add | .sub | .mul | .mulWrap | .min | .max | .eq | .lt | .le | .ne | .gt | .ge
  | .predicateAnd | .predicateOr | .bitAnd | .bitOr | .bitXor | .addSat | .addSatUnsigned
  | .subSat | .mulFixed | .mulFixedScaled | .mulUnsignedFixed | .divFixed | .atan2 | .divSigned
  | .divUnsigned | .minUnsigned | .maxUnsigned | .ltUnsigned | .leUnsigned | .gtUnsigned
  | .geUnsigned =>
      require (validNodeRef node.lhs currentNode ∧ validNodeRef node.rhs currentNode ∧
        node.aux = 0) "compute_ir_node_invalid"
  | .shlConst | .shrLogicalConst | .shrArithmeticConst => do
      require (validNodeRef node.lhs currentNode ∧ node.rhs = 0) "compute_ir_node_invalid"
      require (node.aux.toNat < scalarBitWidth context.scalar) "compute_shift_count_invalid"
  | .clamp | .clampUnsigned | .select | .mulAddFixed =>
      require (validNodeRef node.lhs currentNode ∧ validNodeRef node.rhs currentNode ∧
        validNodeRef node.aux currentNode) "compute_ir_node_invalid"

/-- All checks of a node that has been read. -/
def validateParsedNode (context : NodeContext) (nodes : List ParsedNode) (node : ParsedNode)
    (index : Nat) : Checked String Unit := do
  let nonfixedBoundaryFormat := node.op = .write ∧ node.rhs = kWriteBoundaryMask
  require (¬ (context.fixedMode = false ∧ computeFixedFormatAbsent node.fixedFormat = false ∧
      ¬ nonfixedBoundaryFormat)) "compute_ir_numeric_policy_mismatch"
  validateParsedNodeOperands context nodes node (UInt32.ofNat index + 1)

def appendParsedNode (context : NodeContext) (index : Nat) (nodes : List ParsedNode) :
    Parsing (List ParsedNode) := do
  let node ← readParsedNode
  lift (validateParsedNode context nodes node index)
  pure (nodes ++ [node])

/-! ### Programs -/

/-- The header of the bytes agrees with the one of the program. -/
def validateHeader (ir : ComputeIR) (scalarMode : UInt8) (format : ComputeFixedFormat) :
    Checked String Unit := do
  require (scalarMode = domainModeFor ir.scalar ir.domain) "compute_ir_scalar_mismatch"
  require (format = ir.fixedFormat ∧
      (if ir.domain = .fixed then computeFixedFormatValid ir.scalar format
        else computeFixedFormatAbsent format))
    "compute_ir_numeric_policy_mismatch"

def readBindings : Parsing (List ParsedBinding) := do
  let bindingCount ← readU32 kMalformed
  lift (require (bindingCount.toNat ≤ kMaxComputeBindingCount) "compute_ir_binding_count_invalid")
  requireRoom bindingCount.toNat kMinBindingBytes "compute_ir_binding_count_invalid"
  times bindingCount.toNat appendParsedBinding []

def readNodes (context : NodeContext) : Parsing (List ParsedNode) := do
  let nodeCount ← readU32 kMalformed
  lift (require (nodeCount ≠ 0) kMalformed)
  lift (require (nodeCount.toNat ≤ kMaxComputeNodeCount) "compute_ir_node_count_invalid")
  requireRoom nodeCount.toNat kSerializedNodeBytes "compute_ir_node_count_invalid"
  times nodeCount.toNat (appendParsedNode context) []

def readProgram (ir : ComputeIR) : Parsing ParsedIR := do
  let schema ← readBytes kMalformed
  lift (require (schema = kSchema) kMalformed)
  let name ← readBytes kMalformed
  let scalarMode ← readU8 kMalformed
  let format ← readFormat
  lift (validateHeader ir scalarMode format)
  let bindings ← readBindings
  let nodes ← readNodes { scalar := ir.scalar, scalarMode := scalarMode, bindings := bindings }
  pure { name := name, scalarMode := scalarMode, fixedFormat := format, bindings := bindings,
         nodes := nodes }

/-- The number of writes, which the source counts along the way. -/
def writeNodeCount (nodes : List ParsedNode) : Nat :=
  nodes.countP fun node => node.op == .write

def parseComputeIRUnchecked (ir : ComputeIR) : Parsing ParsedIR := do
  let parsed ← readProgram ir
  requireDone kMalformed
  lift (require (writeNodeCount parsed.nodes ≠ 0) "compute_write_missing")
  pure parsed

/-- `ParseComputeIR`. -/
def parseComputeIR (ir : ComputeIR) (canonicalBytes : List UInt8) : Checked String ParsedIR := do
  let parsed ← parseComputeIRUnchecked ir { bytes := canonicalBytes }
  pure parsed.1

end RunD
