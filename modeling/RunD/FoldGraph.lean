/-
Fold graphs and their generic validation.

A fold graph arrives as a `FoldGraphView`: pointers and counts supplied by the
caller, with nothing known about what they point at.  The validator runs over
it once with an array of markers, one per scratch slot: zero for a slot that
is not defined yet, a tag for one defined by a partition, a tag and an index
for one defined by an edge.  A failed check leaves early with the result the
source returns there.
-/
import RunD.Buffer
import RunD.StrictFloat

namespace RunD

/-! ### Combining two words -/

def mixHash (seed value : UInt64) : UInt64 :=
  seed ^^^ (value + 0x9E3779B97F4A7C15 + (seed <<< (6 : UInt64)) + (seed >>> (2 : UInt64)))

def combineHashes (left right : UInt64) : UInt64 :=
  mixHash (mixHash 0xC6A4A7935BD1E995 left) right

def saturatingAdd (left right : UInt64) : UInt64 :=
  if left > 0xFFFFFFFFFFFFFFFF - right then 0xFFFFFFFFFFFFFFFF else left + right

def combineFoldValues (operation : FoldOperation) (left right : UInt64)
    (policy : StrictFloatReductionPolicy) : UInt64 :=
  match operation with
  | .xor => left ^^^ right
  | .max => if left < right then right else left
  | .min => if right < left then right else left
  | .saturatingAdd => saturatingAdd left right
  | .fixedBinaryTreeHash => combineHashes left right
  | .strictFloat32Add => addFloat32Bits left right policy
  | .strictFloat64Add => addFloat64Bits left right policy
  | .unlisted _ => 0

/-! ### Graphs -/

/-- One reduction step. -/
structure FoldGraphEdge where
  level : UInt32 := 0
  leftSlot : UInt32 := 0
  rightSlot : UInt32 := 0
  outputSlot : UInt32 := 0
  operation : FoldOperation := .fixedBinaryTreeHash
  paddingLaw : FoldPaddingLaw := .none
  paddingValue : UInt64 := 0
  rightIsPadding : Bool := false
  deriving DecidableEq, Repr

inductive FoldGraphNodeKind where
  | workerLocalPartial
  | globalOrderedSlot
  | reduction
  | unlisted (raw : UInt8)
  deriving DecidableEq, Repr

structure FoldGraphNode where
  kind : FoldGraphNodeKind := .workerLocalPartial
  topologicalIndex : UInt32 := 0
  slot : UInt32 := 0
  leftSlot : UInt32 := 0
  rightSlot : UInt32 := 0
  operation : FoldOperation := .fixedBinaryTreeHash
  valueDomain : FoldValueDomain := .hashDigest
  paddingLaw : FoldPaddingLaw := .none
  overflowLaw : FoldOverflowLaw := .none
  rightIsPadding : Bool := false
  deriving DecidableEq, Repr

/-- A graph as the caller hands it to the kernel. -/
structure FoldGraphView where
  operation : FoldOperation
  strictFloatReduction : StrictFloatReductionPolicy
  partitionCount : UInt32
  scratchSlotCount : UInt32
  finalSlot : UInt32
  fixedTopologicalOrder : Bool
  primitiveStandardized : Bool
  floatingPointAllowed : Bool
  strictFloatingPoint : Bool
  partitionFoldSlots : ArrayView UInt32
  nodes : ArrayView FoldGraphNode
  reductionEdges : ArrayView FoldGraphEdge

structure FoldGraphValidationResult where
  ok : Bool := false
  reason : String := "not_run"
  scratchSlotCount : UInt32 := 0
  finalSlot : UInt32 := 0
  dagValidated : Bool := false
  slotBoundsValidated : Bool := false
  paddingLawValidated : Bool := false
  deriving DecidableEq, Repr

/-- A validation that leaves early with the failed result. -/
abbrev Validation := Checked FoldGraphValidationResult

def failFoldGraphValidation (reason : String) (scratchSlotCount : UInt32 := 0) :
    FoldGraphValidationResult :=
  { ok := false, reason := reason, scratchSlotCount := scratchSlotCount }

/-! ### The scratch range -/

/-- The range raised above the slot of a partition.  `slot + 1` wraps at the last 32-bit slot;
the bound checks below catch that slot. -/
def raiseForPartition (graph : FoldGraphView) (i : Nat) (required : UInt32) :
    Validation UInt32 := do
  let slot ← graph.partitionFoldSlots.get i
  pure (max required (slot + 1))

/-- The range raised above the slots of an edge. -/
def raiseForEdge (graph : FoldGraphView) (i : Nat) (required : UInt32) : Validation UInt32 := do
  let edge ← graph.reductionEdges.get i
  pure (max (max (max required (edge.leftSlot + 1)) (edge.rightSlot + 1)) (edge.outputSlot + 1))

/-- The slots a graph needs: its announced count, raised above every slot it names. -/
def foldGraphScratchSlotCount (graph : FoldGraphView) : Validation UInt32 := do
  let required := if graph.scratchSlotCount = 0 then graph.partitionCount
    else graph.scratchSlotCount
  if graph.partitionFoldSlots.count ≠ 0 ∧ graph.partitionFoldSlots.isNull then
    return 0
  if graph.nodes.count ≠ 0 ∧ graph.nodes.isNull then
    return 0
  if graph.reductionEdges.count ≠ 0 ∧ graph.reductionEdges.isNull then
    return 0
  let required ← forRange graph.partitionFoldSlots.count.toNat (raiseForPartition graph) required
  forRange graph.reductionEdges.count.toNat (raiseForEdge graph) required

/-! ### The checks -/

def kFoldGraphValidationMarkerTagMask : UInt64 := 0xC000000000000000

def kFoldGraphValidationMarkerPayloadMask : UInt64 := ~~~ kFoldGraphValidationMarkerTagMask

def kFoldGraphValidationPartitionMarker : UInt64 := 0x4000000000000000

def kFoldGraphValidationEdgeMarker : UInt64 := 0x8000000000000000

/-- The floating-point part of the shape check. -/
def validateFloatingPointLaw (graph : FoldGraphView) : Validation Unit :=
  if foldOperationAllowsFloatingPoint graph.operation then do
    require (graph.strictFloatingPoint)
      (failFoldGraphValidation "floating_point_fold_forbidden")
    require (graph.strictFloatReduction.valid)
      (failFoldGraphValidation "floating_point_law_required")
    require (strictFloatReductionValid graph.operation graph.strictFloatReduction)
      (failFoldGraphValidation "floating_point_law_mismatch")
  else
    require (¬ (graph.floatingPointAllowed ∨ graph.strictFloatingPoint))
      (failFoldGraphValidation "floating_point_fold_forbidden")

def validateFoldGraphShape (graph : FoldGraphView) : Validation Unit := do
  require (graph.primitiveStandardized ∧ isSupportedFoldOperation graph.operation)
    (failFoldGraphValidation "unsupported_fold_operation")
  validateFloatingPointLaw graph
  require (graph.fixedTopologicalOrder)
    (failFoldGraphValidation "fold_graph_topological_order_required")
  require (graph.partitionCount ≠ 0 ∧ graph.partitionFoldSlots.isNull = false ∧
      graph.partitionFoldSlots.count = graph.partitionCount)
    (failFoldGraphValidation "fold_graph_partition_mismatch")
  require (¬ (graph.reductionEdges.count ≠ 0 ∧ graph.reductionEdges.isNull))
    (failFoldGraphValidation "fold_graph_edge_missing")
  require (¬ (graph.nodes.count ≠ 0 ∧ graph.nodes.isNull))
    (failFoldGraphValidation "fold_graph_node_missing")

/-- One partition: its slot is inside the range and not taken. -/
def validatePartitionSlot (graph : FoldGraphView) (requiredSlots : UInt32) (partition : Nat)
    (markers : List UInt64) : Validation (List UInt64) := do
  let slot ← graph.partitionFoldSlots.get partition
  require (slot < requiredSlots)
    (failFoldGraphValidation "fold_graph_slot_out_of_range" requiredSlots)
  let marker ← fetch markers slot.toNat
  require (marker = 0) (failFoldGraphValidation "fold_graph_slot_out_of_range" requiredSlots)
  assign markers slot.toNat kFoldGraphValidationPartitionMarker

def validateFoldGraphSlots (graph : FoldGraphView) (definedMarkers : List UInt64)
    (requiredSlots : UInt32) : Validation (List UInt64) := do
  require (requiredSlots ≠ 0) (failFoldGraphValidation "fold_graph_scratch_capacity_exceeded")
  require (requiredSlots.toNat ≤ definedMarkers.length)
    (failFoldGraphValidation "fold_graph_scratch_capacity_exceeded" requiredSlots)
  let cleared := List.replicate requiredSlots.toNat 0 ++ definedMarkers.drop requiredSlots.toNat
  forRange graph.partitionCount.toNat (validatePartitionSlot graph requiredSlots) cleared

/-- What the walk over the edges carries from edge to edge. -/
structure EdgeWalk where
  lastLevel : UInt32
  finalSlot : UInt32
  markers : List UInt64
  deriving Repr

/-- The right input of an edge is defined, unless it is padding. -/
def validateRightInput (edge : FoldGraphEdge) (requiredSlots : UInt32) (markers : List UInt64) :
    Validation Unit :=
  if edge.rightIsPadding then pure ()
  else do
    let right ← fetch markers edge.rightSlot.toNat
    require (right ≠ 0)
      (failFoldGraphValidation "fold_graph_edge_input_unavailable" requiredSlots)

/-- One edge: its inputs are defined, its output is not, its padding obeys the law. -/
def validateEdge (graph : FoldGraphView) (primitive : FoldPrimitiveSpec)
    (requiredSlots : UInt32) (edgeIndex : Nat) (walk : EdgeWalk) : Validation EdgeWalk := do
  let edge ← graph.reductionEdges.get edgeIndex
  require (edge.operation = graph.operation)
    (failFoldGraphValidation "fold_graph_primitive_mismatch" requiredSlots)
  require (¬ (edgeIndex ≠ 0 ∧ edge.level < walk.lastLevel))
    (failFoldGraphValidation "fold_graph_topological_order_required" requiredSlots)
  require (edge.leftSlot < requiredSlots ∧ edge.rightSlot < requiredSlots ∧
      edge.outputSlot < requiredSlots)
    (failFoldGraphValidation "fold_graph_edge_out_of_range" requiredSlots)
  let left ← fetch walk.markers edge.leftSlot.toNat
  require (left ≠ 0) (failFoldGraphValidation "fold_graph_edge_input_unavailable" requiredSlots)
  validateRightInput edge requiredSlots walk.markers
  let output ← fetch walk.markers edge.outputSlot.toNat
  require (output = 0) (failFoldGraphValidation "fold_graph_edge_output_redefined" requiredSlots)
  require (¬ (edge.rightIsPadding ∧
      (edge.paddingLaw ≠ primitive.paddingLaw ∨ edge.paddingValue ≠ primitive.paddingValue)))
    (failFoldGraphValidation "fold_graph_padding_law_mismatch" requiredSlots)
  require (¬ (edge.rightIsPadding = false ∧ edge.paddingLaw ≠ .none))
    (failFoldGraphValidation "fold_graph_padding_law_mismatch" requiredSlots)
  let markers ← assign walk.markers edge.outputSlot.toNat
    (kFoldGraphValidationEdgeMarker ||| UInt64.ofNat edgeIndex)
  pure { lastLevel := edge.level, finalSlot := edge.outputSlot, markers := markers }

def validateFoldGraphEdges (graph : FoldGraphView) (definedMarkers : List UInt64)
    (primitive : FoldPrimitiveSpec) (requiredSlots : UInt32) : Validation EdgeWalk := do
  let finalSlot ← graph.partitionFoldSlots.get (graph.partitionCount - 1).toNat
  forRange graph.reductionEdges.count.toNat (validateEdge graph primitive requiredSlots)
    { lastLevel := 0, finalSlot := finalSlot, markers := definedMarkers }

def reductionNodeMatchesEdge (node : FoldGraphNode) (edge : FoldGraphEdge) : Bool :=
  node.slot == edge.outputSlot && node.leftSlot == edge.leftSlot &&
    node.rightSlot == edge.rightSlot && node.operation == edge.operation &&
    node.paddingLaw == edge.paddingLaw && node.rightIsPadding == edge.rightIsPadding

def isPartitionMarker (marker : UInt64) : Bool := marker == kFoldGraphValidationPartitionMarker

def isEdgeMarker (marker : UInt64) : Bool :=
  marker &&& kFoldGraphValidationMarkerTagMask == kFoldGraphValidationEdgeMarker

def partitionNodeValid (marker : UInt64) (node : FoldGraphNode) : Bool :=
  isPartitionMarker marker && node.leftSlot == node.slot && node.rightSlot == node.slot &&
    node.paddingLaw == .none && !node.rightIsPadding

/-- One node: it describes the partition or the edge that defined its slot. -/
def validateNode (graph : FoldGraphView) (markers : List UInt64) (primitive : FoldPrimitiveSpec)
    (requiredSlots : UInt32) (nodeIndex : Nat) : Validation Unit := do
  let mismatch := failFoldGraphValidation "fold_graph_node_mismatch" requiredSlots
  let node ← graph.nodes.get nodeIndex
  require (node.topologicalIndex = UInt32.ofNat nodeIndex ∧ node.slot < requiredSlots ∧
      node.operation = graph.operation ∧ node.valueDomain = primitive.valueDomain ∧
      node.overflowLaw = primitive.overflowLaw) mismatch
  require (¬ (node.rightIsPadding ∧
      (node.paddingLaw ≠ primitive.paddingLaw ∨ requiredSlots ≤ node.rightSlot)))
    (failFoldGraphValidation "fold_graph_padding_law_mismatch" requiredSlots)
  let marker ← fetch markers node.slot.toNat
  match node.kind with
  | .workerLocalPartial | .globalOrderedSlot => require (partitionNodeValid marker node) mismatch
  | .reduction =>
      require (isEdgeMarker marker) mismatch
      let edgeIndex := marker &&& kFoldGraphValidationMarkerPayloadMask
      require (edgeIndex.toNat < graph.reductionEdges.count.toNat) mismatch
      let edge ← graph.reductionEdges.get edgeIndex.toNat
      require (reductionNodeMatchesEdge node edge) mismatch
  | .unlisted _ => leave mismatch

def validateFoldGraphNodes (graph : FoldGraphView) (definedMarkers : List UInt64)
    (primitive : FoldPrimitiveSpec) (requiredSlots : UInt32) : Validation Unit := do
  require (requiredSlots.toNat ≤ definedMarkers.length)
    (failFoldGraphValidation "fold_graph_scratch_capacity_exceeded" requiredSlots)
  forRange graph.nodes.count.toNat
    (fun nodeIndex _ => validateNode graph definedMarkers primitive requiredSlots nodeIndex) ()

/-- The whole validation.  With the result comes the marker array as the checks left it: the
caller's scratch memory. -/
def validateFoldGraphWithMarkers (graph : FoldGraphView) (definedMarkers : List UInt64) :
    Validation (FoldGraphValidationResult × List UInt64) := do
  validateFoldGraphShape graph
  let requiredSlots ← foldGraphScratchSlotCount graph
  let markers ← validateFoldGraphSlots graph definedMarkers requiredSlots
  let primitive := describeFoldOperation graph.operation
  let walk ← validateFoldGraphEdges graph markers primitive requiredSlots
  require (graph.finalSlot = walk.finalSlot)
    (failFoldGraphValidation "fold_graph_final_slot_mismatch" requiredSlots)
  validateFoldGraphNodes graph walk.markers primitive requiredSlots
  pure ({ ok := true, reason := "pass", scratchSlotCount := requiredSlots,
          finalSlot := walk.finalSlot, dagValidated := true, slotBoundsValidated := true,
          paddingLawValidated := true }, walk.markers)

/-- Validation over markers of its own. -/
def validateFoldGraph (graph : FoldGraphView) :
    Validation (FoldGraphValidationResult × List UInt64) := do
  let requiredSlots ← foldGraphScratchSlotCount graph
  validateFoldGraphWithMarkers graph (List.replicate requiredSlots.toNat 0)

end RunD
