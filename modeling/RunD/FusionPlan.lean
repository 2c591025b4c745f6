/-
The planner of map fusion, `PlanFusion`.

It decides for every two adjacent nodes whether the buffer between them can be
dropped.  The readers of a candidate buffer are counted in one sweep over the
graph: the candidates are sorted by buffer and writer, a binary search finds
those of a buffer, and the first of them holds the candidate whose value the
buffer currently has.
-/
import RunD.BinarySearch
import RunD.FusionGraph
import Mathlib.Data.List.Sort

namespace RunD

/-! ### Policies and plans -/

structure FusionNodePolicy where
  directReadMask : UInt64 := 0
  supported : Bool := false
  writesVisible : Bool := false
  bindingCount : UInt32 := 0
  irNodeCount : UInt32 := 0
  deriving DecidableEq, Repr

def kMaxFusionPolicyNodeCount : Nat := kMaxGraphNodeCount

def kFusionBoundaryWordCount : Nat := (kMaxGraphNodeCount + 63) / 64

structure FusionPlan where
  inputGraphId : GraphHash := { hi := 0, lo := 0 }
  outputGraphId : GraphHash := { hi := 0, lo := 0 }
  originalNodeCount : Nat := 0
  fusedNodeCount : Nat := 0
  rejectedEdgeCount : Nat := 0
  fusedBoundaries : List UInt64 := List.replicate kFusionBoundaryWordCount 0
  ok : Bool := false
  reason : String := "compute_fusion_invalid"
  deriving DecidableEq, Repr

/-- `fused_boundaries[index / 64u] & (u64{1u} << (index % 64u))`. -/
def boundaryBit (words : List UInt64) (index : Nat) : Bool :=
  words[index / 64]?.any fun word => word &&& (1 <<< UInt64.ofNat (index % 64)) != 0

/-- `boundary_fused`. -/
def FusionPlan.boundaryFused (plan : FusionPlan) (index : Nat) : Bool :=
  plan.originalNodeCount != 0 && decide (index < plan.originalNodeCount - 1) &&
    boundaryBit plan.fusedBoundaries index

/-! ### Inspection of the boundaries -/

structure BoundaryShape where
  producerWrites : Nat := 0
  consumerReads : Nat := 0
  consumerReadOrdinal : Nat := 0
  intermediate : UInt64 := 0
  candidate : Bool := false
  deriving DecidableEq, Repr

/-- The buffers a node writes, in order. -/
def GraphNode.writeIds (node : GraphNode) : List UInt64 :=
  (node.buffers.filter fun buffer => buffer.role == .write).map GraphBufferRef.logicalId

/-- The buffers a node reads, in order; the position is the read ordinal. -/
def GraphNode.readIds (node : GraphNode) : List UInt64 :=
  (node.buffers.filter fun buffer => buffer.role == .read).map GraphBufferRef.logicalId

/-- The position of the last occurrence. -/
def lastIdxOf (id : UInt64) (ids : List UInt64) : Nat := ids.length - 1 - ids.reverse.idxOf id

/-- `InspectBoundary`. -/
def inspectBoundary (left right : GraphNode) : BoundaryShape :=
  match left.writeIds with
  | [intermediate] =>
      if right.readIds.contains intermediate then
        { producerWrites := 1, consumerReads := right.readIds.count intermediate,
          consumerReadOrdinal := lastIdxOf intermediate right.readIds,
          intermediate := intermediate, candidate := true }
      else { producerWrites := 1, intermediate := intermediate }
  | writes =>
      -- not fusible; the first match names the rejection
      match writes.find? right.readIds.contains with
      | some intermediate =>
          { producerWrites := writes.length, consumerReads := 1, intermediate := intermediate,
            candidate := true }
      | none => { producerWrites := writes.length, intermediate := writes.head?.getD 0 }

/-- A candidate version: a buffer and the node that writes it.  `active` is used in the first
fact of a buffer, for the index of the candidate the buffer currently holds. -/
structure ReaderFact where
  logicalId : UInt64 := 0
  writer : Nat := 0
  readers : Nat := 0
  active : Option Nat := none
  deriving DecidableEq, Repr

/-- `facts[index]` satisfies `test`. -/
def factAt (facts : List ReaderFact) (test : ReaderFact → Bool) (index : Nat) : Bool :=
  facts[index]?.any test

def lowerBoundId (facts : List ReaderFact) (logicalId : UInt64) : Nat :=
  partitionPoint (factAt facts fun fact => fact.logicalId < logicalId) 0 facts.length

def upperBoundId (facts : List ReaderFact) (first : Nat) (logicalId : UInt64) : Nat :=
  partitionPoint (factAt facts fun fact => fact.logicalId ≤ logicalId) first (facts.length - first)

def findWriter (facts : List ReaderFact) (first last writer : Nat) : Option Nat :=
  let found := partitionPoint (factAt facts fun fact => fact.writer < writer) first (last - first)
  if found < last ∧ factAt facts (fun fact => fact.writer == writer) found then some found else none

/-- The buffer has candidates, and this is where they start. -/
def firstOf (facts : List ReaderFact) (logicalId : UInt64) : Option Nat :=
  let first := lowerBoundId facts logicalId
  if factAt facts (fun fact => fact.logicalId == logicalId) first then some first else none

/-- A read of the buffer counts for the candidate it currently holds. -/
def countRead (facts : List ReaderFact) (logicalId : UInt64) : List ReaderFact :=
  match (firstOf facts logicalId).bind fun first => facts[first]?.bind ReaderFact.active with
  | some index => facts.modify index fun fact => { fact with readers := fact.readers + 1 }
  | none => facts

/-- A write of the buffer by a node makes it hold the candidate of that node, if there is one. -/
def activateWrite (facts : List ReaderFact) (logicalId : UInt64) (node : Nat) : List ReaderFact :=
  match firstOf facts logicalId with
  | some first =>
      let last := upperBoundId facts first logicalId
      facts.modify first fun fact => { fact with active := findWriter facts first last node }
  | none => facts

/-- The reads of a node and then its writes. -/
def sweepNode (facts : List ReaderFact) (node : GraphNode) (index : Nat) : List ReaderFact :=
  node.writeIds.foldl (fun facts id => activateWrite facts id index)
    (node.readIds.foldl countRead facts)

/-- The shape of the boundary behind a node. -/
def boundaryShape (graph : Graph) (index : Nat) : BoundaryShape :=
  match graph.nodes[index]?, graph.nodes[index + 1]? with
  | some left, some right => inspectBoundary left right
  | _, _ => {}

/-- The candidates that have one producer and one read, in the order of the boundaries. -/
def candidateFacts (graph : Graph) : List ReaderFact :=
  (List.range (graph.nodes.length - 1)).filterMap fun boundary =>
    let shape := boundaryShape graph boundary
    if shape.candidate ∧ shape.producerWrites = 1 ∧ shape.consumerReads = 1 then
      some { logicalId := shape.intermediate, writer := boundary }
    else none

/-- The order of the facts. -/
def FactLe (left right : ReaderFact) : Prop :=
  left.logicalId < right.logicalId ∨
    left.logicalId = right.logicalId ∧ left.writer ≤ right.writer

instance : DecidableRel FactLe := fun _ _ => inferInstanceAs (Decidable (_ ∨ _ ∧ _))

/-- `BuildReaderFacts`. -/
def buildReaderFacts (graph : Graph) : List ReaderFact :=
  graph.nodes.zipIdx.foldl (fun facts x => sweepNode facts x.1 x.2)
    ((candidateFacts graph).insertionSort FactLe)

def readerCount (facts : List ReaderFact) (logicalId : UInt64) (writer : Nat) : Nat :=
  match firstOf facts logicalId with
  | none => 0
  | some first =>
      match findWriter facts first (upperBoundId facts first logicalId) writer with
      | none => 0
      | some found => (facts[found]?.map ReaderFact.readers).getD 0

/-! ### Boundary decisions -/

structure BoundaryPlan where
  rejectedEdges : Nat := 0
  intermediate : UInt64 := 0
  decision : UInt64 := 0
  fused : Bool := false
  reason : String := "compute_fusion_ok"
  deriving DecidableEq, Repr

def rejectBoundary (reason : String) (decision intermediate : UInt64) : BoundaryPlan :=
  { rejectedEdges := 1, intermediate := intermediate, decision := decision, reason := reason }

def kBoundaryDecisionFused : UInt64 := 1

def kBoundaryDecisionDependencyConflict : UInt64 := 2

def kBoundaryDecisionVisibilityBoundary : UInt64 := 3

def kBoundaryDecisionUnsupportedOp : UInt64 := 4

def kBoundaryDecisionCapacityBoundary : UInt64 := 5

/-- The consumer reads the buffer with this read ordinal element by element. -/
def directRead (policy : FusionNodePolicy) (ordinal : Nat) : Bool :=
  decide (ordinal < 64) && policy.directReadMask &&& (1 <<< UInt64.ofNat ordinal) != 0

/-- `EvaluateBoundary`, on the two nodes and their policies. -/
def evaluateBoundary (facts : List ReaderFact) (shape : BoundaryShape) (leftIndex : Nat)
    (left right : GraphNode) (leftPolicy rightPolicy : FusionNodePolicy) : BoundaryPlan :=
  if shape.candidate = false then {}
  else if leftPolicy.writesVisible then
    rejectBoundary "compute_fusion_visibility_boundary" kBoundaryDecisionVisibilityBoundary
      shape.intermediate
  else if shape.producerWrites ≠ 1 ∨ shape.consumerReads ≠ 1 ∨
      readerCount facts shape.intermediate leftIndex ≠ 1 then
    rejectBoundary "compute_fusion_dependency_conflict" kBoundaryDecisionDependencyConflict
      shape.intermediate
  else if left.kind ≠ .map ∨ right.kind ≠ .map ∨ leftPolicy.supported = false ∨
      rightPolicy.supported = false ∨ left.elementCount ≠ right.elementCount then
    rejectBoundary "compute_fusion_unsupported_op" kBoundaryDecisionUnsupportedOp shape.intermediate
  else if directRead rightPolicy shape.consumerReadOrdinal = false then
    rejectBoundary "compute_fusion_dependency_conflict" kBoundaryDecisionDependencyConflict
      shape.intermediate
  else { intermediate := shape.intermediate, decision := kBoundaryDecisionFused, fused := true }

def fusionNodePolicyValid (node : FusionNodePolicy) : Bool :=
  node.supported == (node.bindingCount != 0 && node.irNodeCount != 0) &&
    decide (node.bindingCount.toNat ≤ kMaxComputeBindingCount) &&
    decide (node.irNodeCount.toNat ≤ kMaxComputeNodeCount)

def validPolicy (policy : List FusionNodePolicy) (nodeCount : Nat) : Bool :=
  policy.length == nodeCount && decide (policy.length ≤ kMaxFusionPolicyNodeCount) &&
    policy.all fusionNodePolicyValid

/-- The costs of the region that is being formed. -/
structure RegionCost where
  bindings : UInt64 := 0
  irNodes : UInt64 := 0
  deriving DecidableEq, Repr

def FusionNodePolicy.cost (policy : FusionNodePolicy) : RegionCost :=
  { bindings := policy.bindingCount.toUInt64, irNodes := policy.irNodeCount.toUInt64 }

/-- `MergeFits`, with the merged costs when they fit. -/
def mergeFits (region : RegionCost) (right : FusionNodePolicy) : Option RegionCost :=
  let bindings := region.bindings + right.bindingCount.toUInt64 - 2
  let irNodes := region.irNodes + right.irNodeCount.toUInt64 - 2
  if bindings ≠ 0 ∧ irNodes ≠ 0 ∧ bindings.toNat ≤ kMaxComputeBindingCount ∧
      irNodes.toNat ≤ kMaxComputeNodeCount then
    some { bindings := bindings, irNodes := irNodes }
  else none

/-- A boundary and the region behind it. -/
def settleBoundary (region : RegionCost) (rightPolicy : FusionNodePolicy)
    (boundary : BoundaryPlan) : BoundaryPlan × RegionCost :=
  if boundary.fused then
    match mergeFits region rightPolicy with
    | some merged => (boundary, merged)
    | none =>
        (rejectBoundary "compute_fusion_capacity_boundary" kBoundaryDecisionCapacityBoundary
          boundary.intermediate, rightPolicy.cost)
  else (boundary, rightPolicy.cost)

/-! ### The plan -/

/-- `fused_boundaries[index / 64u] |= u64{1u} << (index % 64u)`. -/
def markBoundary (words : List UInt64) (index : Nat) : List UInt64 :=
  words.modify (index / 64) fun word => word ||| (1 <<< UInt64.ofNat (index % 64))

/-- What the loop over the boundaries carries along. -/
structure PlanState where
  region : RegionCost
  decisions : GraphHash := { hi := 0xc6a4a7935bd1e995, lo := 0x9e3779b97f4a7c15 }
  fusedCount : Nat := 0
  rejectedEdges : Nat := 0
  firstRejection : String := "compute_fusion_ok"
  words : List UInt64 := List.replicate kFusionBoundaryWordCount 0
  deriving DecidableEq, Repr

/-- One turn of the loop over the boundaries. -/
def planBoundary (graph : Graph) (policy : List FusionNodePolicy) (facts : List ReaderFact)
    (index : Nat) (state : PlanState) : Checked String PlanState := do
  let left ← fetch graph.nodes index
  let right ← fetch graph.nodes (index + 1)
  let leftPolicy ← fetch policy index
  let rightPolicy ← fetch policy (index + 1)
  let evaluated := evaluateBoundary facts (inspectBoundary left right) index left right leftPolicy
    rightPolicy
  let (boundary, region) := settleBoundary state.region rightPolicy evaluated
  pure
    { region := region
      decisions := state.decisions.mixAll [UInt64.ofNat index, boundary.decision,
        boundary.intermediate, UInt64.ofNat boundary.rejectedEdges, if boundary.fused then 1 else 0]
      fusedCount := state.fusedCount + if boundary.fused then 1 else 0
      rejectedEdges := state.rejectedEdges + boundary.rejectedEdges
      firstRejection :=
        if boundary.rejectedEdges ≠ 0 ∧ state.rejectedEdges = 0 then boundary.reason
        else state.firstRejection
      words := if boundary.fused then markBoundary state.words index else state.words }

def mixPolicy (hash : GraphHash) (policy : List FusionNodePolicy) : GraphHash :=
  policy.zipIdx.foldl (fun hash x => hash.mixAll [UInt64.ofNat x.2, x.1.directReadMask,
    if x.1.supported then 1 else 0, if x.1.writesVisible then 1 else 0,
    x.1.bindingCount.toUInt64, x.1.irNodeCount.toUInt64]) (hash.mix (UInt64.ofNat policy.length))

def fusedOutputId (input : GraphHash) (policy : List FusionNodePolicy)
    (originalNodeCount fusedNodeCount rejectedEdgeCount : Nat) (decisions : GraphHash) :
    GraphHash :=
  if originalNodeCount = fusedNodeCount ∧ rejectedEdgeCount = 0 then input
  else
    (mixPolicy (input.mix 0x667573696f6e5f76) policy).mixAll [UInt64.ofNat originalNodeCount,
      UInt64.ofNat fusedNodeCount, UInt64.ofNat rejectedEdgeCount, decisions.hi, decisions.lo]

/-- The plan of a graph that has passed its checks. -/
def planGraph (graph : Graph) (policy : List FusionNodePolicy) (input : GraphHash) :
    Checked String FusionPlan := do
  let facts := buildReaderFacts graph
  let firstPolicy ← fetch policy 0
  let state ← forRange (graph.nodes.length - 1) (planBoundary graph policy facts)
    { region := firstPolicy.cost }
  let fusedNodeCount := graph.nodes.length - state.fusedCount
  pure
    { inputGraphId := input
      outputGraphId := fusedOutputId input policy graph.nodes.length fusedNodeCount
        state.rejectedEdges state.decisions
      originalNodeCount := graph.nodes.length
      fusedNodeCount := fusedNodeCount
      rejectedEdgeCount := state.rejectedEdges
      fusedBoundaries := state.words
      ok := true
      reason := if state.rejectedEdges = 0 then "compute_fusion_ok" else state.firstRejection }

/-- `PlanFusion`; a plan that is not ok is the reason it carries. -/
def planFusion (graph : Graph) (policy : List FusionNodePolicy) : Checked String FusionPlan := do
  let input ← validateGraph graph
  require (validPolicy policy graph.nodes.length) "compute_fusion_policy_invalid"
  planGraph graph policy input

end RunD
