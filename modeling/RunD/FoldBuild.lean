/-
Building the fixed binary tree of a fold, and folding a list of slots over it.

`buildFoldGraph` plans the counts, populates the graph (two nodes a partition,
one edge and one node a reduction, level by level) and checks what it built
against the plan; `foldStrictOrderedSlots` builds a graph for the values at
hand and reduces it.  Slot numbers and counts are 32-bit words, as in the
source.  The loops over the levels run on the number of active slots, which
strictly decreases, as their fuel.
-/
import RunD.FoldReduce

namespace RunD

/-! ### Counts of the fixed binary tree -/

/-- `for (active = slot_count; active > 1; active = (active + 1) / 2)`. -/
def edgeCountFrom : Nat → UInt32 → UInt32 → UInt32
  | 0, _, edges => edges
  | fuel + 1, activeCount, edges =>
      if activeCount > 1 then
        edgeCountFrom fuel ((activeCount + 1) / 2) (edges + (activeCount + 1) / 2)
      else edges

def fixedBinaryTreeEdgeCount (slotCount : UInt32) : UInt32 :=
  edgeCountFrom slotCount.toNat slotCount 0

def foldGraphFixedBinaryTreeNodeCount (partitionCount : UInt32) : UInt32 :=
  if partitionCount = 0 ∨ partitionCount > 0xFFFFFFFF / 2 then 0
  else
    let workerAndOrderedNodes := partitionCount * 2
    let edgeCount := fixedBinaryTreeEdgeCount partitionCount
    if edgeCount > 0xFFFFFFFF - workerAndOrderedNodes then 0
    else workerAndOrderedNodes + edgeCount

def foldGraphFixedBinaryTreeScratchSlotCount (partitionCount : UInt32) : UInt32 :=
  if partitionCount = 0 then 0 else partitionCount + fixedBinaryTreeEdgeCount partitionCount

/-! ### Graphs and plans -/

/-- A fold graph with the vectors it owns. -/
structure FoldGraph where
  operation : FoldOperation := .fixedBinaryTreeHash
  valueDomain : FoldValueDomain := .hashDigest
  strictFloatReduction : StrictFloatReductionPolicy := {}
  partitionCount : UInt32 := 0
  workerLocalSlotCount : UInt32 := 0
  globalOrderedSlotCount : UInt32 := 0
  scratchSlotCount : UInt32 := 0
  finalSlot : UInt32 := 0
  fixedBinaryTree : Bool := true
  fixedTopologicalOrder : Bool := true
  dagValidated : Bool := false
  slotBoundsValidated : Bool := false
  paddingLawValidated : Bool := false
  primitiveStandardized : Bool := true
  floatingPointAllowed : Bool := false
  strictFloatingPoint : Bool := false
  partitionFoldSlots : Vec UInt32 := Vec.empty
  nodes : Vec FoldGraphNode := Vec.empty
  reductionEdges : Vec FoldGraphEdge := Vec.empty

/-- What a build reports. -/
structure FoldGraphBuild where
  ok : Bool := false
  reason : String := "not_run"
  partitionCount : UInt32 := 0
  workerLocalSlotCount : UInt32 := 0
  globalOrderedSlotCount : UInt32 := 0
  scratchSlotCount : UInt32 := 0
  nodeCount : UInt32 := 0
  reductionEdgeCount : UInt32 := 0
  finalSlot : UInt32 := 0
  operation : FoldOperation := .fixedBinaryTreeHash
  valueDomain : FoldValueDomain := .hashDigest
  dagValidated : Bool := false
  slotBoundsValidated : Bool := false
  paddingLawValidated : Bool := false
  strictFloatingPoint : Bool := false
  noAllocation : Bool := false
  deriving DecidableEq, Repr

structure BuildPlan where
  partitionCount : UInt32
  requiredEdges : UInt32
  requiredNodes : UInt32
  requiredScratchSlots : UInt32
  operation : FoldOperation
  primitive : FoldPrimitiveSpec
  strictFloatReduction : StrictFloatReductionPolicy
  allocation : AllocationPolicy

/-- What every report of a plan says. -/
def BuildPlan.report (plan : BuildPlan) (ok : Bool) (reason : String) : FoldGraphBuild :=
  { ok := ok
    reason := reason
    operation := plan.operation
    valueDomain := plan.primitive.valueDomain
    strictFloatingPoint := plan.primitive.requiresStrictFloatingPoint
    noAllocation := decide (plan.allocation = .noGrowth) }

def primitiveFailure (plan : BuildPlan) (reason : String) : FoldGraphBuild :=
  plan.report false reason

def capacityFailure (plan : BuildPlan) (reason : String) : FoldGraphBuild :=
  { plan.report false reason with
    partitionCount := plan.partitionCount
    workerLocalSlotCount := plan.partitionCount
    globalOrderedSlotCount := plan.partitionCount
    scratchSlotCount := plan.requiredScratchSlots
    nodeCount := plan.requiredNodes
    reductionEdgeCount := plan.requiredEdges }

def validationFailure (graph : FoldGraph) (plan : BuildPlan)
    (validation : FoldGraphValidationResult) : FoldGraphBuild :=
  { plan.report false validation.reason with
    partitionCount := plan.partitionCount
    workerLocalSlotCount := plan.partitionCount
    globalOrderedSlotCount := plan.partitionCount
    scratchSlotCount := plan.requiredScratchSlots
    nodeCount := UInt32.ofNat graph.nodes.items.length
    reductionEdgeCount := UInt32.ofNat graph.reductionEdges.items.length
    finalSlot := graph.finalSlot }

def buildSuccess (graph : FoldGraph) (plan : BuildPlan)
    (validation : FoldGraphValidationResult) : FoldGraphBuild :=
  { plan.report true "pass" with
    partitionCount := plan.partitionCount
    workerLocalSlotCount := plan.partitionCount
    globalOrderedSlotCount := plan.partitionCount
    scratchSlotCount := validation.scratchSlotCount
    nodeCount := UInt32.ofNat graph.nodes.items.length
    reductionEdgeCount := UInt32.ofNat graph.reductionEdges.items.length
    finalSlot := validation.finalSlot
    dagValidated := validation.dagValidated
    slotBoundsValidated := validation.slotBoundsValidated
    paddingLawValidated := validation.paddingLawValidated }

/-! ### Populating -/

/-- A build step: it leaves early with the report of a failed build. -/
abbrev Building := Checked FoldGraphBuild

/-- The node of a partition; the worker's and the ordered one differ in kind and index. -/
def partitionNode (plan : BuildPlan) (kind : FoldGraphNodeKind) (index : Nat) (slot : UInt32) :
    FoldGraphNode :=
  { kind := kind
    topologicalIndex := UInt32.ofNat index
    slot := slot
    leftSlot := slot
    rightSlot := slot
    operation := plan.operation
    valueDomain := plan.primitive.valueDomain
    paddingLaw := .none
    overflowLaw := plan.primitive.overflowLaw
    rightIsPadding := false }

/-- The two nodes of a partition, pushed. -/
def pushPartitionNodes (plan : BuildPlan) (nodes : Vec FoldGraphNode) (slot : UInt32) :
    Vec FoldGraphNode :=
  let nodes := nodes.pushBack (partitionNode plan .workerLocalPartial nodes.items.length slot)
  nodes.pushBack (partitionNode plan .globalOrderedSlot nodes.items.length slot)

def appendPartitionSlot (plan : BuildPlan) (partition : Nat) (graph : FoldGraph) :
    Building FoldGraph := do
  let slot := UInt32.ofNat partition
  let slots ← graph.partitionFoldSlots.assign partition slot
  pure { graph with
    partitionFoldSlots := slots, nodes := pushPartitionNodes plan graph.nodes slot }

def appendPartitionSlots (graph : FoldGraph) (plan : BuildPlan) : Building FoldGraph :=
  forRange plan.partitionCount.toNat (appendPartitionSlot plan) graph

/-- Where the loop over the levels stands. -/
structure TreeCursor where
  edgeIndex : UInt32
  level : UInt32
  currentSlotBase : UInt32
  activeCount : UInt32
  nextOutputBase : UInt32

/-- The edge of the pair that starts at item `pair` of the current level. -/
def treeEdge (plan : BuildPlan) (cursor : TreeCursor) (pair : UInt32) : FoldGraphEdge :=
  let hasRight := decide (pair + 1 < cursor.activeCount)
  { level := cursor.level
    leftSlot := cursor.currentSlotBase + pair
    rightSlot := if hasRight then cursor.currentSlotBase + pair + 1 else cursor.currentSlotBase + pair
    outputSlot := cursor.nextOutputBase + pair / 2
    operation := plan.operation
    paddingLaw := if hasRight then .none else plan.primitive.paddingLaw
    paddingValue := if hasRight then 0 else plan.primitive.paddingValue
    rightIsPadding := !hasRight }

/-- The node of an edge. -/
def reductionNode (plan : BuildPlan) (index : Nat) (edge : FoldGraphEdge) : FoldGraphNode :=
  { kind := .reduction
    topologicalIndex := UInt32.ofNat index
    slot := edge.outputSlot
    leftSlot := edge.leftSlot
    rightSlot := edge.rightSlot
    operation := plan.operation
    valueDomain := plan.primitive.valueDomain
    paddingLaw := edge.paddingLaw
    overflowLaw := plan.primitive.overflowLaw
    rightIsPadding := edge.rightIsPadding }

/-- The graph after `edge` is stored, with its node pushed. -/
def FoldGraph.withEdge (graph : FoldGraph) (plan : BuildPlan) (edges : Vec FoldGraphEdge)
    (edge : FoldGraphEdge) : FoldGraph :=
  { graph with
    reductionEdges := edges
    nodes := graph.nodes.pushBack (reductionNode plan graph.nodes.items.length edge)
    finalSlot := edge.outputSlot }

/-- The pair number `i` of a level: item `2 * i` and the item after it. -/
def appendPair (plan : BuildPlan) (cursor : TreeCursor) (i : Nat) (graph : FoldGraph) :
    Building FoldGraph := do
  let edge := treeEdge plan cursor (UInt32.ofNat (2 * i))
  let edges ← graph.reductionEdges.assign (cursor.edgeIndex + UInt32.ofNat i).toNat edge
  pure (graph.withEdge plan edges edge)

/-- The cursor at the next level. -/
def TreeCursor.next (cursor : TreeCursor) : TreeCursor :=
  let outputCount := (cursor.activeCount + 1) / 2
  { edgeIndex := cursor.edgeIndex + outputCount
    level := cursor.level + 1
    currentSlotBase := cursor.nextOutputBase
    activeCount := outputCount
    nextOutputBase := cursor.nextOutputBase + outputCount }

def appendLevels (plan : BuildPlan) : Nat → TreeCursor → FoldGraph → Building FoldGraph
  | 0, _, graph => pure graph
  | fuel + 1, cursor, graph =>
      if cursor.activeCount > 1 then do
        let outputCount := (cursor.activeCount + 1) / 2
        let graph ← forRange outputCount.toNat (appendPair plan cursor) graph
        appendLevels plan fuel cursor.next graph
      else pure graph

/-- The cursor at the leaves. -/
def TreeCursor.start (partitionCount : UInt32) : TreeCursor :=
  { edgeIndex := 0, level := 0, currentSlotBase := 0, activeCount := partitionCount,
    nextOutputBase := partitionCount }

def appendReductionTree (graph : FoldGraph) (plan : BuildPlan) : Building FoldGraph :=
  appendLevels plan plan.partitionCount.toNat (TreeCursor.start plan.partitionCount) graph

def populateFixedBinaryTreeGraph (graph : FoldGraph) (plan : BuildPlan) : Building FoldGraph := do
  let graph : FoldGraph := { graph with
    operation := plan.operation
    valueDomain := plan.primitive.valueDomain
    strictFloatReduction := plan.strictFloatReduction
    partitionCount := plan.partitionCount
    workerLocalSlotCount := plan.partitionCount
    globalOrderedSlotCount := plan.partitionCount
    scratchSlotCount := plan.requiredScratchSlots
    finalSlot := plan.partitionCount - 1
    fixedBinaryTree := true
    fixedTopologicalOrder := true
    dagValidated := false
    slotBoundsValidated := false
    paddingLawValidated := false
    primitiveStandardized := plan.primitive.supported
    floatingPointAllowed := false
    strictFloatingPoint := plan.primitive.requiresStrictFloatingPoint
    partitionFoldSlots := graph.partitionFoldSlots.resize plan.partitionCount.toNat 0
    nodes := graph.nodes.clear.reserve plan.requiredNodes.toNat }
  let graph ← appendPartitionSlots graph plan
  let graph : FoldGraph := { graph with
    reductionEdges := graph.reductionEdges.clear.resize plan.requiredEdges.toNat {} }
  appendReductionTree graph plan

/-! ### Checking what was built -/

def failBuiltGraphValidation (reason : String) (scratchSlotCount : UInt32) :
    FoldGraphValidationResult :=
  { ok := false, reason := reason, scratchSlotCount := scratchSlotCount }

def validateFixedGraphShape (graph : FoldGraph) (plan : BuildPlan) : Validation Unit := do
  require (graph.primitiveStandardized ∧ plan.primitive.supported)
    (failBuiltGraphValidation "unsupported_fold_operation" plan.requiredScratchSlots)
  require (graph.partitionCount = plan.partitionCount ∧
      graph.partitionFoldSlots.items.length = plan.partitionCount.toNat ∧
      graph.nodes.items.length = plan.requiredNodes.toNat ∧
      graph.reductionEdges.items.length = plan.requiredEdges.toNat ∧
      graph.scratchSlotCount = plan.requiredScratchSlots)
    (failBuiltGraphValidation "fold_graph_partition_mismatch" plan.requiredScratchSlots)

def validateFixedGraphPartitionNode (graph : FoldGraph) (plan : BuildPlan) (i : Nat) :
    Validation Unit := do
  let partition := UInt32.ofNat i
  let slot ← fetch graph.partitionFoldSlots.items i
  require (slot = partition)
    (failBuiltGraphValidation "fold_graph_slot_out_of_range" plan.requiredScratchSlots)
  let workerNode ← fetch graph.nodes.items (partition * 2).toNat
  let orderedNode ← fetch graph.nodes.items (partition * 2 + 1).toNat
  require (workerNode.kind = .workerLocalPartial ∧ orderedNode.kind = .globalOrderedSlot ∧
      workerNode.topologicalIndex = partition * 2 ∧
      orderedNode.topologicalIndex = partition * 2 + 1 ∧
      workerNode.slot = partition ∧ orderedNode.slot = partition ∧
      workerNode.operation = plan.operation ∧ orderedNode.operation = plan.operation ∧
      workerNode.valueDomain = plan.primitive.valueDomain ∧
      orderedNode.valueDomain = plan.primitive.valueDomain ∧
      workerNode.overflowLaw = plan.primitive.overflowLaw ∧
      orderedNode.overflowLaw = plan.primitive.overflowLaw)
    (failBuiltGraphValidation "fold_graph_node_mismatch" plan.requiredScratchSlots)

def validateFixedGraphPartitionNodes (graph : FoldGraph) (plan : BuildPlan) : Validation Unit :=
  forRange plan.partitionCount.toNat (fun i _ => validateFixedGraphPartitionNode graph plan i) ()

/-- One pair of a level, read back; the slot it writes becomes the final slot. -/
def validateFixedGraphPair (graph : FoldGraph) (plan : BuildPlan) (cursor : TreeCursor) (i : Nat) :
    Validation UInt32 := do
  let pair := UInt32.ofNat (2 * i)
  let edgeIndex := cursor.edgeIndex + UInt32.ofNat i
  require (edgeIndex < plan.requiredEdges)
    (failBuiltGraphValidation "fold_graph_edge_missing" plan.requiredScratchSlots)
  let expected := treeEdge plan cursor pair
  let hasRight := decide (pair + 1 < cursor.activeCount)
  let outOfRange := failBuiltGraphValidation "fold_graph_edge_out_of_range"
    plan.requiredScratchSlots
  require (expected.leftSlot < plan.requiredScratchSlots ∧
      expected.rightSlot < plan.requiredScratchSlots ∧
      expected.outputSlot < plan.requiredScratchSlots) outOfRange
  let edge ← fetch graph.reductionEdges.items edgeIndex.toNat
  require (edge.level = cursor.level ∧ edge.leftSlot = expected.leftSlot ∧
      edge.rightSlot = expected.rightSlot ∧ edge.outputSlot = expected.outputSlot ∧
      edge.operation = plan.operation ∧ edge.rightIsPadding ≠ hasRight) outOfRange
  let lawMismatch := failBuiltGraphValidation "fold_graph_padding_law_mismatch"
    plan.requiredScratchSlots
  require (¬ (hasRight ∧ edge.paddingLaw ≠ .none)) lawMismatch
  require (¬ (hasRight = false ∧ (edge.paddingLaw ≠ plan.primitive.paddingLaw ∨
      edge.paddingValue ≠ plan.primitive.paddingValue))) lawMismatch
  let nodeIndex := plan.partitionCount * 2 + edgeIndex
  let node ← fetch graph.nodes.items nodeIndex.toNat
  require (node.kind = .reduction ∧ node.topologicalIndex = nodeIndex ∧
      node.slot = edge.outputSlot ∧ node.leftSlot = edge.leftSlot ∧
      node.rightSlot = edge.rightSlot ∧ node.operation = plan.operation ∧
      node.valueDomain = plan.primitive.valueDomain ∧ node.paddingLaw = edge.paddingLaw ∧
      node.overflowLaw = plan.primitive.overflowLaw ∧
      node.rightIsPadding = edge.rightIsPadding)
    (failBuiltGraphValidation "fold_graph_node_mismatch" plan.requiredScratchSlots)
  pure expected.outputSlot

/-- The levels, read back; with the final slot comes the number of edges seen. -/
def validateFixedGraphLevels (graph : FoldGraph) (plan : BuildPlan) :
    Nat → TreeCursor → UInt32 → Validation (UInt32 × UInt32)
  | 0, cursor, finalSlot => pure (cursor.edgeIndex, finalSlot)
  | fuel + 1, cursor, finalSlot =>
      if cursor.activeCount > 1 then do
        let outputCount := (cursor.activeCount + 1) / 2
        let finalSlot ← forRange outputCount.toNat
          (fun i _ => validateFixedGraphPair graph plan cursor i) finalSlot
        validateFixedGraphLevels graph plan fuel cursor.next finalSlot
      else pure (cursor.edgeIndex, finalSlot)

def validateFixedGraphReductionEdges (graph : FoldGraph) (plan : BuildPlan) :
    Validation FoldGraphValidationResult := do
  let seen ← validateFixedGraphLevels graph plan plan.partitionCount.toNat
    (TreeCursor.start plan.partitionCount) (plan.partitionCount - 1)
  require (seen.1 = plan.requiredEdges ∧ graph.finalSlot = seen.2)
    (failBuiltGraphValidation "fold_graph_final_slot_mismatch" plan.requiredScratchSlots)
  pure { ok := true, reason := "pass", scratchSlotCount := plan.requiredScratchSlots,
         finalSlot := seen.2, dagValidated := true, slotBoundsValidated := true,
         paddingLawValidated := true }

def validateBuiltFixedBinaryTreeGraph (graph : FoldGraph) (plan : BuildPlan) :
    Validation FoldGraphValidationResult := do
  validateFixedGraphShape graph plan
  validateFixedGraphPartitionNodes graph plan
  validateFixedGraphReductionEdges graph plan

/-! ### The build -/

def makePlan (partitionCount : UInt32) (operation : FoldOperation)
    (strictFloatReduction : StrictFloatReductionPolicy) (allocation : AllocationPolicy) :
    BuildPlan :=
  { partitionCount := partitionCount
    requiredEdges := fixedBinaryTreeEdgeCount partitionCount
    requiredNodes := foldGraphFixedBinaryTreeNodeCount partitionCount
    requiredScratchSlots := foldGraphFixedBinaryTreeScratchSlotCount partitionCount
    operation := operation
    primitive := describeFoldOperation operation
    strictFloatReduction := strictFloatReduction
    allocation := allocation }

/-- The checks a build makes before it touches the graph. -/
def admitPlan (graph : FoldGraph) (plan : BuildPlan) : Building Unit := do
  require (isSupportedFoldOperation plan.operation)
    (primitiveFailure plan "unsupported_fold_operation")
  require (¬ (plan.primitive.admitsFloatingPoint ∧ plan.strictFloatReduction.valid = false))
    (primitiveFailure plan "floating_point_fold_forbidden")
  require (¬ (plan.primitive.admitsFloatingPoint ∧
      strictFloatReductionValid plan.operation plan.strictFloatReduction = false))
    (primitiveFailure plan "floating_point_law_mismatch")
  require (plan.partitionCount ≠ 0) (primitiveFailure plan "invalid_partition_count")
  require (plan.requiredNodes ≠ 0 ∧ plan.requiredScratchSlots ≠ 0)
    (capacityFailure plan "fold_graph_capacity_exceeded")
  require (¬ (plan.allocation = .noGrowth ∧
      (graph.partitionFoldSlots.capacity < plan.partitionCount.toNat ∨
        graph.nodes.capacity < plan.requiredNodes.toNat ∨
        graph.reductionEdges.capacity < plan.requiredEdges.toNat)))
    (capacityFailure plan "fold_graph_capacity_exceeded")

/-- `graph.*.reserve(..)` when the build may grow. -/
def reserveForPlan (graph : FoldGraph) (plan : BuildPlan) : FoldGraph :=
  if plan.allocation = .allowGrowth then
    { graph with
      partitionFoldSlots := graph.partitionFoldSlots.reserve plan.partitionCount.toNat
      nodes := graph.nodes.reserve plan.requiredNodes.toNat
      reductionEdges := graph.reductionEdges.reserve plan.requiredEdges.toNat }
  else graph

/-- `BuildFoldGraph`: the report of a successful build and the graph it built. -/
def buildFoldGraph (graph : FoldGraph) (partitionCount : UInt32) (operation : FoldOperation)
    (strictFloatReduction : StrictFloatReductionPolicy) (allocation : AllocationPolicy) :
    Building (FoldGraphBuild × FoldGraph) := do
  let plan := makePlan partitionCount operation strictFloatReduction allocation
  admitPlan graph plan
  let graph ← populateFixedBinaryTreeGraph (reserveForPlan graph plan) plan
  let validation ← (validateBuiltFixedBinaryTreeGraph graph plan).mapReject
    (fun failed => validationFailure graph plan failed)
  let graph := { graph with
    scratchSlotCount := validation.scratchSlotCount
    finalSlot := validation.finalSlot
    dagValidated := validation.dagValidated
    slotBoundsValidated := validation.slotBoundsValidated
    paddingLawValidated := validation.paddingLawValidated }
  pure (buildSuccess graph plan validation, graph)

def viewFoldGraph (graph : FoldGraph) : FoldGraphView :=
  { operation := graph.operation
    strictFloatReduction := graph.strictFloatReduction
    partitionCount := graph.partitionCount
    scratchSlotCount := graph.scratchSlotCount
    finalSlot := graph.finalSlot
    fixedTopologicalOrder := graph.fixedTopologicalOrder
    primitiveStandardized := graph.primitiveStandardized
    floatingPointAllowed := graph.floatingPointAllowed
    strictFloatingPoint := graph.strictFloatingPoint
    partitionFoldSlots := ArrayView.ofList graph.partitionFoldSlots.items
    nodes := ArrayView.ofList graph.nodes.items
    reductionEdges := ArrayView.ofList graph.reductionEdges.items }

/-! ### Folding a list of slots -/

/-- The failed result of an ordered fold. -/
def orderedFailure (values : List UInt64) (operation : FoldOperation) (reason : String) :
    FoldResult :=
  { ok := false, reason := reason, slotCount := UInt32.ofNat values.length,
    operation := operation }

/-- `FoldStrictOrderedSlots`. -/
def foldStrictOrderedSlots (values : List UInt64) (operation : FoldOperation)
    (policy : StrictFloatReductionPolicy) : Folding FoldResult := do
  require (isSupportedFoldOperation operation)
    (orderedFailure values operation "unsupported_fold_operation")
  require (¬ (foldOperationAllowsFloatingPoint operation ∧
      strictFloatReductionValid operation policy = false))
    (orderedFailure values operation
      (if policy.valid then "floating_point_law_mismatch" else "floating_point_fold_forbidden"))
  if values.isEmpty then
    pure { ok := true, reason := "pass", value := 0, slotCount := 0, operation := operation }
  else
    let built ← (buildFoldGraph {} (UInt32.ofNat values.length) operation policy
      .allowGrowth).mapReject (fun build => orderedFailure values operation build.reason)
    let result ← (foldGraphReduceSlots (viewFoldGraph built.2) values Vec.empty
      .allowGrowth).mapReject (fun failed =>
        { ok := failed.ok, reason := failed.reason, value := failed.value,
          slotCount := UInt32.ofNat values.length, operation := operation })
    pure { ok := result.1.ok, reason := result.1.reason, value := result.1.value,
           slotCount := UInt32.ofNat values.length, operation := operation }

/-- `FoldOrderedSlots`. -/
def foldOrderedSlots (values : List UInt64) (operation : FoldOperation) : Folding FoldResult :=
  foldStrictOrderedSlots values operation {}

end RunD
