/-
The evaluation of the candidates of a range plan.

Each candidate that a shape and a capability allow lists its stages and
temporaries while its cost is added up.  Costs are 128-bit words under checked
additions and products.  An evaluation ends with nothing when the candidate is
not available; the Boolean of that outcome says whether an overflow was seen.
-/
import RunD.RangeModel

namespace RunD.Range

/-! ### Costs -/

/-- A 128-bit word. -/
abbrev Wide : Type := BitVec 128

/-- A 64-bit word as a wide one. -/
def wide (value : UInt64) : Wide := value.toBitVec.setWidth 128

/-- `Add`. -/
def addWide (left right : Wide) : Option Wide :=
  if left > BitVec.allOnes 128 - right then none else some (left + right)

/-- `Multiply`. -/
def multiplyWide (left right : Wide) : Option Wide :=
  if right ≠ 0 ∧ left > BitVec.allOnes 128 / right then none else some (left * right)

/-- `AccumulateProduct`; also `AccumulateBytes`. -/
def accumulateProduct (target left right : Wide) : Option Wide := do
  let product ← multiplyWide left right
  addWide target product

/-- `RangeCost`. -/
structure RangeCost where
  globalReadBytes : Wide := 0
  globalWriteBytes : Wide := 0
  combineOps : Wide := 0
  inverseOps : Wide := 0
  scaleOps : Wide := 0
  sharedBytes : UInt64 := 0
  scratchBytes : UInt64 := 0
  dispatchCount : UInt64 := 0
  workgroupCount : UInt64 := 0
  launchedLanes : Wide := 0
  deriving DecidableEq, Repr

/-- `CandidateEvaluation`. -/
structure CandidateEvaluation where
  candidate : RangeCandidate
  cost : RangeCost := {}
  stages : List RangeStagePlan := []
  temporaries : List RangeTempReq := []
  deriving DecidableEq, Repr

/-- A candidate that is evaluated, or that is not available, with or without an overflow. -/
abbrev Evaluated := Except Bool

/-- What overflows when there is no value. -/
def orOverflow {α : Type} : Option α → Evaluated α
  | some value => pure value
  | none => Except.error true

/-- An evaluation in which every failure counts as an overflow. -/
def overflowing {α : Type} : Evaluated α → Evaluated α
  | Except.ok value => pure value
  | Except.error _ => Except.error true

/-- The candidate is available only under a condition. -/
def available (condition : Bool) : Evaluated Unit :=
  if condition then pure () else Except.error false

/-- `FitsGroups`. -/
def fitsGroups (caps : RangeCaps) (groups : UInt64) : Bool :=
  groups != 0 && (caps.cpuOnly || decide (groups ≤ caps.maximumGroupCount))

namespace CandidateEvaluation

/-- The cost replaced, when it did not overflow. -/
def charge (evaluation : CandidateEvaluation) (cost : Option RangeCost) :
    Evaluated CandidateEvaluation := do
  let cost ← orOverflow cost
  pure { evaluation with cost }

def addRead (evaluation : CandidateEvaluation) (elements : Wide) (elementBytes : UInt32) :
    Evaluated CandidateEvaluation :=
  evaluation.charge do
    let bytes ← accumulateProduct evaluation.cost.globalReadBytes elements
      (wide elementBytes.toUInt64)
    some { evaluation.cost with globalReadBytes := bytes }

def addWrite (evaluation : CandidateEvaluation) (elements : Wide) (elementBytes : UInt32) :
    Evaluated CandidateEvaluation :=
  evaluation.charge do
    let bytes ← accumulateProduct evaluation.cost.globalWriteBytes elements
      (wide elementBytes.toUInt64)
    some { evaluation.cost with globalWriteBytes := bytes }

/-- `AccumulateProduct` on the combinations; a plain `Accumulate` is the product with one. -/
def addCombine (evaluation : CandidateEvaluation) (left right : Wide) :
    Evaluated CandidateEvaluation :=
  evaluation.charge do
    let ops ← accumulateProduct evaluation.cost.combineOps left right
    some { evaluation.cost with combineOps := ops }

def addInverse (evaluation : CandidateEvaluation) (count : Wide) : Evaluated CandidateEvaluation :=
  evaluation.charge do
    let ops ← addWide evaluation.cost.inverseOps count
    some { evaluation.cost with inverseOps := ops }

def addScale (evaluation : CandidateEvaluation) (count : Wide) : Evaluated CandidateEvaluation :=
  evaluation.charge do
    let ops ← addWide evaluation.cost.scaleOps count
    some { evaluation.cost with scaleOps := ops }

def addLanes (evaluation : CandidateEvaluation) (left right : Wide) :
    Evaluated CandidateEvaluation :=
  evaluation.charge do
    let lanes ← accumulateProduct evaluation.cost.launchedLanes left right
    some { evaluation.cost with launchedLanes := lanes }

/-- What `AppendStage` adds to the cost. -/
def stageCost (cost : RangeCost) (stage : RangeStagePlan) : Option RangeCost :=
  if cost.dispatchCount = kWordMax then none
  else if checkedAdd cost.workgroupCount stage.groups = false then none
  else
    let counted :=
      { cost with
        dispatchCount := cost.dispatchCount + 1
        workgroupCount := cost.workgroupCount + stage.groups }
    if stage.width = 0 then some counted
    else do
      let lanes ←
        accumulateProduct cost.launchedLanes (wide stage.groups) (wide stage.width.toUInt64)
      some { counted with launchedLanes := lanes }

/-- `AppendStage`. -/
def appendStage (evaluation : CandidateEvaluation) (caps : RangeCaps) (stage : RangeStagePlan) :
    Evaluated CandidateEvaluation := do
  available (evaluation.stages.length != kRangeStageCap &&
    decide (stage.elementCount ≤ caps.maximumStorageElementCount) && fitsGroups caps stage.groups)
  let evaluation ← evaluation.charge (stageCost evaluation.cost stage)
  pure { evaluation with stages := evaluation.stages ++ [stage] }

/-- `AppendTemporary`. -/
def appendTemporary (evaluation : CandidateEvaluation) (caps : RangeCaps)
    (temporary : RangeTempReq) : Evaluated CandidateEvaluation := do
  available (evaluation.temporaries.length != kRangeTempCap &&
    decide (temporary.bytes ≤ caps.maximumStorageBindingBytes))
  let evaluation ← evaluation.charge (
    if checkedAdd evaluation.cost.scratchBytes temporary.bytes then
      some { evaluation.cost with
        scratchBytes := evaluation.cost.scratchBytes + temporary.bytes }
    else none)
  pure { evaluation with temporaries := evaluation.temporaries ++ [temporary] }

end CandidateEvaluation

/-! ### Traffic and budgets -/

/-- `BoundaryTraffic`. -/
structure BoundaryTraffic where
  validSamples : Wide
  leftAffected : UInt64
  rightAffected : UInt64
  leftPrefixReads : UInt64
  deriving DecidableEq, Repr

/-- The pairs among some windows, times their stride. -/
def anchorSum (affected stride : UInt64) : Option Wide :=
  multiplyWide (wide affected * wide (if affected = 0 then 0 else affected - 1) / 2) (wide stride)

/-- `AffineBoundaryTraffic`. -/
def affineBoundaryTraffic (shape : RangeShape) : Option BoundaryTraffic := do
  let outputs := shape.outputCount
  let stride := shape.stride
  let rightExtent := shape.rightExtent
  let leftAffected := min outputs (groupsFor shape.padding stride)
  let rightFirst :=
    if rightExtent ≥ shape.inputCount then 0
    else min outputs (groupsFor (shape.inputCount - rightExtent) stride)
  let rightAffected := outputs - rightFirst
  let firstPositiveLeft := min outputs (shape.padding / stride + 1)
  let allSamples ← multiplyWide (wide outputs) (wide shape.windowSize)
  let leftPadding ← multiplyWide (wide leftAffected) (wide shape.padding)
  let leftAnchors ← anchorSum leftAffected stride
  if leftPadding < leftAnchors then none
  else do
    let leftMissing := leftPadding - leftAnchors
    let firstRightMissing :=
      if rightAffected = 0 then 0
      else wide rightFirst * wide stride + wide rightExtent + 1 - wide shape.inputCount
    let rightPadding ← multiplyWide (wide rightAffected) firstRightMissing
    let rightAnchors ← anchorSum rightAffected stride
    let rightMissing ← addWide rightPadding rightAnchors
    let missing ← addWide leftMissing rightMissing
    if missing ≥ allSamples then none
    else
      some { validSamples := allSamples - missing
             leftAffected
             rightAffected
             leftPrefixReads := outputs - firstPositiveLeft }

/-- `SharedRadiusCapacity`. -/
def sharedRadiusCapacity (caps : RangeCaps) (width elementBytes : UInt32) : UInt32 :=
  if caps.sharedMemoryOccupancyBudget = 0 ∨ elementBytes = 0 then 0
  else
    let elementCapacity := caps.sharedMemoryLimit / caps.sharedMemoryOccupancyBudget.toUInt64 /
      elementBytes.toUInt64
    if elementCapacity ≤ width.toUInt64 then 0
    else (min width.toUInt64 ((elementCapacity - width.toUInt64) / 2)).toUInt32

/-- `SharedBudgetFits`. -/
def sharedBudgetFits (caps : RangeCaps) (sharedBytes : UInt64) : Bool :=
  caps.sharedMemoryOccupancyBudget != 0 &&
    decide (sharedBytes ≤ caps.sharedMemoryLimit / caps.sharedMemoryOccupancyBudget.toUInt64)

/-! ### Candidates -/

/-- `BuildDirect`. -/
def buildDirect (shape : RangeShape) (caps : RangeCaps) (candidate : RangeCandidate) :
    Evaluated CandidateEvaluation := do
  let traffic ← orOverflow (affineBoundaryTraffic shape)
  let readElements :=
    if shape.boundary = .clamp then wide shape.outputCount * wide shape.windowSize
    else traffic.validSamples
  let evaluation : CandidateEvaluation := { candidate }
  let evaluation ← evaluation.addRead readElements shape.elementBytes
  let evaluation ← evaluation.addWrite (wide shape.outputCount) shape.elementBytes
  let evaluation ← evaluation.addCombine (readElements - wide shape.outputCount) 1
  let evaluation ← evaluation.appendStage caps
    { disposition := .direct
      level := 0
      elementCount := shape.outputCount
      groups :=
        if candidate.width = 0 then 1 else groupsFor shape.outputCount candidate.width.toUInt64
      width := candidate.width }
  pure { evaluation with
    cost := { evaluation.cost with
      launchedLanes :=
        if candidate.width = 0 then wide shape.outputCount else evaluation.cost.launchedLanes } }

/-- The elements that the shared tiles read. -/
def haloReads (shape : RangeShape) (candidate : RangeCandidate) (groups : UInt64) : Option Wide :=
  if groups ≤ 1 then some (wide shape.inputCount)
  else do
    let tail := shape.inputCount - (groups - 1) * candidate.width.toUInt64
    let groupTerm ← multiplyWide (wide groups) 2
    if groupTerm < 3 then none
    else do
      let halo ← multiplyWide (groupTerm - 3) (wide shape.padding)
      let halo ← addWide halo (wide (min shape.padding tail))
      addWide (wide shape.inputCount) halo

/-- `BuildSharedHalo`. -/
def buildSharedHalo (shape : RangeShape) (caps : RangeCaps) (candidate : RangeCandidate) :
    Evaluated CandidateEvaluation := do
  available (shape.centeredClamp &&
    !decide (candidate.radiusCapacity.toUInt64 < shape.padding))
  let groups := groupsFor shape.outputCount candidate.width.toUInt64
  available (fitsGroups caps groups)
  let sharedBytes :=
    (candidate.width + 2 * candidate.radiusCapacity).toUInt64 * shape.elementBytes.toUInt64
  available (sharedBudgetFits caps sharedBytes)
  overflowing do
    let readElements ← orOverflow (haloReads shape candidate groups)
    let evaluation : CandidateEvaluation := { candidate, cost := { sharedBytes } }
    let evaluation ← evaluation.addRead readElements shape.elementBytes
    let evaluation ← evaluation.addWrite (wide shape.outputCount) shape.elementBytes
    let twiceRadius ← orOverflow (multiplyWide (wide shape.padding) 2)
    let evaluation ← evaluation.addCombine (wide shape.outputCount) twiceRadius
    evaluation.appendStage caps
      { disposition := .sharedHalo
        level := 0
        elementCount := shape.outputCount
        groups
        width := candidate.width }

/-- `BuildTiledDifference`. -/
def buildTiledDifference (shape : RangeShape) (caps : RangeCaps) (candidate : RangeCandidate) :
    Evaluated CandidateEvaluation := do
  available (!caps.cpuOnly && shape.centeredClamp && shape.traits.invertible)
  let tile := (candidate.width * kRangeTileOutputsPerLane).toUInt64
  let groups := groupsFor shape.outputCount tile
  let sharedBytes := (2 * candidate.width).toUInt64 * shape.elementBytes.toUInt64
  available (fitsGroups caps groups && sharedBudgetFits caps sharedBytes)
  overflowing do
    let anchors ← orOverflow (RangeShape.affine shape.traits .clamp shape.inputCount groups
      shape.windowSize tile shape.padding shape.elementBytes .descriptor)
    let traffic ← orOverflow (affineBoundaryTraffic anchors)
    let corrections := wide traffic.leftAffected + wide traffic.rightAffected
    let differences := wide (shape.outputCount - groups)
    let reads ← orOverflow (addWide traffic.validSamples corrections)
    let reads ← orOverflow (accumulateProduct reads differences 2)
    let evaluation : CandidateEvaluation := { candidate, cost := { sharedBytes } }
    let evaluation ← evaluation.addRead reads shape.elementBytes
    let evaluation ← evaluation.addWrite (wide shape.outputCount) shape.elementBytes
    let evaluation ← evaluation.addCombine (traffic.validSamples - wide groups) 1
    let evaluation ← evaluation.addCombine corrections 1
    let evaluation ← evaluation.addCombine (wide groups)
      (wide (2 * (candidate.width - 1)).toUInt64)
    let evaluation ← evaluation.addCombine differences 1
    let evaluation ← evaluation.addCombine (wide shape.outputCount) 1
    let evaluation ← evaluation.addInverse differences
    let evaluation ← evaluation.addScale corrections
    evaluation.appendStage caps
      { disposition := .tiledDifference
        level := 0
        elementCount := shape.outputCount
        groups
        width := candidate.width }

/-- The windows that reach an edge, when the edges are read. -/
def endpointReads (shape : RangeShape) (traffic : BoundaryTraffic) : Wide :=
  if shape.boundary = .clamp then wide traffic.leftAffected + wide traffic.rightAffected else 0

/-- `BuildPrefixDifference` on a processor. -/
def buildPrefixCpu (shape : RangeShape) (caps : RangeCaps) (candidate : RangeCandidate) :
    Evaluated CandidateEvaluation := do
  let some traffic := affineBoundaryTraffic shape | Except.error false
  let evaluation : CandidateEvaluation := { candidate }
  let evaluation ← evaluation.appendTemporary caps
    { role := .prefixValues
      ordinal := 0
      bytes := shape.payloadBytes
      alignment := shape.elementBytes.toUInt64
      firstStage := 0
      lastStage := 1 }
  let evaluation ← evaluation.appendStage caps
    { disposition := .prefixSequential
      level := 0
      elementCount := shape.inputCount
      groups := 1
      width := 0 }
  let evaluation ← evaluation.appendStage caps
    { disposition := .prefixWindow
      level := 0
      elementCount := shape.outputCount
      groups := 1
      width := 0 }
  overflowing do
    let endpoints := endpointReads shape traffic
    let outputReads ← orOverflow (addWide (wide shape.outputCount) (wide traffic.leftPrefixReads))
    let outputReads ← orOverflow (addWide outputReads endpoints)
    let evaluation ← evaluation.addRead (wide shape.inputCount) shape.elementBytes
    let evaluation ← evaluation.addRead outputReads shape.elementBytes
    let evaluation ← evaluation.addWrite (wide shape.inputCount) shape.elementBytes
    let evaluation ← evaluation.addWrite (wide shape.outputCount) shape.elementBytes
    let evaluation ← evaluation.addCombine (wide (shape.inputCount - 1)) 1
    let evaluation ← evaluation.addCombine endpoints 1
    let evaluation ← evaluation.addInverse (wide traffic.leftPrefixReads)
    let evaluation ← evaluation.addScale endpoints
    let lanes ← orOverflow (addWide (wide shape.inputCount) (wide shape.outputCount))
    pure { evaluation with cost := { evaluation.cost with launchedLanes := lanes } }

/-- The turn of the loop of `BuildPrefixDifference` over a stage of the hierarchy. -/
def prefixTurn (shape : RangeShape) (caps : RangeCaps) (candidate : RangeCandidate)
    (hierarchy : PrefixBuilder) (evaluation : CandidateEvaluation) (stage : RangeStagePlan) :
    Evaluated CandidateEvaluation :=
  if stage.disposition = .prefixFixup ∧ stage.level = 0 then pure evaluation
  else do
    let evaluation ← evaluation.appendStage caps stage
    if stage.disposition = .prefixBlock ∨ stage.disposition = .prefixSummary then do
      let evaluation ← evaluation.addRead (wide stage.elementCount) shape.elementBytes
      let evaluation ← evaluation.addWrite (wide stage.elementCount) shape.elementBytes
      let evaluation ← evaluation.addCombine (wide stage.groups)
        (wide (2 * (candidate.width - 1)).toUInt64)
      if stage.groups > 1 then
        match hierarchy.temporaries.find? fun temporary =>
            temporary.role == .blockSummaries && temporary.ordinal == stage.level with
        | none => Except.error true
        | some temporary => overflowing do
            let evaluation ← evaluation.appendTemporary caps temporary
            evaluation.addWrite (wide stage.groups) shape.elementBytes
      else pure evaluation
    else if stage.disposition ≠ .prefixFixup then Except.error true
    else do
      let adjusted :=
        stage.elementCount - min stage.elementCount candidate.width.toUInt64
      let evaluation ← evaluation.addRead (wide adjusted * 2) shape.elementBytes
      let evaluation ← evaluation.addWrite (wide adjusted) shape.elementBytes
      evaluation.addCombine (wide adjusted) 1

/-- The endpoints outside block zero, on the right and on the left. -/
def offsetReads (shape : RangeShape) (candidate : RangeCandidate) : UInt64 × UInt64 :=
  if shape.inputCount > candidate.width.toUInt64 then
    let width := wide candidate.width.toUInt64
    let stride := wide shape.stride
    let extent := wide (shape.windowSize - shape.padding)
    let rightFirst := if extent > width then 0 else (width + 1 - extent + stride - 1) / stride
    let leftFirst := (wide shape.padding + width) / stride + 1
    let cut (first : Wide) : UInt64 :=
      if wide shape.outputCount < first then shape.outputCount
      else UInt64.ofBitVec (first.setWidth 64)
    (shape.outputCount - cut rightFirst, shape.outputCount - cut leftFirst)
  else (0, 0)

/-- `BuildPrefixDifference` on a device. -/
def buildPrefixGpu (shape : RangeShape) (caps : RangeCaps) (candidate : RangeCandidate) :
    Evaluated CandidateEvaluation := do
  let sharedBytes := candidate.width.toUInt64 * shape.elementBytes.toUInt64
  available (sharedBudgetFits caps sharedBytes)
  let some hierarchy := planRangePrefixTree shape.inputCount candidate.width shape.elementBytes
    caps.maximumGroupCount | Except.error false
  available (hierarchy.stages.length != 0 && decide (hierarchy.stages.length < 255))
  let queryStage :=
    hierarchy.stages.length -
      (if shape.inputCount > candidate.width.toUInt64 then 1 else 0)
  let evaluation : CandidateEvaluation := { candidate, cost := { sharedBytes } }
  let evaluation ← evaluation.appendTemporary caps
    { role := .prefixValues
      ordinal := 0
      bytes := shape.payloadBytes
      alignment := shape.elementBytes.toUInt64
      firstStage := 0
      lastStage := UInt8.ofNat queryStage }
  let evaluation ←
    hierarchy.stages.foldlM (prefixTurn shape caps candidate hierarchy) evaluation
  overflowing do
    let traffic ← orOverflow (affineBoundaryTraffic shape)
    let offsets := offsetReads shape candidate
    let endpoints := endpointReads shape traffic
    let outputReads ← orOverflow (addWide (wide shape.outputCount) (wide traffic.leftPrefixReads))
    let outputReads ← orOverflow (addWide outputReads (wide offsets.1))
    let outputReads ← orOverflow (addWide outputReads (wide offsets.2))
    let evaluation ← evaluation.addCombine (wide offsets.1) 1
    let evaluation ← evaluation.addInverse (wide offsets.2)
    let outputReads ← orOverflow (addWide outputReads endpoints)
    let evaluation ← evaluation.appendStage caps
      { disposition := .prefixWindow
        level := 0
        elementCount := shape.outputCount
        groups := groupsFor shape.outputCount candidate.width.toUInt64
        width := candidate.width }
    let evaluation ← evaluation.addRead outputReads shape.elementBytes
    let evaluation ← evaluation.addWrite (wide shape.outputCount) shape.elementBytes
    let evaluation ← evaluation.addInverse (wide traffic.leftPrefixReads)
    let evaluation ← evaluation.addScale endpoints
    evaluation.addCombine endpoints 1

/-- `BuildPrefixDifference`. -/
def buildPrefixDifference (shape : RangeShape) (caps : RangeCaps) (candidate : RangeCandidate) :
    Evaluated CandidateEvaluation := do
  available (shape.traits.associative && shape.traits.hasIdentity && shape.traits.invertible)
  if caps.cpuOnly then buildPrefixCpu shape caps candidate
  else buildPrefixGpu shape caps candidate

/-- How often a width can be halved. -/
def halvings : Nat → UInt32 → UInt64
  | 0, _ => 0
  | turns + 1, width => if width > 1 then 1 + halvings turns (width / 2) else 0

/-- The groups that fill the blocks. -/
def prepareGroups (shape : RangeShape) (caps : RangeCaps) (candidate : RangeCandidate)
    (padded : UInt64) : UInt64 :=
  if caps.cpuOnly then 1
  else rangeBlockGroups caps.sourceVariant (groupsFor padded shape.windowSize) candidate.width

/-- The groups that query the blocks. -/
def queryGroups (shape : RangeShape) (caps : RangeCaps) (candidate : RangeCandidate) : UInt64 :=
  rangeBlockQueryGroups caps.sourceVariant shape.outputCount shape.stride shape.windowSize
    candidate.width

/-- The values before a block, or from a block on, as a temporary. -/
def blockValues (role : RangeTempRole) (shape : RangeShape) (padded : UInt64) : RangeTempReq :=
  { role
    ordinal := 0
    bytes := padded * shape.elementBytes.toUInt64
    alignment := shape.elementBytes.toUInt64
    firstStage := 0
    lastStage := 1 }

/-- The values from a block on are kept apart, unless the blocks are filled in parallel. -/
def appendBackward (shape : RangeShape) (caps : RangeCaps) (padded : UInt64)
    (evaluation : CandidateEvaluation) : Evaluated CandidateEvaluation :=
  if caps.sourceVariant == .metal then pure evaluation
  else evaluation.appendTemporary caps (blockValues .backwardValues shape padded)

/-- `BuildBlockPrefixSuffix`. -/
def buildBlockPrefixSuffix (shape : RangeShape) (caps : RangeCaps) (candidate : RangeCandidate) :
    Evaluated CandidateEvaluation := do
  available (shape.traits.associative && shape.traits.hasIdentity && shape.traits.idempotent &&
    shape.traits.ordered)
  let padded ← orOverflow shape.affineSpan
  available (decide (padded ≤ caps.maximumStorageElementCount))
  let window := shape.windowSize
  let blocks := groupsFor padded window
  let parallel := caps.sourceVariant == .metal
  let prepare := prepareGroups shape caps candidate padded
  let query := queryGroups shape caps candidate
  available (fitsGroups caps prepare && fitsGroups caps query)
  orOverflow (if checkedMul padded shape.elementBytes.toUInt64 then some () else none)
  let evaluation : CandidateEvaluation := { candidate }
  let evaluation ← evaluation.appendTemporary caps (blockValues .forwardValues shape padded)
  let evaluation ← appendBackward shape caps padded evaluation
  overflowing do
    let cpu := caps.sourceVariant == .cpu
    let prepared :=
      if shape.boundary = .clamp then padded else min shape.inputCount (padded - shape.padding)
    let querySpan := if parallel then query * window else 0
    let queried :=
      if shape.boundary = .clamp then querySpan
      else if querySpan > shape.padding then min shape.inputCount (querySpan - shape.padding) else 0
    let times : Wide := if parallel then 1 else 2
    let evaluation ← evaluation.appendStage caps
      { disposition := .blockPrefixSuffix
        level := 0
        elementCount := padded
        groups := if cpu then 1 else prepare
        width := if cpu then 0 else candidate.width }
    let evaluation ← evaluation.appendStage caps
      { disposition := .blockWindow
        level := 0
        elementCount := shape.outputCount
        groups := if cpu then 1 else query
        width := if cpu then 0 else candidate.width }
    let evaluation ← evaluation.addRead (wide prepared * times + wide queried) shape.elementBytes
    let evaluation ← evaluation.addRead (wide shape.outputCount * times) shape.elementBytes
    let evaluation ← evaluation.addWrite (wide padded * times) shape.elementBytes
    let evaluation ← evaluation.addWrite (wide shape.outputCount) shape.elementBytes
    let evaluation ← evaluation.addCombine (wide (if parallel then padded else padded - blocks)) 2
    let evaluation ← evaluation.addCombine (wide shape.outputCount) 1
    let evaluation ← evaluation.addCombine
      (if parallel then wide padded else 0) (wide (2 * halvings 32 candidate.width))
    let evaluation ← evaluation.addLanes (if cpu then wide padded else 0) 2
    evaluation.addLanes (if cpu then wide shape.outputCount else 0) 1

/-! ### Selection -/

/-- The evaluations of `BuildRangePlan`, in their order. -/
def evaluations (shape : RangeShape) (caps : RangeCaps) : List (Evaluated CandidateEvaluation) :=
  if caps.cpuOnly then
    (if caps.supports .direct then [buildDirect shape caps .directCpu] else []) ++
    (if caps.supports .prefixDifference && shape.traits.invertible then
      ((RangeCandidate.make .prefixDifference kRangeCpuBlockWidth).toList.map
        (buildPrefixDifference shape caps)) else []) ++
    (if caps.supports .blockPrefixSuffix && shape.traits.idempotent && shape.traits.ordered then
      ((RangeCandidate.make .blockPrefixSuffix kRangeCpuBlockWidth).toList.map
        (buildBlockPrefixSuffix shape caps)) else [])
  else
    (kRangeWidths.filter caps.supportsWidth).flatMap fun width =>
      (if caps.supports .direct then
        ((RangeCandidate.make .direct width).toList.map (buildDirect shape caps)) else []) ++
      (if caps.supports .sharedHalo then
        ((RangeCandidate.sharedHalo width
            (sharedRadiusCapacity caps width shape.elementBytes)).toList.map
          (buildSharedHalo shape caps)) else []) ++
      (if caps.supports .tiledDifference then
        ((RangeCandidate.make .tiledDifference width).toList.map
          (buildTiledDifference shape caps)) else []) ++
      (if caps.supports .prefixDifference && shape.traits.invertible then
        ((RangeCandidate.make .prefixDifference width).toList.map
          (buildPrefixDifference shape caps)) else []) ++
      (if caps.supports .blockPrefixSuffix && shape.traits.idempotent && shape.traits.ordered then
        ((RangeCandidate.make .blockPrefixSuffix width).toList.map
          (buildBlockPrefixSuffix shape caps)) else [])

/-- `LessOrEqual`. -/
def lessOrEqual (left right : RangeCost) : Bool :=
  decide (left.globalReadBytes ≤ right.globalReadBytes) &&
    decide (left.globalWriteBytes ≤ right.globalWriteBytes) &&
    decide (left.workgroupCount ≤ right.workgroupCount) &&
    decide (left.combineOps ≤ right.combineOps) && decide (left.inverseOps ≤ right.inverseOps) &&
    decide (left.scaleOps ≤ right.scaleOps) && decide (left.sharedBytes ≤ right.sharedBytes) &&
    decide (left.scratchBytes ≤ right.scratchBytes) &&
    decide (left.dispatchCount ≤ right.dispatchCount) &&
    decide (left.launchedLanes ≤ right.launchedLanes)

/-- `Dominates`. -/
def dominates (left right : RangeCost) : Bool := lessOrEqual left right && left != right

/-- `CompareScalar`. -/
def compareScalar (left right : Nat) : Ordering :=
  if left < right then .lt else if right < left then .gt else .eq

/-- The number of a path, in the order of its enumeration. -/
def RangePath.toNat : RangePath → Nat
  | .direct => 0
  | .sharedHalo => 1
  | .prefixDifference => 2
  | .blockPrefixSuffix => 3
  | .tiledDifference => 4

/-- `CompareLexicographic`. -/
def compareLexicographic (left right : CandidateEvaluation) : Ordering :=
  (compareScalar left.cost.globalReadBytes.toNat right.cost.globalReadBytes.toNat).then <|
  (compareScalar left.cost.globalWriteBytes.toNat right.cost.globalWriteBytes.toNat).then <|
  (compareScalar left.cost.workgroupCount.toNat right.cost.workgroupCount.toNat).then <|
  (compareScalar left.cost.combineOps.toNat right.cost.combineOps.toNat).then <|
  (compareScalar left.cost.inverseOps.toNat right.cost.inverseOps.toNat).then <|
  (compareScalar left.cost.scaleOps.toNat right.cost.scaleOps.toNat).then <|
  (compareScalar left.cost.scratchBytes.toNat right.cost.scratchBytes.toNat).then <|
  (compareScalar left.cost.dispatchCount.toNat right.cost.dispatchCount.toNat).then <|
  (compareScalar left.cost.sharedBytes.toNat right.cost.sharedBytes.toNat).then <|
  (compareScalar left.cost.launchedLanes.toNat right.cost.launchedLanes.toNat).then <|
  (compareScalar left.candidate.disposition.toNat right.candidate.disposition.toNat).then <|
  (compareScalar left.candidate.width.toNat right.candidate.width.toNat).then <|
  compareScalar left.candidate.radiusCapacity.toNat right.candidate.radiusCapacity.toNat

/-- The evaluations that no other dominates. -/
def pareto (found : List CandidateEvaluation) : List CandidateEvaluation :=
  found.zipIdx.filterMap fun (evaluation, index) =>
    if found.zipIdx.any fun (other, place) =>
      place != index && dominates other.cost evaluation.cost then none else some evaluation

/-- The first of the least evaluations. -/
def least (found : List CandidateEvaluation) : Option CandidateEvaluation :=
  found.foldl (fun selected evaluation =>
    match selected with
    | none => some evaluation
    | some best => if compareLexicographic evaluation best = .lt then some evaluation else some best)
    none

/-- The evaluations that succeeded. -/
def found (shape : RangeShape) (caps : RangeCaps) : List CandidateEvaluation :=
  (evaluations shape caps).filterMap Except.toOption

/-- The evaluation that `BuildRangePlan` chooses. -/
def choice (shape : RangeShape) (caps : RangeCaps) : Option CandidateEvaluation :=
  least (pareto (found shape caps))

end RunD.Range
