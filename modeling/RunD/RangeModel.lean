/-
The model of range planning: traits, shapes and capabilities, the candidates
for aggregating over windows, and what a planned stage and temporary are.

A shape asks for `outputCount` aggregates, of `windowSize` positions each, the
one numbered `q` from position `q * stride - padding` on.  A capability is what
a backend offers.  The prefix hierarchy, which one of the candidates runs, is
derived here as well.
-/
import Mathlib.Data.BitVec
import RunD.CheckedWord
import RunD.ComputeModel

namespace RunD.Range

/-! ### Traits -/

/-- `RangeOp`. -/
inductive RangeOp where
  | sum
  | minimum
  | maximum
  deriving DecidableEq, Repr

/-- `RangeBoundary`. -/
inductive RangeBoundary where
  | clamp
  | clip
  deriving DecidableEq, Repr

/-- `RangeCount`. -/
inductive RangeCount where
  | descriptor
  | u32
  | u64
  deriving DecidableEq, Repr

/-- `RangeLaw`. -/
inductive RangeLaw where
  | moduloWidth
  | saturating
  | orderOnly
  deriving DecidableEq, Repr

/-- `RangeSource`. -/
inductive RangeSource where
  | unavailable
  | cpu
  | metal
  | vulkan
  deriving DecidableEq, Repr

/-- `RangeCapsKind`. -/
inductive RangeCapsKind where
  | unavailable
  | cpu
  | gpu
  deriving DecidableEq, Repr

/-- `RangePath`. -/
inductive RangePath where
  | direct
  | sharedHalo
  | prefixDifference
  | blockPrefixSuffix
  | tiledDifference
  deriving DecidableEq, Repr

/-- `RangeStageKind`. -/
inductive RangeStageKind where
  | direct
  | sharedHalo
  | prefixSequential
  | prefixBlock
  | prefixSummary
  | prefixFixup
  | prefixWindow
  | blockPrefixSuffix
  | blockWindow
  | tiledDifference
  deriving DecidableEq, Repr

/-- `RangeTempRole`. -/
inductive RangeTempRole where
  | prefixValues
  | blockSummaries
  | forwardValues
  | backwardValues
  deriving DecidableEq, Repr

/-- `RangeTraits`. -/
structure RangeTraits where
  operation : RangeOp
  domain : ComputeDomain
  arithmeticLaw : RangeLaw
  deriving DecidableEq, Repr

namespace RangeTraits

def knownDomain : ComputeDomain → Bool
  | .unknown => false
  | _ => true

def compatibleArithmeticLaw (operation : RangeOp) (domain : ComputeDomain) (law : RangeLaw) :
    Bool :=
  match operation with
  | .sum =>
      law == .moduloWidth ||
        (law == .saturating && (domain == .i32 || domain == .i64 || domain == .fixed))
  | _ => law == .orderOnly

def valid (traits : RangeTraits) : Bool :=
  knownDomain traits.domain &&
    compatibleArithmeticLaw traits.operation traits.domain traits.arithmeticLaw

def associative (traits : RangeTraits) : Bool :=
  traits.operation != .sum || traits.arithmeticLaw == .moduloWidth

def hasIdentity (_ : RangeTraits) : Bool := true

def invertible (traits : RangeTraits) : Bool := traits.operation == .sum && traits.associative

def idempotent (traits : RangeTraits) : Bool :=
  traits.operation == .minimum || traits.operation == .maximum

def ordered (traits : RangeTraits) : Bool :=
  traits.operation == .minimum || traits.operation == .maximum

end RangeTraits

/-! ### Shapes -/

/-- `RangeShape`. -/
structure RangeShape where
  traits : RangeTraits
  boundary : RangeBoundary
  inputCount : UInt64
  outputCount : UInt64
  windowSize : UInt64
  stride : UInt64
  padding : UInt64
  elementBytes : UInt32
  count : RangeCount
  deriving DecidableEq, Repr

/-- The greatest 64-bit word. -/
def kWordMax : UInt64 := ~~~0

/-- `DomainWidthMatches`. -/
def domainWidthMatches (domain : ComputeDomain) (elementBytes : UInt32) : Bool :=
  match domain with
  | .i32 | .u32 => elementBytes == 4
  | .i64 | .u64 => elementBytes == 8
  | .fixed => true
  | .unknown => false

namespace RangeShape

/-- `(output_count - 1) * stride`, before it is cut to a word. -/
def lastAnchor (shape : RangeShape) : Nat :=
  (if shape.outputCount = 0 then 0 else (shape.outputCount - 1).toNat) * shape.stride.toNat

/-- `valid`: what `affine` lets pass. -/
def valid (shape : RangeShape) : Bool :=
  shape.traits.valid && shape.inputCount != 0 && shape.outputCount != 0 &&
    shape.windowSize != 0 && shape.stride != 0 && decide (shape.padding < shape.windowSize) &&
    (shape.count == .descriptor ||
      (shape.inputCount == shape.outputCount && shape.stride == 1 &&
        shape.windowSize - shape.padding - 1 == shape.padding)) &&
    decide (shape.lastAnchor < 2 ^ 64) &&
    decide (shape.lastAnchor < shape.inputCount.toNat + shape.padding.toNat) &&
    (shape.elementBytes == 4 || shape.elementBytes == 8) &&
    domainWidthMatches shape.traits.domain shape.elementBytes &&
    decide (shape.inputCount ≤ kWordMax / shape.elementBytes.toUInt64) &&
    decide (shape.outputCount ≤ kWordMax / shape.elementBytes.toUInt64)

/-- `affine`. -/
def affine (traits : RangeTraits) (boundary : RangeBoundary)
    (inputCount outputCount windowSize stride padding : UInt64) (elementBytes : UInt32)
    (count : RangeCount) : Option RangeShape :=
  let shape : RangeShape :=
    { traits, boundary, inputCount, outputCount, windowSize, stride, padding, elementBytes, count }
  if shape.valid then some shape else none

def residentCounted (shape : RangeShape) : Bool := shape.count != .descriptor

def rightExtent (shape : RangeShape) : UInt64 := shape.windowSize - shape.padding - 1

def affineSpan (shape : RangeShape) : Option UInt64 :=
  if checkedMul (shape.outputCount - 1) shape.stride &&
      checkedAdd ((shape.outputCount - 1) * shape.stride) shape.windowSize then
    some ((shape.outputCount - 1) * shape.stride + shape.windowSize)
  else none

def centeredClamp (shape : RangeShape) : Bool :=
  shape.boundary == .clamp && shape.inputCount == shape.outputCount && shape.stride == 1 &&
    shape.rightExtent == shape.padding

def payloadBytes (shape : RangeShape) : UInt64 := shape.inputCount * shape.elementBytes.toUInt64

end RangeShape

/-! ### Capabilities -/

/-- `RangeCaps`; the masks are bits of the widths and candidates. -/
structure RangeCaps where
  disposition : RangeCapsKind
  sourceVariant : RangeSource
  legalWidthMask : UInt8
  maximumThreadsPerWorkgroup : UInt32
  sharedMemoryOccupancyBudget : UInt32
  sharedMemoryLimit : UInt64
  maximumGroupCount : UInt64
  maximumStorageElementCount : UInt64
  maximumStorageBindingBytes : UInt64
  supportedCandidates : UInt8
  deriving DecidableEq, Repr

/-- `RangeSupport`, as its bit. -/
def RangePath.support : RangePath → UInt8
  | .direct => 1
  | .sharedHalo => 2
  | .prefixDifference => 4
  | .blockPrefixSuffix => 8
  | .tiledDifference => 16

def kRangeKnownSupportMask : UInt8 := 31

def kRangeKnownWidthMask : UInt8 := 7

def kRangeWidths : List UInt32 := [64, 128, 256]

def kRangeCpuBlockWidth : UInt32 := 64

def kRangeTileOutputsPerLane : UInt32 := 16

namespace RangeCaps

def available (caps : RangeCaps) : Bool := caps.disposition != .unavailable

def supports (caps : RangeCaps) (path : RangePath) : Bool :=
  caps.supportedCandidates &&& path.support != 0

def widthBit (width : UInt32) : UInt8 :=
  if width = 64 then 1 else if width = 128 then 2 else if width = 256 then 4 else 0

def supportsWidth (caps : RangeCaps) (width : UInt32) : Bool :=
  widthBit width != 0 && decide (width ≤ caps.maximumThreadsPerWorkgroup) &&
    caps.legalWidthMask &&& widthBit width != 0

def cpuOnly (caps : RangeCaps) : Bool :=
  caps.disposition == .cpu && caps.sourceVariant == .cpu && caps.legalWidthMask == 0 &&
    caps.maximumThreadsPerWorkgroup == 0 && caps.maximumGroupCount == 0 &&
    caps.maximumStorageElementCount == kWordMax && caps.maximumStorageBindingBytes == kWordMax &&
    (caps.supportedCandidates == 1 || caps.supportedCandidates == 13)

def valid (caps : RangeCaps) : Bool :=
  caps.disposition != .unavailable &&
    (caps.cpuOnly ||
      (caps.disposition == .gpu &&
        (caps.sourceVariant == .metal || caps.sourceVariant == .vulkan) &&
        (caps.sourceVariant != .vulkan || decide (caps.maximumStorageElementCount ≤ 4294967295)) &&
        caps.legalWidthMask != 0 && caps.legalWidthMask &&& ~~~kRangeKnownWidthMask == 0 &&
        decide (caps.maximumThreadsPerWorkgroup ≥ 64) && caps.maximumGroupCount != 0 &&
        caps.maximumStorageElementCount != 0 && caps.maximumStorageBindingBytes != 0 &&
        caps.supports .direct && caps.supportedCandidates &&& ~~~kRangeKnownSupportMask == 0))

end RangeCaps

/-! ### Candidates, stages and temporaries -/

/-- `RangeCandidate`. -/
structure RangeCandidate where
  disposition : RangePath
  width : UInt32
  radiusCapacity : UInt32
  deriving DecidableEq, Repr

namespace RangeCandidate

def supportedWidth (width : UInt32) : Bool := width == 64 || width == 128 || width == 256

def directCpu : RangeCandidate := { disposition := .direct, width := 0, radiusCapacity := 0 }

/-- `Make`. -/
def make (disposition : RangePath) (width : UInt32) : Option RangeCandidate :=
  if supportedWidth width then some { disposition, width, radiusCapacity := 0 } else none

def sharedHalo (width radiusCapacity : UInt32) : Option RangeCandidate :=
  if supportedWidth width && radiusCapacity != 0 && decide (radiusCapacity ≤ width) then
    some { disposition := .sharedHalo, width, radiusCapacity }
  else none

end RangeCandidate

/-- `RangeStagePlan`. -/
structure RangeStagePlan where
  disposition : RangeStageKind
  level : UInt8
  elementCount : UInt64
  groups : UInt64
  width : UInt32
  deriving DecidableEq, Repr

/-- `RangeTempReq`. -/
structure RangeTempReq where
  role : RangeTempRole
  ordinal : UInt8
  bytes : UInt64
  alignment : UInt64
  firstStage : UInt8
  lastStage : UInt8
  deriving DecidableEq, Repr

def kRangeStageCap : Nat := 24

def kRangeTempCap : Nat := 12

/-- `Groups`; also `range_prefix_detail::groups`. -/
def groupsFor (count width : UInt64) : UInt64 := checkedCeil count width

/-- `RangeBlockGroups`. -/
def rangeBlockGroups (source : RangeSource) (blocks : UInt64) (width : UInt32) : UInt64 :=
  if blocks = 0 then 0
  else if source = .cpu then 1
  else if source = .metal then blocks
  else blocks / width.toUInt64 + (if blocks % width.toUInt64 ≠ 0 then 1 else 0)

/-- `RangeBlockQueryGroups`. -/
def rangeBlockQueryGroups (source : RangeSource) (outputs stride window : UInt64)
    (width : UInt32) : UInt64 :=
  if outputs = 0 then 0
  else if source = .metal then (outputs - 1) * stride / window + 1
  else if source = .cpu then 1
  else outputs / width.toUInt64 + (if outputs % width.toUInt64 ≠ 0 then 1 else 0)

/-! ### The prefix hierarchy -/

/-- `RangePrefixExec::Selection`, as far as it is built. -/
structure PrefixBuilder where
  stages : List RangeStagePlan := []
  temporaries : List RangeTempReq := []
  deriving DecidableEq, Repr

namespace PrefixBuilder

/-- `append_stage`. -/
def appendStage (builder : PrefixBuilder) (stage : RangeStagePlan) : Option PrefixBuilder :=
  if builder.stages.length = kRangeStageCap ∨ stage.groups = 0 then none
  else some { builder with stages := builder.stages ++ [stage] }

/-- `append_temporary`. -/
def appendTemporary (builder : PrefixBuilder) (temporary : RangeTempReq) : Option PrefixBuilder :=
  if builder.temporaries.length = kRangeTempCap ∨ temporary.bytes = 0 ∨ temporary.alignment = 0 ∨
      temporary.firstStage > temporary.lastStage then none
  else some { builder with temporaries := builder.temporaries ++ [temporary] }

/-- `set_last_stage`. -/
def setLastStage (builder : PrefixBuilder) (index : Nat) (lastStage : UInt8) : PrefixBuilder :=
  { builder with
    temporaries := builder.temporaries.modify index fun temporary => { temporary with lastStage } }

end PrefixBuilder

/-- `valid_width`. -/
def validWidth (width : UInt32) : Bool := width == 64 || width == 128 || width == 256

/-- The first loop of `PlanRangePrefixTree`, from a level on and for as many levels as there are
slots left: the builder, and where the summary of each level is. -/
def prefixUp (width elementBytes : UInt32) (maximumGroupCount : UInt64) :
    Nat → Nat → UInt64 → PrefixBuilder → List Nat → Option (PrefixBuilder × List Nat × Nat)
  | 0, _, _, _, _ => none
  | slots + 1, level, values, builder, summaries => do
      let groupCount := groupsFor values width.toUInt64
      if groupCount = 0 ∨ groupCount > maximumGroupCount then none
      else do
        let builder ← builder.appendStage
          { disposition := if level = 0 then .prefixBlock else .prefixSummary
            level := UInt8.ofNat level
            elementCount := values
            groups := groupCount
            width }
        if groupCount = 1 then some (builder, summaries, level + 1)
        else if checkedMul groupCount elementBytes.toUInt64 = false then none
        else do
          let builder ← builder.appendTemporary
            { role := .blockSummaries
              ordinal := UInt8.ofNat level
              bytes := groupCount * elementBytes.toUInt64
              alignment := elementBytes.toUInt64
              firstStage := UInt8.ofNat level
              lastStage := UInt8.ofNat level }
          prefixUp width elementBytes maximumGroupCount slots (level + 1) groupCount builder
            (summaries ++ [builder.temporaries.length - 1])

/-- The second loop of `PlanRangePrefixTree`, from a level down. -/
def prefixDown (width : UInt32) (levelCount : Nat) (summaries : List Nat) :
    Nat → PrefixBuilder → Option PrefixBuilder
  | 0, builder => some builder
  | child + 1, builder => do
      let childStage ← builder.stages[child]?
      let summary ← summaries[child]?
      let builder ← builder.appendStage
        { disposition := .prefixFixup
          level := UInt8.ofNat child
          elementCount := childStage.elementCount
          groups := childStage.groups
          width }
      prefixDown width levelCount summaries child
        (builder.setLastStage summary (UInt8.ofNat (2 * levelCount - 2 - child)))

/-- `PlanRangePrefixTree`; nothing when it is rejected. -/
def planRangePrefixTree (elementCount : UInt64) (width elementBytes : UInt32)
    (maximumGroupCount : UInt64) : Option PrefixBuilder :=
  if elementCount = 0 ∨ validWidth width = false ∨ (elementBytes ≠ 4 ∧ elementBytes ≠ 8) ∨
      maximumGroupCount = 0 then none
  else do
    let (builder, summaries, levelCount) ←
      prefixUp width elementBytes maximumGroupCount kRangeTempCap 0 elementCount {} []
    prefixDown width levelCount summaries (levelCount - 1) builder

end RunD.Range
