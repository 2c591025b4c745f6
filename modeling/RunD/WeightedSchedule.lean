/-
The weighted schedule that is compiled into preallocated buffers.

`compileWeightedNoGrowthSchedule` checks the request and the capacities, orders
the packets by hints and work, hands them one by one to the partition with the
least load, deals the order into the partitions and cuts it into ranges.  The
buffers are shared between the stages: the array of the packets' partitions
first serves as the counters of the counting order, and the write offsets of
the partitions first serve as the heap of the assignment.

The heap's loop is a `while (true)` over 32-bit positions.  It is given a fuel,
and running out of it is an outcome of its own (`stillRunning`).
-/
import RunD.Buffer
import RunD.CountingScatter

namespace RunD

/-! ### Requests, projections and workspaces -/

/-- `PlacementPolicy`. -/
inductive PlacementPolicy where
  | uniform
  | contiguousBalanced
  | weightedStable
  | capacityWeightedStatic
  deriving DecidableEq, Repr

structure PacketPlacementHint where
  localityBucketId : UInt32 := 0
  cacheLineGroup : UInt32 := 0
  preferredContiguousSpan : UInt32 := 1
  workUnits : UInt64 := 1
  deriving DecidableEq, Repr

/-- The vectors of 64-bit words of a workspace that a caller's span may point into. -/
inductive OwnedWords where
  | packetWorkUnits
  | partitionLoads
  | foldSlots
  deriving DecidableEq, Repr

/-- A `std::span<const u64>`: words outside the workspace, or a range of the storage of one of its
vectors. -/
inductive WorkSpan where
  | external (values : List UInt64)
  | owned (buffer : OwnedWords) (offset size : Nat)
  deriving DecidableEq, Repr

def WorkSpan.size : WorkSpan → Nat
  | external values => values.length
  | owned _ _ size => size

structure ScheduleCompileRequest where
  packetCount : UInt32 := 0
  executionWidth : UInt32 := 1
  placement : PlacementPolicy := .uniform
  preferredAlignmentPackets : UInt32 := 1
  localityBucketPackets : UInt32 := 1
  alignmentGroupPackets : UInt32 := 1
  packetWorkUnits : WorkSpan := .external []
  packetHints : List PacketPlacementHint := []

structure PartitionProjection where
  ok : Bool := false
  reason : String := "not_run"
  packetCount : UInt32 := 0
  executionWidth : UInt32 := 1
  placement : PlacementPolicy := .uniform
  partitionCount : UInt32 := 0
  alignmentPackets : UInt32 := 1
  workerSlotCount : UInt32 := 0
  foldSlotCount : UInt32 := 0
  usefulWidth : UInt32 := 0
  deriving DecidableEq, Repr

structure PartitionBuild where
  ok : Bool := false
  reason : String := "not_run"
  partitionCount : UInt32 := 0
  alignmentPackets : UInt32 := 1
  packetsPerPartitionMax : UInt32 := 0
  workerSlotCount : UInt32 := 0
  foldSlotCount : UInt32 := 0
  usefulWidth : UInt32 := 0
  placement : PlacementPolicy := .uniform
  noAllocation : Bool := false
  deriving DecidableEq, Repr

/-- One partition: the half-open range of places of the packet order a worker runs. -/
structure Partition where
  workerIndex : UInt32 := 0
  «begin» : UInt32 := 0
  «end» : UInt32 := 0
  deriving DecidableEq, Repr

structure Schedule where
  packetCount : UInt32 := 0
  executionWidth : UInt32 := 1
  placement : PlacementPolicy := .uniform
  alignmentPackets : UInt32 := 1
  packetsPerPartitionMax : UInt32 := 0
  workerSlotCount : UInt32 := 0
  foldSlotCount : UInt32 := 0
  usefulWidth : UInt32 := 0
  noAllocation : Bool := false
  partitions : Vec Partition := Vec.empty

/-- `Workspace`, with the vectors that compiling a weighted schedule reads or writes. -/
structure Workspace where
  schedule : Schedule := {}
  foldSlots : Vec UInt64 := Vec.empty
  packetWorkUnits : Vec UInt64 := Vec.empty
  orderedPacketIndices : Vec UInt32 := Vec.empty
  packetPartitionIndices : Vec UInt32 := Vec.empty
  orderedPacketScratch : Vec UInt32 := Vec.empty
  partitionLoads : Vec UInt64 := Vec.empty
  partitionCounts : Vec UInt32 := Vec.empty
  partitionOffsets : Vec UInt32 := Vec.empty
  partitionWriteOffsets : Vec UInt32 := Vec.empty
  lastFailureReason : String := "not_run"

/-! ### Projection -/

def clampKernelWidth (executionWidth : UInt32) : UInt32 := max 1 executionWidth

def resolveAlignmentGroupCount (packetCount alignmentPackets : UInt32) : UInt32 :=
  if alignmentPackets ≤ 1 ∨ packetCount % alignmentPackets ≠ 0 then packetCount
  else packetCount / alignmentPackets

/-- The alignment that `ToPartitionRequest` asks for. -/
def requestedAlignment (request : ScheduleCompileRequest) : UInt32 :=
  max 1 (max (max request.preferredAlignmentPackets request.localityBucketPackets)
    request.alignmentGroupPackets)

def canUseAlignedPartitions (request : ScheduleCompileRequest) : Bool :=
  let width := clampKernelWidth request.executionWidth
  let alignment := requestedAlignment request
  let groupCount := resolveAlignmentGroupCount request.packetCount alignment
  alignment > 1 && request.packetCount % alignment == 0 && groupCount > 1 && groupCount ≥ width

def resolvePartitionUnits (packetCount alignmentPackets : UInt32) : UInt32 :=
  if alignmentPackets ≤ 1 then packetCount
  else resolveAlignmentGroupCount packetCount alignmentPackets

def resolvePartitionCount (executionWidth partitionUnits : UInt32) : UInt32 :=
  max 1 (min partitionUnits (clampKernelWidth executionWidth))

def projectionFailure (request : ScheduleCompileRequest) (reason : String)
    (alignmentPackets : UInt32) : PartitionProjection :=
  { ok := false, reason := reason, packetCount := request.packetCount,
    executionWidth := request.executionWidth, alignmentPackets := alignmentPackets }

/-- `ProjectPartitions` of the partition request behind a schedule request. -/
def projectPartitions (request : ScheduleCompileRequest) : PartitionProjection :=
  if request.packetCount = 0 then projectionFailure request "invalid_packet_count" 1
  else if request.executionWidth = 0 then projectionFailure request "invalid_execution_width" 1
  else
    let alignmentPackets :=
      if canUseAlignedPartitions request then requestedAlignment request else 1
    let partitionUnits := resolvePartitionUnits request.packetCount alignmentPackets
    if partitionUnits = 0 then
      projectionFailure request "invalid_partition_units" alignmentPackets
    else
      let partitionCount := resolvePartitionCount request.executionWidth partitionUnits
      let executionWidth := clampKernelWidth request.executionWidth
      let usefulWidth := min executionWidth partitionCount
      { ok := true, reason := "pass", packetCount := request.packetCount,
        executionWidth := executionWidth, partitionCount := partitionCount,
        alignmentPackets := alignmentPackets, workerSlotCount := usefulWidth,
        foldSlotCount := partitionCount, usefulWidth := usefulWidth }

def projectSchedule (request : ScheduleCompileRequest) : PartitionProjection :=
  { projectPartitions request with placement := request.placement }

/-! ### Leaving a compilation -/

/-- How a compilation ends before its last line. -/
inductive WeightedExit where
  /-- A failed build, and the workspace it leaves. -/
  | failed (build : PartitionBuild) (workspace : Workspace)
  /-- The fuel of a loop is used up and the loop has not ended. -/
  | stillRunning

abbrev Scheduling := Checked WeightedExit

def failWeightedNoGrowthSchedule (projection : PartitionProjection) (reason : String) :
    PartitionBuild :=
  { ok := false, reason := reason, partitionCount := projection.partitionCount,
    alignmentPackets := projection.alignmentPackets,
    workerSlotCount := projection.workerSlotCount, foldSlotCount := projection.foldSlotCount,
    usefulWidth := projection.usefulWidth, placement := projection.placement,
    noAllocation := true }

/-- The early return of a compilation whose test `p` fails. -/
def requireSchedule (p : Prop) [Decidable p] (workspace : Workspace)
    (projection : PartitionProjection) (reason : String) : Scheduling Unit :=
  require p (.failed (failWeightedNoGrowthSchedule projection reason)
    { workspace with lastFailureReason := reason })

/-! ### Work units -/

def hasPacketHints (request : ScheduleCompileRequest) : Bool := !request.packetHints.isEmpty

def packetHintsValid (request : ScheduleCompileRequest) : Bool :=
  request.packetHints.isEmpty || request.packetHints.length == request.packetCount.toNat

def hasExactWorkUnits (request : ScheduleCompileRequest) : Bool :=
  request.packetWorkUnits.size == request.packetCount.toNat

def hasExactHints (request : ScheduleCompileRequest) : Bool :=
  request.packetHints.length == request.packetCount.toNat

def hasWorkUnits (request : ScheduleCompileRequest) : Bool :=
  hasExactWorkUnits request || hasExactHints request

def normalizeWorkUnits (workUnits : UInt64) : UInt64 := if workUnits = 0 then 1 else workUnits

def Workspace.words (workspace : Workspace) : OwnedWords → Vec UInt64
  | .packetWorkUnits => workspace.packetWorkUnits
  | .partitionLoads => workspace.partitionLoads
  | .foldSlots => workspace.foldSlots

/-- The words a span shows. -/
def WorkSpan.items (workspace : Workspace) : WorkSpan → List UInt64
  | external values => values
  | owned buffer offset size => ((workspace.words buffer).items.drop offset).take size

/-- `OverlapsOwnedCapacity`: a span of some words in the storage of a vector. -/
def overlapsOwnedCapacity (buffer : OwnedWords) : WorkSpan → Bool
  | .external _ => false
  | .owned own _ size => own == buffer && size != 0

/-- Whether `span.data()` is the first word of a vector's storage. -/
def startsOwned (buffer : OwnedWords) : WorkSpan → Bool
  | .external _ => false
  | .owned own offset _ => own == buffer && offset == 0

inductive WeightedWorkSourceKind where
  | invalid
  | hints
  | externalWorkUnits
  | workspacePacketWorkUnits
  deriving DecidableEq, Repr

/-- `ClassifyWeightedWorkSource`; the reason of an invalid plan is always
`invalid_packet_work_units`. -/
def classifyWeightedWorkSource (workspace : Workspace) (request : ScheduleCompileRequest) :
    WeightedWorkSourceKind :=
  let span := request.packetWorkUnits
  if request.packetCount = 0 then .hints
  else if span.size ≠ 0 ∧ request.packetCount.toNat < span.size then .invalid
  else if span.size ≠ 0 ∧ (overlapsOwnedCapacity .partitionLoads span ∨
      overlapsOwnedCapacity .foldSlots span) then .invalid
  else if span.size ≠ 0 ∧ overlapsOwnedCapacity .packetWorkUnits span then
    if hasExactWorkUnits request ∧ startsOwned .packetWorkUnits span ∧
        workspace.packetWorkUnits.items.length = request.packetCount.toNat then
      .workspacePacketWorkUnits
    else .invalid
  else if hasExactWorkUnits request then .externalWorkUnits
  else if hasExactHints request then .hints
  else .invalid

/-- `PacketWorkUnitsAt`, as a function of the request and of the memory its span points to. -/
def packetWorkUnitsAt (workspace : Workspace) (request : ScheduleCompileRequest) (packet : Nat) :
    UInt64 :=
  if hasExactWorkUnits request then
    normalizeWorkUnits ((request.packetWorkUnits.items workspace).getD packet 0)
  else if hasExactHints request then
    normalizeWorkUnits ((request.packetHints.getD packet {}).workUnits)
  else 1

/-- The work of one packet as a source of work units gives it. -/
def workUnitsFrom (workspace : Workspace) (request : ScheduleCompileRequest)
    (kind : WeightedWorkSourceKind) (units : List UInt64) (packet : Nat) : Scheduling UInt64 :=
  match kind with
  | .hints =>
      if request.packetHints.isEmpty then pure 1
      else do
        let hint ← fetch request.packetHints packet
        pure (normalizeWorkUnits hint.workUnits)
  | .externalWorkUnits => do
      let value ← fetch (request.packetWorkUnits.items workspace) packet
      pure (normalizeWorkUnits value)
  | _ => do
      let value ← fetch units packet
      pure (normalizeWorkUnits value)

/-- `MaterializeWeightedWorkUnits` into `units`, the resized `packet_work_units`. -/
def materializeWeightedWorkUnits (workspace : Workspace) (request : ScheduleCompileRequest)
    (kind : WeightedWorkSourceKind) (units : List UInt64) : Scheduling (Option (List UInt64)) :=
  if units.length ≠ request.packetCount.toNat ∨ kind = .invalid then pure none
  else do
    let units ← forRange request.packetCount.toNat (fun packet units => do
      let value ← workUnitsFrom workspace request kind units packet
      assign units packet value) units
    pure (some units)

/-! ### The packet order -/

/-- The three packet arrays the ordering stage works on. -/
structure PacketOrder where
  /-- `ordered_packet_indices`. -/
  ordered : List UInt32
  /-- `packet_partition_indices`, here the counters of the counting order. -/
  buckets : List UInt32
  /-- `ordered_packet_scratch`. -/
  scratch : List UInt32
  deriving DecidableEq, Repr

/-- The key of a packet; keys of 32 and 64 bits are both natural numbers here. -/
abbrev KeyAt := UInt32 → Scheduling Nat

/-- The least and the greatest key of the packets in order. -/
def measureKeyRange (keyAt : KeyAt) (packetCount : Nat) (ordered : List UInt32) :
    Scheduling (Nat × Nat) := do
  let packet ← fetch ordered 0
  let key ← keyAt packet
  forRange (packetCount - 1) (fun index range => do
    let packet ← fetch ordered (index + 1)
    let key ← keyAt packet
    pure (min range.1 key, max range.2 key)) (key, key)

/-- The counting pass both counting orders share: `buckets` holds the counts, then the offsets. -/
def countingPass (keyAt : KeyAt) (packetCount minKey bucketCount : Nat) (order : PacketOrder) :
    Scheduling PacketOrder := do
  let bucketAt := fun packet => do
    let key ← keyAt packet
    pure (key - minKey)
  let cleared := List.replicate bucketCount 0 ++ order.buckets.drop bucketCount
  let counts ← tally bucketAt packetCount order.ordered cleared
  let offsets ← runningOffsets bucketCount (fun bucket buckets => fetch buckets bucket)
    (fun bucket offset buckets => assign buckets bucket offset) counts
  let written ← scatter bucketAt packetCount order.ordered offsets.2 order.scratch
  pure { ordered := written.2.take packetCount ++ order.ordered.drop packetCount,
         buckets := written.1, scratch := written.2 }

/-- `StableCountingOrderByU32`; `none` when the keys spread over more than the counters. -/
def stableCountingOrderByU32 (keyAt : KeyAt) (packetCount : Nat) (order : PacketOrder) :
    Scheduling (Option PacketOrder) :=
  if packetCount = 0 then pure (some order)
  else do
    let range ← measureKeyRange keyAt packetCount order.ordered
    let width := range.2 - range.1 + 1
    if width > order.buckets.length then pure none
    else do
      let order ← countingPass keyAt packetCount range.1 width order
      pure (some order)

/-- `StableCountingOrderByMeasuredU64`. -/
def stableCountingOrderByMeasuredU64 (keyAt : KeyAt) (packetCount : Nat) (range : Nat × Nat)
    (order : PacketOrder) : Scheduling (Option PacketOrder) :=
  let keyWidth := range.2 - range.1
  if keyWidth ≥ order.buckets.length then pure none
  else do
    let order ← countingPass keyAt packetCount range.1 (keyWidth + 1) order
    pure (some order)

/-- One pass of a radix order, by the byte `byte` of the key, from `source` to `target`. -/
def radixPass (keyAt : KeyAt) (packetCount byte : Nat) (source target : List UInt32) :
    Scheduling (List UInt32) :=
  deal (fun packet => do
    let key ← keyAt packet
    pure (key >>> (byte * 8) % 256)) 256 packetCount source target

/-- The passes of a radix order: even bytes go from the order to the scratch, odd ones back. -/
def radixPasses (keyAt : KeyAt) (packetCount passes : Nat) (order : PacketOrder) :
    Scheduling PacketOrder :=
  forRange passes (fun byte (order : PacketOrder) =>
    if byte % 2 = 0 then do
      let target ← radixPass keyAt packetCount byte order.ordered order.scratch
      pure { order with scratch := target }
    else do
      let target ← radixPass keyAt packetCount byte order.scratch order.ordered
      pure { order with ordered := target }) order

/-- `StableRadixOrderByU32`. -/
def stableRadixOrderByU32 (keyAt : KeyAt) (packetCount : Nat) (order : PacketOrder) :
    Scheduling PacketOrder :=
  radixPasses keyAt packetCount 4 order

/-- The loop of `HighestDifferingByte`; a 64-bit difference has eight bytes. -/
def highestByteFrom : Nat → Nat → Nat → Nat
  | 0, _, highest => highest
  | fuel + 1, difference, highest =>
      if difference > 255 then highestByteFrom fuel (difference >>> 8) (highest + 1) else highest

def highestDifferingByte (range : Nat × Nat) : Nat := highestByteFrom 8 (range.1 ^^^ range.2) 0

/-- `StableRadixOrderByU64`. -/
def stableRadixOrderByU64 (keyAt : KeyAt) (packetCount : Nat) (range : Nat × Nat)
    (order : PacketOrder) : Scheduling PacketOrder := do
  let lastByte := highestDifferingByte range
  let order ← radixPasses keyAt packetCount (lastByte + 1) order
  if lastByte % 2 = 0 then
    pure { order with
      ordered := order.scratch.take packetCount ++ order.ordered.drop packetCount }
  else pure order

/-- `StableOrderByU64`. -/
def stableOrderByU64 (keyAt : KeyAt) (packetCount : Nat) (order : PacketOrder) :
    Scheduling PacketOrder :=
  if packetCount = 0 then pure order
  else do
    let range ← measureKeyRange keyAt packetCount order.ordered
    let counted ← stableCountingOrderByMeasuredU64 keyAt packetCount range order
    match counted with
    | some order => pure order
    | none => stableRadixOrderByU64 keyAt packetCount range order

/-- Order by a 32-bit key: by counting where the counters suffice, else by radix. -/
def orderByU32 (keyAt : KeyAt) (packetCount : Nat) (order : PacketOrder) :
    Scheduling PacketOrder := do
  let counted ← stableCountingOrderByU32 keyAt packetCount order
  match counted with
  | some order => pure order
  | none => stableRadixOrderByU32 keyAt packetCount order

/-- A key that a packet's hint gives. -/
def hintKey (request : ScheduleCompileRequest) (key : PacketPlacementHint → Nat) : KeyAt :=
  fun packet => do
    let hint ← fetch request.packetHints packet.toNat
    pure (key hint)

/-- The key of the work order: the heavier a packet, the smaller its key. -/
def workKey (resolved : List UInt64) : KeyAt := fun packet => do
  let units ← fetch resolved packet.toNat
  pure (2 ^ 64 - 1 - units.toNat)

/-- `BuildWeightedPacketOrder`. -/
def buildWeightedPacketOrder (request : ScheduleCompileRequest) (resolved : List UInt64)
    (order : PacketOrder) : Scheduling PacketOrder := do
  let packetCount := request.packetCount.toNat
  let order :=
    { order with ordered := (List.range order.ordered.length).map UInt32.ofNat }
  if packetCount = 0 then pure order
  else
    let hinted := hasPacketHints request
    let order ←
      if hinted then do
        let order ← orderByU32
          (hintKey request fun hint => 2 ^ 32 - 1 - hint.preferredContiguousSpan.toNat)
          packetCount order
        orderByU32 (hintKey request fun hint => hint.cacheLineGroup.toNat) packetCount order
      else pure order
    let order ← stableOrderByU64 (workKey resolved) packetCount order
    if hinted then
      orderByU32 (hintKey request fun hint => hint.localityBucketId.toNat) packetCount order
    else pure order

/-! ### Assignment to partitions -/

/-- The arrays of the assignment stage. -/
structure Assignment where
  /-- `packet_partition_indices`. -/
  partitionIndices : List UInt32
  loads : List UInt64
  counts : List UInt32
  /-- `partition_write_offsets`, here the heap of partitions. -/
  heap : List UInt32
  deriving DecidableEq, Repr

/-- `ScalarSatAdd` of two words. -/
def scalarSatAdd (lhs rhs : UInt64) : UInt64 :=
  if lhs > 0xFFFFFFFFFFFFFFFF - rhs then 0xFFFFFFFFFFFFFFFF else lhs + rhs

/-- Give a packet to a partition. -/
def givePacket (resolved : List UInt64) (packet partition : UInt32) (state : Assignment) :
    Scheduling Assignment := do
  let partitionIndices ← assign state.partitionIndices packet.toNat partition
  let count ← fetch state.counts partition.toNat
  let counts ← assign state.counts partition.toNat (count + 1)
  let load ← fetch state.loads partition.toNat
  let work ← fetch resolved packet.toNat
  let loads ← assign state.loads partition.toNat (scalarSatAdd load work)
  pure { state with partitionIndices := partitionIndices, counts := counts, loads := loads }

def partitionLoadHeapLess (loads : List UInt64) (lhs rhs : UInt32) : Scheduling Bool := do
  let lhsLoad ← fetch loads lhs.toNat
  let rhsLoad ← fetch loads rhs.toNat
  if lhsLoad ≠ rhsLoad then pure (lhsLoad < rhsLoad) else pure (lhs < rhs)

/-- The smaller of the children of a place of the heap, the left one when they are alike. -/
def leastChild (loads : List UInt64) (heapSize left : UInt32) (heap : List UInt32) :
    Scheduling UInt32 := do
  let right := left + 1
  if right < heapSize then do
    let rightPartition ← fetch heap right.toNat
    let leftPartition ← fetch heap left.toNat
    let less ← partitionLoadHeapLess loads rightPartition leftPartition
    pure (if less then right else left)
  else pure left

/-- `SiftDownPartitionLoadHeap` with `fuel` turns of its loop. -/
def siftDownPartitionLoadHeap (loads : List UInt64) (heapSize : UInt32) :
    Nat → UInt32 → List UInt32 → Scheduling (List UInt32)
  | 0, _, _ => leave .stillRunning
  | fuel + 1, root, heap => do
      let left := root * 2 + 1
      if left ≥ heapSize then pure heap
      else do
        let child ← leastChild loads heapSize left heap
        let childPartition ← fetch heap child.toNat
        let rootPartition ← fetch heap root.toNat
        let less ← partitionLoadHeapLess loads childPartition rootPartition
        if less then do
          let heap ← assign heap root.toNat childPartition
          let heap ← assign heap child.toNat rootPartition
          siftDownPartitionLoadHeap loads heapSize fuel child heap
        else pure heap

/-- `InitializePartitionLoadHeap`; the second loop counts the parents down. -/
def initializePartitionLoadHeap (fuel : Nat) (loads : List UInt64) (heap : List UInt32) :
    Scheduling (List UInt32) :=
  let heapSize := UInt32.ofNat heap.length
  let parents := heap.length / 2
  forRange parents (fun turn heap =>
    siftDownPartitionLoadHeap loads heapSize fuel (UInt32.ofNat (parents - turn - 1)) heap)
    ((List.range heap.length).map UInt32.ofNat)

/-- One turn of the heap assignment. -/
def assignFromHeap (fuel : Nat) (resolved : List UInt64) (packet : UInt32) (state : Assignment) :
    Scheduling Assignment := do
  let partition ← fetch state.heap 0
  let state ← givePacket resolved packet partition state
  let heap ← siftDownPartitionLoadHeap state.loads (UInt32.ofNat state.heap.length) fuel 0
    state.heap
  pure { state with heap := heap }

/-- `AssignWeightedPacketPartitionsHeap`. -/
def assignWeightedPacketPartitionsHeap (fuel : Nat) (resolved : List UInt64)
    (ordered : List UInt32) (state : Assignment) : Scheduling Assignment := do
  let heap ← initializePartitionLoadHeap fuel state.loads state.heap
  forEach ordered (assignFromHeap fuel resolved) { state with heap := heap }

/-- The first of the eight partitions with the least load: each later one must be below. -/
def leastOfEight (loads : List UInt64) : Scheduling UInt32 := do
  let first ← fetch loads 0
  let least ← forRange 7 (fun index (least : UInt32 × UInt64) => do
    let load ← fetch loads (index + 1)
    pure (if load < least.2 then (UInt32.ofNat (index + 1), load) else least)) (0, first)
  pure least.1

/-- `AssignEightPartitions`; the eight load and count variables are the first eight entries. -/
def assignEightPartitions (resolved : List UInt64) (ordered : List UInt32) (state : Assignment) :
    Scheduling Assignment :=
  forEach ordered (fun packet state => do
    let partition ← leastOfEight state.loads
    givePacket resolved packet partition state) state

/-- `AssignWeightedPacketPartitions` over packets in order. -/
def assignWeightedPacketPartitions (fuel : Nat) (resolved : List UInt64) (ordered : List UInt32)
    (state : Assignment) : Scheduling Assignment :=
  let state :=
    { state with
      loads := List.replicate state.loads.length 0
      counts := List.replicate state.counts.length 0 }
  if state.loads.length = 0 then pure state
  else if state.loads.length = 8 then assignEightPartitions resolved ordered state
  else assignWeightedPacketPartitionsHeap fuel resolved ordered state

/-! ### Ranges of the order -/

/-- The arrays of the dealing stage. -/
structure Ranges where
  ordered : List UInt32
  scratch : List UInt32
  offsets : List UInt32
  writeOffsets : List UInt32
  deriving DecidableEq, Repr

/-- `ScatterWeightedPacketOrder`; false when the counts do not add up to the packets. -/
def scatterWeightedPacketOrder (packetCount partitionCount : UInt32) (assigned : Assignment)
    (state : Ranges) : Scheduling (Bool × Ranges) := do
  let starts ← runningOffsets partitionCount.toNat
    (fun partition _ => fetch assigned.counts partition)
    (fun partition offset (state : List UInt32 × List UInt32) => do
      let offsets ← assign state.1 partition offset
      let writeOffsets ← assign state.2 partition offset
      pure (offsets, writeOffsets)) (state.offsets, state.writeOffsets)
  if starts.1 ≠ packetCount then
    pure (false, { state with offsets := starts.2.1, writeOffsets := starts.2.2 })
  else do
    let partitionOf := fun (packet : UInt32) => do
      let partition ← fetch assigned.partitionIndices packet.toNat
      pure partition.toNat
    let written ← scatter partitionOf state.ordered.length state.ordered starts.2.2 state.scratch
    pure (true,
      { ordered := written.2.take packetCount.toNat ++ state.ordered.drop packetCount.toNat,
        scratch := written.2, offsets := starts.2.1, writeOffsets := written.1 })

/-- `BuildWeightedSchedulePartitions` over `partitions`, the resized vector; `none` at the first
empty range or range past the packets. -/
def buildWeightedSchedulePartitions (packetCount partitionCount : UInt32) (counts : List UInt32)
    (ranges : Ranges) (partitions : List Partition) :
    Scheduling (Option (UInt32 × List Partition)) :=
  forRange partitionCount.toNat (fun partition state =>
    match state with
    | none => pure none
    | some (maxPackets, partitions) => do
        let start ← fetch ranges.offsets partition
        let count ← fetch counts partition
        let stop := start + count
        if start ≥ stop ∨ stop > packetCount then pure none
        else do
          let partitions ← assign partitions partition
            { workerIndex := UInt32.ofNat partition, «begin» := start, «end» := stop }
          pure (some (max maxPackets (stop - start), partitions))) (some (0, partitions))

/-! ### Compilation -/

def hasWeightedNoGrowthCapacity (workspace : Workspace) (projection : PartitionProjection) :
    Bool :=
  let packetCount := projection.packetCount.toNat
  let partitionCount := projection.partitionCount.toNat
  decide (partitionCount ≤ workspace.schedule.partitions.capacity) &&
    decide (packetCount ≤ workspace.packetWorkUnits.capacity) &&
    decide (packetCount ≤ workspace.orderedPacketIndices.capacity) &&
    decide (packetCount ≤ workspace.packetPartitionIndices.capacity) &&
    decide (packetCount ≤ workspace.orderedPacketScratch.capacity) &&
    decide (partitionCount ≤ workspace.partitionLoads.capacity) &&
    decide (partitionCount ≤ workspace.partitionCounts.capacity) &&
    decide (partitionCount ≤ workspace.partitionOffsets.capacity) &&
    decide (partitionCount ≤ workspace.partitionWriteOffsets.capacity)

/-- `PrepareWeightedNoGrowthBuffers`. -/
def prepareWeightedNoGrowthBuffers (workspace : Workspace) (request : ScheduleCompileRequest)
    (projection : PartitionProjection) : Workspace :=
  let packetCount := request.packetCount.toNat
  let partitionCount := projection.partitionCount.toNat
  { workspace with
    schedule := { workspace.schedule with partitions := workspace.schedule.partitions.clear }
    packetWorkUnits := workspace.packetWorkUnits.resize packetCount 0
    orderedPacketIndices := workspace.orderedPacketIndices.resize packetCount 0
    packetPartitionIndices := workspace.packetPartitionIndices.resize packetCount 0
    orderedPacketScratch := workspace.orderedPacketScratch.resize packetCount 0
    partitionLoads := workspace.partitionLoads.resize partitionCount 0
    partitionCounts := workspace.partitionCounts.resize partitionCount 0
    partitionOffsets := workspace.partitionOffsets.resize partitionCount 0
    partitionWriteOffsets := workspace.partitionWriteOffsets.resize partitionCount 0 }

/-- `StoreWeightedNoGrowthScheduleState`. -/
def storeWeightedNoGrowthScheduleState (schedule : Schedule) (request : ScheduleCompileRequest)
    (projection : PartitionProjection) (maxPackets : UInt32) : Schedule :=
  { schedule with
    packetCount := request.packetCount
    executionWidth := request.executionWidth
    placement := request.placement
    alignmentPackets := 1
    packetsPerPartitionMax := maxPackets
    workerSlotCount := projection.workerSlotCount
    foldSlotCount := projection.foldSlotCount
    usefulWidth := projection.usefulWidth
    noAllocation := true }

def buildWeightedNoGrowthSuccess (projection : PartitionProjection) (maxPackets : UInt32) :
    PartitionBuild :=
  { ok := true, reason := "pass", partitionCount := projection.partitionCount,
    alignmentPackets := 1, packetsPerPartitionMax := maxPackets,
    workerSlotCount := projection.workerSlotCount, foldSlotCount := projection.foldSlotCount,
    usefulWidth := projection.usefulWidth, placement := projection.placement,
    noAllocation := true }

/-- `AssignWeightedPacketPartitions` on the workspace: order the packets, then assign them. -/
def assignStage (fuel : Nat) (workspace : Workspace) (request : ScheduleCompileRequest)
    (resolved : List UInt64) : Scheduling (List UInt32 × List UInt32 × Assignment) := do
  let order ← buildWeightedPacketOrder request resolved
    { ordered := workspace.orderedPacketIndices.items
      buckets := workspace.packetPartitionIndices.items
      scratch := workspace.orderedPacketScratch.items }
  let assigned ← assignWeightedPacketPartitions fuel resolved order.ordered
    { partitionIndices := order.buckets
      loads := workspace.partitionLoads.items
      counts := workspace.partitionCounts.items
      heap := workspace.partitionWriteOffsets.items }
  pure (order.ordered, order.scratch, assigned)

/-- The workspace after its packet and partition arrays were written. -/
def Workspace.withArrays (workspace : Workspace) (units : List UInt64) (assigned : Assignment)
    (ranges : Ranges) : Workspace :=
  { workspace with
    packetWorkUnits := workspace.packetWorkUnits.replace units
    orderedPacketIndices := workspace.orderedPacketIndices.replace ranges.ordered
    packetPartitionIndices := workspace.packetPartitionIndices.replace assigned.partitionIndices
    orderedPacketScratch := workspace.orderedPacketScratch.replace ranges.scratch
    partitionLoads := workspace.partitionLoads.replace assigned.loads
    partitionCounts := workspace.partitionCounts.replace assigned.counts
    partitionOffsets := workspace.partitionOffsets.replace ranges.offsets
    partitionWriteOffsets := workspace.partitionWriteOffsets.replace ranges.writeOffsets }

/-- `CompileWeightedNoGrowthSchedule`, with `fuel` turns for each run of the heap's loop. -/
def compileWeightedNoGrowthSchedule (fuel : Nat) (workspace : Workspace)
    (request : ScheduleCompileRequest) (projection : PartitionProjection) :
    Scheduling (PartitionBuild × Workspace) := do
  requireSchedule (packetHintsValid request) workspace projection "invalid_packet_hints"
  requireSchedule (hasWorkUnits request) workspace projection "invalid_packet_work_units"
  let kind := classifyWeightedWorkSource workspace request
  requireSchedule (kind ≠ .invalid) workspace projection "invalid_packet_work_units"
  requireSchedule (hasWeightedNoGrowthCapacity workspace projection) workspace projection
    "weighted_workspace_capacity_exceeded"
  let prepared := prepareWeightedNoGrowthBuffers workspace request projection
  let materialized ← materializeWeightedWorkUnits prepared request kind
    prepared.packetWorkUnits.items
  match materialized with
  | none =>
      leave (.failed (failWeightedNoGrowthSchedule projection "invalid_packet_work_units")
        { prepared with lastFailureReason := "invalid_packet_work_units" })
  | some units => do
      let (ordered, scratch, assigned) ← assignStage fuel prepared request units
      let (covered, ranges) ← scatterWeightedPacketOrder request.packetCount
        projection.partitionCount assigned
        { ordered := ordered, scratch := scratch, offsets := prepared.partitionOffsets.items,
          writeOffsets := assigned.heap }
      let after := prepared.withArrays units assigned ranges
      requireSchedule covered after projection "partition_coverage_mismatch"
      let partitions := after.schedule.partitions.resize projection.partitionCount.toNat {}
      let built ← buildWeightedSchedulePartitions request.packetCount projection.partitionCount
        assigned.counts ranges partitions.items
      match built with
      | none =>
          leave (.failed (failWeightedNoGrowthSchedule projection "partition_coverage_mismatch")
            { after with lastFailureReason := "partition_coverage_mismatch" })
      | some (maxPackets, ranges) =>
          pure (buildWeightedNoGrowthSuccess projection maxPackets,
            { after with
              schedule := storeWeightedNoGrowthScheduleState
                { after.schedule with partitions := partitions.replace ranges }
                request projection maxPackets
              lastFailureReason := "pass" })

end RunD
