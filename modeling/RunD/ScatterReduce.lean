/-
Scatter with a reduction, by the two strategies of the CPU.

Every element is folded into the place of the output that its index names, in
the order of the elements.  Before anything is written all indices are checked,
and the elements whose target had one before are counted: `SeenBitmap` has a bit
for each place of the output and writes a word of bits back when it goes on to
another one, `SortedKeys` sorts the indices and counts equal neighbours.
-/
import RunD.DistinctCount
import RunD.WindowPlan

namespace RunD.ScatterReduce

/-! ### Plans -/

/-- `ScatterReduceOp`; a byte may also be none of them. -/
inductive ScatterReduceOp where
  | sum
  | min
  | max
  | unknown (value : UInt8)
  deriving DecidableEq, Repr

/-- `ScatterReduceDesc`. -/
structure ScatterReduceDesc where
  op : ScatterReduceOp := .sum
  domain : ComputeDomain := .u32
  fixedFormat : ComputeFixedFormat := {}
  elementCount : UInt64 := 0
  outputCount : UInt64 := 0
  countSource : Window.CountSource := .descriptor
  deriving DecidableEq, Repr

/-- `IndexPreflightPlan`. -/
structure IndexPreflightPlan where
  groupCount : UInt32 := 0
  passCount : UInt32 := 0
  partialBytes : UInt64 := 0
  deriving DecidableEq, Repr

/-- `ScatterReducePlan`. -/
structure ScatterReducePlan where
  op : ScatterReduceOp := .sum
  domain : ComputeDomain := .u32
  fixedFormat : ComputeFixedFormat := {}
  elementCount : UInt64 := 0
  outputCount : UInt64 := 0
  elementBytes : UInt64 := 0
  indexBytes : UInt64 := 4
  sortedIndexBytes : UInt64 := 0
  sortedValueBytes : UInt64 := 0
  segmentBytes : UInt64 := 0
  preflight : IndexPreflightPlan := {}
  statusBytes : UInt64 := 0
  indirectBytes : UInt64 := 0
  tempBytes : UInt64 := 0
  radixPassCount : UInt32 := 0
  foldPassCount : UInt32 := 0
  passCount : UInt32 := 0
  countSource : Window.CountSource := .descriptor
  ok : Bool := false
  reason : String := "compute_scatter_reduce_invalid"
  deriving DecidableEq, Repr

/-- `PlanIndexPreflight`. -/
def planIndexPreflight (capacity : UInt64) : IndexPreflightPlan :=
  if capacity = 0 ∨ capacity > 0xFFFFFFFF then {}
  else if capacity ≤ 65536 then ⟨1, 1, 0⟩
  else
    let requested := capacity / 4096 + if capacity % 4096 ≠ 0 then 1 else 0
    let groups : UInt32 := (if requested < 1024 then requested else 1024).toUInt32
    ⟨groups, 2, groups.toUInt64 * 4⟩

def kStatusBytes : UInt64 := 16
def kIndirectBytes : UInt64 := 24

def knownOp : ScatterReduceOp → Bool
  | .unknown _ => false
  | _ => true

/-- `ElementBytes`; a fixed format is as wide as its bits. -/
def elementBytes (domain : ComputeDomain) (format : ComputeFixedFormat) : UInt64 :=
  match domain with
  | .i32 | .u32 => 4
  | .i64 | .u64 => 8
  | .fixed =>
      let width := format.integerBits.toNat + format.fractionBits.toNat
      if width = 32 then 4 else if width = 64 then 8 else 0
  | .unknown => 0

/-- `Reject` of a plan. -/
def rejectPlan (desc : ScatterReduceDesc) (elementBytes : UInt64) (reason : String) :
    ScatterReducePlan where
  op := desc.op
  domain := desc.domain
  fixedFormat := desc.fixedFormat
  elementCount := desc.elementCount
  outputCount := desc.outputCount
  elementBytes := elementBytes
  countSource := desc.countSource
  reason := reason

/-- `PlanScatterReduce`. -/
def planScatterReduce (desc : ScatterReduceDesc) : ScatterReducePlan :=
  if knownOp desc.op = false then rejectPlan desc 0 "compute_scatter_reduce_op_unsupported"
  else
    let bytes := elementBytes desc.domain desc.fixedFormat
    if bytes = 0 then rejectPlan desc 0 "compute_scatter_reduce_domain_unsupported"
    else if desc.domain = .fixed ∧ Window.primitiveFixedFormatValid bytes desc.fixedFormat
        desc.fixedFormat.approximation = false then
      rejectPlan desc bytes "compute_scatter_reduce_fixed_invalid"
    else if desc.domain ≠ .fixed ∧ computeFixedFormatAbsent desc.fixedFormat = false then
      rejectPlan desc bytes "compute_scatter_reduce_fixed_unexpected"
    else if desc.elementCount = 0 then
      rejectPlan desc bytes "compute_scatter_reduce_count_zero"
    else if desc.elementCount > 0xFFFFFFFF then
      rejectPlan desc bytes "compute_scatter_reduce_count_unsupported"
    else if desc.outputCount = 0 then
      rejectPlan desc bytes "compute_scatter_reduce_output_zero"
    else if desc.outputCount > 0xFFFFFFFF then
      rejectPlan desc bytes "compute_scatter_reduce_output_unsupported"
    else if Window.knownCountSource desc.countSource = false then
      rejectPlan desc bytes "compute_scatter_reduce_count_source_unsupported"
    else if checkedMul desc.outputCount 4 = false then
      rejectPlan desc bytes "compute_scatter_reduce_temp_overflow"
    else
      let segmentBytes := desc.outputCount * 4
      let preflight := planIndexPreflight desc.elementCount
      let statusBytes := kStatusBytes + preflight.partialBytes
      if checkedAdd segmentBytes statusBytes = false ∨
          checkedAdd (segmentBytes + statusBytes) kIndirectBytes = false then
        rejectPlan desc bytes "compute_scatter_reduce_temp_overflow"
      else
        { op := desc.op
          domain := desc.domain
          fixedFormat := desc.fixedFormat
          elementCount := desc.elementCount
          outputCount := desc.outputCount
          elementBytes := bytes
          segmentBytes := segmentBytes
          preflight := preflight
          statusBytes := statusBytes
          indirectBytes := kIndirectBytes
          tempBytes := segmentBytes + statusBytes + kIndirectBytes
          foldPassCount := 1
          passCount := preflight.passCount + 2
          countSource := desc.countSource
          ok := true
          reason := "ok" }

/-- `ScatterReduceCpuStrategy`. -/
inductive ScatterReduceCpuStrategy where
  | sortedKeys
  | seenBitmap
  deriving DecidableEq, Repr

/-- `ScatterReduceCpuPlan`. -/
structure ScatterReduceCpuPlan where
  strategy : ScatterReduceCpuStrategy := .sortedKeys
  scratchWords : UInt64 := 0
  deriving DecidableEq, Repr

/-- `PlanScatterReduceCpu`. -/
def planScatterReduceCpu (plan : ScatterReducePlan) : ScatterReduceCpuPlan :=
  if plan.ok = false then {}
  else
    let bitmapWords := plan.outputCount / 32 + if plan.outputCount % 32 ≠ 0 then 1 else 0
    if bitmapWords ≤ plan.elementCount then ⟨.seenBitmap, bitmapWords⟩
    else ⟨.sortedKeys, plan.elementCount⟩

/-! ### Results -/

/-- `ScatterReduceResult`. -/
structure ScatterReduceResult where
  elementCount : UInt64 := 0
  outputCount : UInt64 := 0
  firstRejectedOrdinal : UInt64 := 0
  conflictCount : UInt64 := 0
  ok : Bool := false
  reason : String := "compute_scatter_reduce_invalid"
  deriving DecidableEq, Repr

/-- `Reject` of an execution. -/
def reject (plan : ScatterReducePlan) (firstRejectedOrdinal : UInt64) (reason : String) :
    ScatterReduceResult where
  elementCount := plan.elementCount
  outputCount := plan.outputCount
  firstRejectedOrdinal := firstRejectedOrdinal
  reason := reason

/-- The preflights leave early with the result that rejects. -/
abbrev Reducing (β : Type) := Checked ScatterReduceResult β

/-! ### The fold -/

section Fold

variable {w : Nat} (signed : Bool)

/-- The integer that a lane stands for. -/
def laneValue (value : BitVec w) : Int := if signed then value.toInt else value.toNat

/-- `std::numeric_limits<T>::max()`. -/
def laneMax : BitVec w := if signed then BitVec.intMax w else BitVec.allOnes w

/-- `std::numeric_limits<T>::lowest()`. -/
def laneLowest : BitVec w := if signed then BitVec.intMin w else 0#w

/-- `Identity`. -/
def identity (op : ScatterReduceOp) : BitVec w :=
  if op = .sum then 0#w else if op = .min then laneMax signed else laneLowest signed

/-- `ComputeOverflow::Saturate`. -/
def kSaturate : UInt8 := 1

/-- `Narrow`. -/
def narrow (value : Int) (overflow : UInt8) : BitVec w :=
  if overflow = kSaturate then
    if value < laneValue signed (laneLowest signed : BitVec w) then laneLowest signed
    else if value > laneValue signed (laneMax signed : BitVec w) then laneMax signed
    else BitVec.ofInt w value
  else BitVec.ofInt w value

/-- What `FoldScatterReduce` makes of a place of the output and a value. -/
def combine (plan : ScatterReducePlan) (fixed : Bool) (selected value : BitVec w) : BitVec w :=
  match plan.op with
  | .sum =>
      if fixed then
        narrow signed (laneValue signed selected + laneValue signed value) plan.fixedFormat.overflow
      else selected + value
  | .min => if laneValue signed value < laneValue signed selected then value else selected
  | _ => if laneValue signed value > laneValue signed selected then value else selected

/-- `FoldScatterReduce`: its result, and the output after it. -/
def foldScatterReduce (values : List (BitVec w)) (indices : List UInt32) (output : List (BitVec w))
    (logicalCount : UInt64) (plan : ScatterReducePlan) (fixed : Bool) (conflictCount : UInt64) :
    Reducing (ScatterReduceResult × List (BitVec w)) := do
  let output ← forRange plan.outputCount.toNat (fun target output =>
    assign output target (identity signed plan.op)) output
  let output ← forRange logicalCount.toNat (fun ordinal output => do
    let target ← fetch indices ordinal
    let selected ← fetch output target.toNat
    let value ← fetch values ordinal
    assign output target.toNat (combine signed plan fixed selected value)) output
  let result : ScatterReduceResult :=
    { elementCount := logicalCount
      outputCount := plan.outputCount
      firstRejectedOrdinal := logicalCount
      conflictCount := conflictCount
      ok := true
      reason := "ok" }
  pure (result, output)

/-! ### Sorted keys -/

/-- The preflight of `ReferenceScatterReduce`: its scratch has the indices then. -/
def copyIndices (plan : ScatterReducePlan) (indices : List UInt32) (logicalCount : UInt64)
    (sortedIndices : List UInt32) : Reducing (List UInt32) :=
  forRange logicalCount.toNat (fun ordinal sortedIndices => do
    let target ← fetch indices ordinal
    require (target.toUInt64 < plan.outputCount)
      (reject plan (UInt64.ofNat ordinal) "compute_scatter_reduce_index_out_of_range")
    assign sortedIndices ordinal target) sortedIndices

/-- `std::sort` of the first `count` items. -/
def sortFirst (count : Nat) (items : List UInt32) : List UInt32 :=
  (items.take count).mergeSort (fun left right => left ≤ right) ++ items.drop count

/-- The loop of `ReferenceScatterReduce` that counts equal neighbours. -/
def countConflicts (logicalCount : UInt64) (sortedIndices : List UInt32) : Reducing UInt64 :=
  forRange (logicalCount.toNat - 1) (fun turn conflictCount => do
    let earlier ← fetch sortedIndices turn
    let later ← fetch sortedIndices (turn + 1)
    pure (conflictCount + if earlier = later then 1 else 0)) 0

/-- What `ReferenceScatterReduce` does before the fold: its conflicts. -/
def referencePreflight (indices : List UInt32) (logicalCount : UInt64) (plan : ScatterReducePlan)
    (sortedIndices : List UInt32) : Reducing UInt64 := do
  require (plan.ok = true) (reject plan 0 plan.reason)
  require (logicalCount ≤ plan.elementCount)
    (reject plan plan.elementCount "compute_scatter_reduce_count_out_of_range")
  require (logicalCount = 0 ∨ logicalCount.toNat ≤ sortedIndices.length)
    (reject plan 0 "compute_scatter_reduce_buffer_invalid")
  let copied ← copyIndices plan indices logicalCount sortedIndices
  let sorted := if logicalCount > 1 then sortFirst logicalCount.toNat copied else copied
  countConflicts logicalCount sorted

/-! ### Bits that were seen -/

/-- The variables of the `SeenBitmap` preflight. -/
structure Seen where
  scratch : List UInt32
  occupied : UInt64 := 0
  activeWord : UInt32 := 0xFFFFFFFF
  original : UInt32 := 0
  pending : UInt32 := 0
  deriving DecidableEq, Repr

/-- `flush`. -/
def flush (seen : Seen) : Reducing Seen :=
  if seen.pending ≠ seen.original then do
    let scratch ← assign seen.scratch seen.activeWord.toNat seen.pending
    pure { seen with
      scratch := scratch
      occupied := seen.occupied + (popcount (seen.pending ^^^ seen.original)).toUInt64 }
  else pure seen

/-- The word of a target is made the active one. -/
def activate (word : UInt32) (seen : Seen) : Reducing Seen :=
  if word ≠ seen.activeWord then do
    let seen ← flush seen
    let original ← fetch seen.scratch word.toNat
    pure { seen with activeWord := word, original := original, pending := original }
  else pure seen

/-- One turn of the `SeenBitmap` preflight. -/
def seeTarget (plan : ScatterReducePlan) (indices : List UInt32) (ordinal : Nat) (seen : Seen) :
    Reducing Seen := do
  let target ← fetch indices ordinal
  require (target.toUInt64 < plan.outputCount)
    (reject plan (UInt64.ofNat ordinal) "compute_scatter_reduce_index_out_of_range")
  let seen ← activate (target / 32) seen
  pure { seen with pending := seen.pending ||| (1 <<< (target % 32)) }

/-- `std::fill_n` with zeros. -/
def clearWords (count : Nat) (scratch : List UInt32) : Reducing (List UInt32) :=
  forRange count (fun word scratch => assign scratch word 0) scratch

/-- The words that are counted by the `SeenBitmap` preflight. -/
def countOccupied (plan : ScatterReducePlan) (cpu : ScatterReduceCpuPlan) (indices : List UInt32)
    (logicalCount : UInt64) (scratch : List UInt32) : Reducing UInt64 :=
  if logicalCount ≠ 0 then do
    let cleared ← clearWords cpu.scratchWords.toNat scratch
    let seen ← forRange logicalCount.toNat (seeTarget plan indices) { scratch := cleared }
    let seen ← flush seen
    pure seen.occupied
  else pure 0

/-- What `ExecuteScatterReduceCpu` does before the fold: its conflicts. -/
def cpuPreflight (indices : List UInt32) (logicalCount : UInt64) (plan : ScatterReducePlan)
    (cpu : ScatterReduceCpuPlan) (scratch : List UInt32) : Reducing UInt64 := do
  require (plan.ok = true) (reject plan 0 plan.reason)
  require (logicalCount ≤ plan.elementCount)
    (reject plan plan.elementCount "compute_scatter_reduce_count_out_of_range")
  require (cpu = planScatterReduceCpu plan ∧
      (logicalCount = 0 ∨ cpu.scratchWords.toNat ≤ scratch.length))
    (reject plan 0 "compute_scatter_reduce_buffer_invalid")
  if cpu.strategy = .sortedKeys then referencePreflight indices logicalCount plan scratch
  else do
    let occupied ← countOccupied plan cpu indices logicalCount scratch
    pure (logicalCount - occupied)

/-! ### Executions -/

/-- A preflight and the fold after it: the result, and the output after it. -/
def reduceAfter (preflight : Reducing UInt64) (values : List (BitVec w)) (indices : List UInt32)
    (output : List (BitVec w)) (logicalCount : UInt64) (plan : ScatterReducePlan) (fixed : Bool) :
    Reducing (ScatterReduceResult × List (BitVec w)) :=
  match preflight with
  | Except.ok conflictCount =>
      foldScatterReduce signed values indices output logicalCount plan fixed conflictCount
  | Except.error (Stop.reject result) => pure (result, output)
  | Except.error Stop.outOfBounds => Except.error Stop.outOfBounds

/-- `ReferenceScatterReduce`. -/
def referenceScatterReduce (values : List (BitVec w)) (indices : List UInt32)
    (output : List (BitVec w)) (logicalCount : UInt64) (plan : ScatterReducePlan) (fixed : Bool)
    (sortedIndices : List UInt32) : Reducing (ScatterReduceResult × List (BitVec w)) :=
  reduceAfter signed (referencePreflight indices logicalCount plan sortedIndices) values indices
    output logicalCount plan fixed

/-- `ExecuteScatterReduceCpu`. -/
def executeScatterReduceCpu (values : List (BitVec w)) (indices : List UInt32)
    (output : List (BitVec w)) (logicalCount : UInt64) (plan : ScatterReducePlan)
    (cpu : ScatterReduceCpuPlan) (scratch : List UInt32) :
    Reducing (ScatterReduceResult × List (BitVec w)) :=
  reduceAfter signed (cpuPreflight indices logicalCount plan cpu scratch) values indices output
    logicalCount plan (plan.domain == .fixed)

end Fold

end RunD.ScatterReduce
