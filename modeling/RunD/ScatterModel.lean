/-
The scatter of the CPU backend and its reference.

Each value goes to the place of the output that its index names.  No index may
be out of range, and no two may be the same; the first that is rejects the whole
scatter before anything is written.  The reference compares each index with all
the earlier ones.  The backend keeps them in a table with open addressing that
lives as long as its scratch: a mark that is not the epoch of the running
scatter says that a slot is free.
-/
import RunD.Checked
import RunD.CheckedWord
import RunD.ProbeTable

namespace RunD.Scatter

/-! ### Plans -/

/-- `ScatterElement`. -/
inductive ScatterElement where
  | u32
  | u64
  deriving DecidableEq, Repr

/-- `ScatterDesc`. -/
structure ScatterDesc where
  element : ScatterElement
  elementCount : UInt64
  outputCount : UInt64
  deriving DecidableEq, Repr

/-- `ScatterPlan`. -/
structure ScatterPlan where
  element : ScatterElement
  elementCount : UInt64
  outputCount : UInt64
  elementBytes : UInt64 := 0
  indexBytes : UInt64 := 0
  statusBytes : UInt64 := 0
  tempBytes : UInt64 := 0
  scratchSlots : UInt64 := 0
  passCount : UInt64 := 0
  ok : Bool := false
  reason : String := "compute_scatter_invalid"
  deriving DecidableEq, Repr

def kIndexBytes : UInt64 := 4
def kStatusElementBytes : UInt64 := 4
def kMaxOutputCount : UInt64 := 0xFFFFFFFF
def kMaxEncodedCount : UInt64 := kMaxOutputCount >>> 1

/-- `ElementBytes`. -/
def elementBytes : ScatterElement → UInt64
  | .u32 => 4
  | .u64 => 8

/-- The loop of `ScratchSlots`: a doubling that does not fit gives zero. -/
def slotsLoop (required : UInt64) : Nat → UInt64 → UInt64
  | 0, _ => 0
  | turns + 1, slots =>
      if slots < required then
        if checkedMul slots 2 then slotsLoop required turns (slots * 2) else 0
      else slots

/-- `ScratchSlots`; a word doubles at most 64 times. -/
def scratchSlots (count : UInt64) : UInt64 :=
  if count = 0 ∨ checkedMul count 2 = false then 0 else slotsLoop (count * 2) 65 1

/-- `Reject` of a plan. -/
def rejectPlan (desc : ScatterDesc) (elementBytes indexBytes statusBytes tempBytes : UInt64)
    (reason : String) : ScatterPlan where
  element := desc.element
  elementCount := desc.elementCount
  outputCount := desc.outputCount
  elementBytes := elementBytes
  indexBytes := indexBytes
  statusBytes := statusBytes
  tempBytes := tempBytes
  reason := reason

/-- `PlanScatter`. -/
def planScatter (desc : ScatterDesc) : ScatterPlan :=
  let bytes := elementBytes desc.element
  if bytes = 0 then rejectPlan desc 0 0 0 0 "compute_scatter_element_unsupported"
  else if desc.elementCount = 0 then
    rejectPlan desc bytes kIndexBytes 0 0 "compute_scatter_count_zero"
  else if desc.elementCount > kMaxEncodedCount then
    rejectPlan desc bytes kIndexBytes 0 0 "compute_scatter_count_unsupported"
  else if desc.outputCount = 0 then
    rejectPlan desc bytes kIndexBytes 0 0 "compute_scatter_output_zero"
  else if desc.outputCount > kMaxOutputCount then
    rejectPlan desc bytes kIndexBytes 0 0 "compute_scatter_output_unsupported"
  else
    let status := (desc.outputCount + 1) * kStatusElementBytes
    { element := desc.element
      elementCount := desc.elementCount
      outputCount := desc.outputCount
      elementBytes := bytes
      indexBytes := kIndexBytes
      statusBytes := status
      tempBytes := status
      scratchSlots := scratchSlots desc.elementCount
      passCount := 1
      ok := true
      reason := "ok" }

/-! ### Results -/

/-- `ScatterResult`. -/
structure ScatterResult where
  elementCount : UInt64
  outputCount : UInt64
  firstRejectedIndex : UInt64
  ok : Bool := false
  reason : String
  deriving DecidableEq, Repr

/-- `Reject` and `RejectScatter`. -/
def reject (elementCount outputCount firstRejectedIndex : UInt64) (reason : String) :
    ScatterResult where
  elementCount := elementCount
  outputCount := outputCount
  firstRejectedIndex := firstRejectedIndex
  reason := reason

/-- The result of a scatter that was done. -/
def accepted (elementCount outputCount : UInt64) : ScatterResult where
  elementCount := elementCount
  outputCount := outputCount
  firstRejectedIndex := elementCount
  ok := true
  reason := "ok"

/-- A search of the table that does not come to an end. -/
inductive Endless where
  | endless
  deriving DecidableEq, Repr

abbrev Scattering (β : Type) := Checked Endless β

section Scatter

variable {α : Type}

/-- The writing loop of a scatter: `output[indices[index]] = values[index]`. -/
def writeTargets (values : List α) (indices : List UInt32) (elementCount : UInt64)
    (output : List α) : Scattering (List α) :=
  forRange elementCount.toNat (fun index output => do
    let target ← fetch indices index
    let value ← fetch values index
    assign output target.toNat value) output

/-! ### The reference -/

/-- The inner loop of `ReferenceScatter`: whether one of the earlier indices is the target. -/
def priorLoop (indices : List UInt32) (target : UInt32) : Nat → Nat → Scattering Bool
  | 0, _ => pure false
  | turns + 1, prior => do
      let earlier ← fetch indices prior
      if earlier = target then pure true else priorLoop indices target turns (prior + 1)

/-- The first loop of `ReferenceScatter`: the rejection, if there is one. -/
def referenceLoop (indices : List UInt32) (elementCount outputCount : UInt64) :
    Nat → Nat → Scattering (Option ScatterResult)
  | 0, _ => pure none
  | turns + 1, index => do
      let target ← fetch indices index
      if target.toUInt64 ≥ outputCount then
        pure (some (reject elementCount outputCount (UInt64.ofNat index)
          "compute_scatter_index_out_of_range"))
      else do
        let seen ← priorLoop indices target index 0
        if seen then
          pure (some (reject elementCount outputCount (UInt64.ofNat index)
            "compute_scatter_duplicate_index"))
        else referenceLoop indices elementCount outputCount turns (index + 1)

/-- `ReferenceScatter`: its result, and the output after it. -/
def referenceScatter (values : List α) (indices : List UInt32) (output : List α)
    (elementCount outputCount : UInt64) : Scattering (ScatterResult × List α) :=
  if elementCount = 0 then
    pure (reject 0 outputCount 0 "compute_scatter_count_zero", output)
  else if elementCount > kMaxEncodedCount then
    pure (reject elementCount outputCount 0 "compute_scatter_count_unsupported", output)
  else if outputCount = 0 then
    pure (reject elementCount 0 0 "compute_scatter_output_zero", output)
  else if outputCount > kMaxOutputCount then
    pure (reject elementCount outputCount 0 "compute_scatter_output_unsupported", output)
  else do
    let rejected ← referenceLoop indices elementCount outputCount elementCount.toNat 0
    match rejected with
    | some result => pure (result, output)
    | none => do
        let output ← writeTargets values indices elementCount output
        pure (accepted elementCount outputCount, output)

/-! ### The table -/

/-- `CpuScatterScratch`. -/
structure ScatterScratch where
  keys : List UInt32 := []
  marks : List UInt32 := []
  epoch : UInt32 := 0
  deriving DecidableEq, Repr

/-- `EnsureScatterCapacity`: what a vector gains is zero. -/
def ensureScatterCapacity (buffer : List UInt32) (cap : Nat) : List UInt32 :=
  if buffer.length ≥ cap then buffer else buffer ++ List.replicate (cap - buffer.length) 0

/-- `NextScatterEpoch`: when the epochs are used up, all marks are cleared. -/
def nextScatterEpoch (scratch : ScatterScratch) : ScatterScratch :=
  if scratch.epoch = 0xFFFFFFFF then
    { scratch with marks := scratch.marks.map fun _ => 0, epoch := 1 }
  else { scratch with epoch := scratch.epoch + 1 }

/-- The loop of `MarkScatterTarget`, which has been around the table when its turns are over. -/
def probeLoop (scratch : ScatterScratch) (mask : Nat) (epoch target : UInt32) :
    Nat → Nat → Scattering (Bool × ScatterScratch)
  | 0, _ => leave .endless
  | turns + 1, slot => do
      let mark ← fetch scratch.marks slot
      if mark = epoch then do
        let key ← fetch scratch.keys slot
        if key = target then pure (false, scratch)
        else probeLoop scratch mask epoch target turns ((slot + 1) &&& mask)
      else do
        let marks ← assign scratch.marks slot epoch
        let keys ← assign scratch.keys slot target
        pure (true, { scratch with marks, keys })

/-- `MarkScatterTarget`. -/
def markScatterTarget (scratch : ScatterScratch) (cap : Nat) (epoch target : UInt32) :
    Scattering (Bool × ScatterScratch) :=
  probeLoop scratch (cap - 1) epoch target cap ((target.toNat * 2654435761) &&& (cap - 1))

/-- The first loop of `ExecuteLinearScatter`: the rejection, if there is one. -/
def markLoop (cap : Nat) (epoch : UInt32) (indices : List UInt32)
    (elementCount outputCount : UInt64) :
    Nat → Nat → ScatterScratch → Scattering (ScatterScratch × Option ScatterResult)
  | 0, _, scratch => pure (scratch, none)
  | turns + 1, index, scratch => do
      let target ← fetch indices index
      if target.toUInt64 ≥ outputCount then
        pure (scratch, some (reject elementCount outputCount (UInt64.ofNat index)
          "compute_scatter_index_out_of_range"))
      else do
        let (fresh, scratch) ← markScatterTarget scratch cap epoch target
        if fresh then markLoop cap epoch indices elementCount outputCount turns (index + 1) scratch
        else
          pure (scratch, some (reject elementCount outputCount (UInt64.ofNat index)
            "compute_scatter_duplicate_index"))

/-- `ExecuteLinearScatter`: the scratch and the output after it, and its result. -/
def executeLinearScatter (scratch : ScatterScratch) (values : List α) (indices : List UInt32)
    (output : List α) (elementCount outputCount scratchSlots : UInt64) :
    Scattering (ScatterScratch × ScatterResult × List α) :=
  if scratchSlots = 0 then
    pure (scratch, reject elementCount outputCount 0 "compute_scatter_temp_overflow", output)
  else do
    let grown : ScatterScratch :=
      { scratch with
        keys := ensureScatterCapacity scratch.keys scratchSlots.toNat
        marks := ensureScatterCapacity scratch.marks scratchSlots.toNat }
    let started := nextScatterEpoch grown
    let (marked, rejected) ←
      markLoop scratchSlots.toNat started.epoch indices elementCount outputCount
        elementCount.toNat 0 started
    match rejected with
    | some result => pure (marked, result, output)
    | none => do
        let output ← writeTargets values indices elementCount output
        pure (marked, accepted elementCount outputCount, output)

end Scatter

/-! ### Histories -/

/-- The buffers of a scatter, by the width of its elements. -/
inductive ScatterBuffers where
  | u32 (values output : List UInt32)
  | u64 (values output : List UInt64)
  deriving DecidableEq, Repr

/-- A scatter that is asked for. -/
structure ScatterCall where
  desc : ScatterDesc
  indices : List UInt32
  buffers : ScatterBuffers
  deriving DecidableEq, Repr

/-- `ExecuteCpuScatter` from the plan on: the output comes back in its buffers. -/
def ScatterCall.run (call : ScatterCall) (scratch : ScatterScratch) :
    Scattering (ScatterScratch × ScatterResult × ScatterBuffers) :=
  let plan := planScatter call.desc
  match call.buffers with
  | .u32 values output => do
      let (scratch, result, output) ← executeLinearScatter scratch values call.indices output
        plan.elementCount plan.outputCount plan.scratchSlots
      pure (scratch, result, .u32 values output)
  | .u64 values output => do
      let (scratch, result, output) ← executeLinearScatter scratch values call.indices output
        plan.elementCount plan.outputCount plan.scratchSlots
      pure (scratch, result, .u64 values output)

/-- The reference of a scatter. -/
def ScatterCall.reference (call : ScatterCall) : Scattering (ScatterResult × ScatterBuffers) :=
  match call.buffers with
  | .u32 values output => do
      let (result, output) ← referenceScatter values call.indices output call.desc.elementCount
        call.desc.outputCount
      pure (result, .u32 values output)
  | .u64 values output => do
      let (result, output) ← referenceScatter values call.indices output call.desc.elementCount
        call.desc.outputCount
      pure (result, .u64 values output)

/-- Scatters one after the other, on one scratch. -/
def runAll : List ScatterCall → ScatterScratch →
    Scattering (ScatterScratch × List (ScatterResult × ScatterBuffers))
  | [], scratch => pure (scratch, [])
  | call :: calls, scratch => do
      let (scratch, done) ← call.run scratch
      let (scratch, results) ← runAll calls scratch
      pure (scratch, done :: results)

/-- The references of scatters one after the other. -/
def referenceAll : List ScatterCall → Scattering (List (ScatterResult × ScatterBuffers))
  | [] => pure []
  | call :: calls => do
      let done ← call.reference
      let results ← referenceAll calls
      pure (done :: results)

end RunD.Scatter
