/-
Execution of a fold graph over a caller-supplied scratch array.

`foldGraphReduce` validates the graph with the scratch array as its markers,
fills the scratch with the operator's identity, stores the partition values
and runs the edges in order.  The scratch is instrumented: `Scratch` carries,
next to its cells, the list of slot accesses made so far, which the program
never looks at.  What the execution does to memory is then a statement about
that list.
-/
import RunD.FoldGraph

namespace RunD

/-! ### The instrumented scratch array -/

/-- One access of the reduction to its scratch array. -/
inductive SlotAccess where
  /-- The slot receives its value. -/
  | define (slot : Nat)
  /-- The slot's value is used. -/
  | use (slot : Nat)
  deriving DecidableEq, Repr

def SlotAccess.slot : SlotAccess → Nat
  | .define slot => slot
  | .use slot => slot

/-- Scratch cells and the accesses made to them, oldest first. -/
structure Scratch where
  cells : List UInt64
  log : List SlotAccess := []
  deriving DecidableEq, Repr

variable {ε : Type}

/-- `scratch_slots[slot]`. -/
def Scratch.load (scratch : Scratch) (slot : Nat) : Checked ε (UInt64 × Scratch) := do
  let value ← fetch scratch.cells slot
  pure (value, { scratch with log := scratch.log ++ [.use slot] })

/-- `scratch_slots[slot] = value`. -/
def Scratch.store (scratch : Scratch) (slot : Nat) (value : UInt64) : Checked ε Scratch := do
  let cells ← assign scratch.cells slot value
  pure { cells := cells, log := scratch.log ++ [.define slot] }

/-! ### Reduction -/

structure FoldResult where
  ok : Bool := false
  reason : String := "not_run"
  value : UInt64 := 0
  slotCount : UInt32 := 0
  operation : FoldOperation := .xor
  deriving DecidableEq, Repr

/-- A fold that leaves early with the failed result. -/
abbrev Folding := Checked FoldResult

/-- The early return of a failed validation, as the early return of the caller. -/
def Checked.mapReject {ε ε' α : Type} (f : ε → ε') : Checked ε α → Checked ε' α
  | Except.ok a => Except.ok a
  | Except.error (Stop.reject r) => Except.error (Stop.reject (f r))
  | Except.error Stop.outOfBounds => Except.error Stop.outOfBounds

theorem Checked.mapReject_eq_ok {ε ε' α : Type} {f : ε → ε'} {x : Checked ε α} {a : α} :
    x.mapReject f = Except.ok a ↔ x = Except.ok a := by
  rcases x with (r | -) | b <;> simp [Checked.mapReject]

def foldFailure (graph : FoldGraphView) (reason : String) : FoldResult :=
  { ok := false, reason := reason, slotCount := graph.partitionCount,
    operation := graph.operation }

/-- Store one partition's value in its slot. -/
def storePartition (graph : FoldGraphView) (partitionValues : List UInt64)
    (requiredSlots : UInt32) (partition : Nat) (scratch : Scratch) : Folding Scratch := do
  let slot ← graph.partitionFoldSlots.get partition
  require (slot < requiredSlots) (foldFailure graph "fold_graph_slot_out_of_range")
  let value ← fetch partitionValues partition
  scratch.store slot.toNat value

/-- The right operand of an edge: its padding word, or the word of its right slot. -/
def loadRight (edge : FoldGraphEdge) (scratch : Scratch) : Folding (UInt64 × Scratch) :=
  if edge.rightIsPadding then pure (edge.paddingValue, scratch)
  else scratch.load edge.rightSlot.toNat

/-- Run one edge; the slot it wrote becomes the final slot. -/
def runEdge (graph : FoldGraphView) (edgeIndex : Nat) (state : UInt32 × Scratch) :
    Folding (UInt32 × Scratch) := do
  let edge ← graph.reductionEdges.get edgeIndex
  let right ← loadRight edge state.2
  let left ← right.2.load edge.leftSlot.toNat
  let scratch ← left.2.store edge.outputSlot.toNat
    (combineFoldValues graph.operation left.1 right.1 graph.strictFloatReduction)
  pure (edge.outputSlot, scratch)

/-- `FoldGraphReduce` over a span of scratch slots, with the scratch it leaves behind. -/
def foldGraphReduce (graph : FoldGraphView) (partitionValues : List UInt64)
    (scratchSlots : List UInt64) : Folding (FoldResult × Scratch) := do
  require (partitionValues.length = graph.partitionCount.toNat)
    (foldFailure graph "fold_graph_partition_mismatch")
  let validated ← (validateFoldGraphWithMarkers graph scratchSlots).mapReject
    (fun failed => foldFailure graph failed.reason)
  let requiredSlots := validated.1.scratchSlotCount
  require (requiredSlots.toNat ≤ scratchSlots.length)
    (foldFailure graph "fold_graph_scratch_capacity_exceeded")
  let filled : Scratch :=
    { cells := List.replicate scratchSlots.length (foldIdentityValue graph.operation) }
  let stored ← forRange graph.partitionCount.toNat
    (storePartition graph partitionValues requiredSlots) filled
  let reduced ← forRange graph.reductionEdges.count.toNat (runEdge graph)
    (validated.1.finalSlot, stored)
  let final ← reduced.2.load reduced.1.toNat
  pure ({ ok := true, reason := "pass", value := final.1, slotCount := graph.partitionCount,
          operation := graph.operation }, final.2)

/-! ### Reduction over owned slots -/

/-- Whether a build may grow the vectors it is given. -/
inductive AllocationPolicy where
  | allowGrowth
  | noGrowth
  deriving DecidableEq, Repr

/-- `EnsureFoldGraphScratch`: size the slots for the graph and clear them. -/
def ensureFoldGraphScratch (scratch : Vec UInt64) (graph : FoldGraphView)
    (allocation : AllocationPolicy) : Validation (Option (Vec UInt64)) := do
  let required ← foldGraphScratchSlotCount graph
  if allocation = .noGrowth ∧ scratch.capacity < required.toNat then
    pure none
  else
    let scratch := if allocation = .allowGrowth then scratch.reserve required.toNat else scratch
    let scratch := scratch.resize required.toNat 0
    pure (some (scratch.replace (List.replicate scratch.items.length 0)))

/-- `FoldGraphReduce` over a `FoldSlots`, with the scratch it leaves behind. -/
def foldGraphReduceSlots (graph : FoldGraphView) (partitionValues : List UInt64)
    (scratch : Vec UInt64) (allocation : AllocationPolicy) : Folding (FoldResult × Scratch) := do
  let ensured ← (ensureFoldGraphScratch scratch graph allocation).mapReject
    (fun failed => foldFailure graph failed.reason)
  match ensured with
  | none => leave (foldFailure graph "fold_graph_scratch_capacity_exceeded")
  | some slots => foldGraphReduce graph partitionValues slots.items

/-- The `FoldResult` a fold returns, whichever way it leaves. -/
def Checked.foldResult {α : Type} : Folding (FoldResult × α) → Option FoldResult
  | Except.ok (result, _) => some result
  | Except.error (Stop.reject result) => some result
  | Except.error Stop.outOfBounds => none

end RunD
