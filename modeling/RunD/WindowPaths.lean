/-
The sliding window on the CPU: the slot-by-slot reference and the two paths
that are faster.

The reference is the fold over a stretch of the padded input
(`referenceWindow_eq`).  The prefix path computes the same sum as a difference
of two totals with multiples of the edge values added, the block path the same
minimum or maximum from a suffix and a prefix of blocks; both are instances of
SlidingFold.lean.
-/
import Mathlib.Data.BitVec
import RunD.CheckedSize
import RunD.SlidingFold
import RunD.WindowPlan

namespace RunD

open SlidingFold

namespace Window

/-! ### Lanes -/

/-- The lane types. -/
inductive Lane where
  | i32
  | u32
  | i64
  | u64
  deriving DecidableEq, Repr

namespace Lane

def bits : Lane → Nat
  | .i32 | .u32 => 32
  | .i64 | .u64 => 64

def signed : Lane → Bool
  | .i32 | .i64 => true
  | .u32 | .u64 => false

abbrev Value (lane : Lane) : Type := BitVec lane.bits

variable (lane : Lane)

/-- The number a value stands for. -/
def toInt (value : lane.Value) : Int := if lane.signed then value.toInt else value.toNat

def lt (left right : lane.Value) : Bool := decide (lane.toInt left < lane.toInt right)

/-- `std::numeric_limits<Lane>::max()`. -/
def greatest : lane.Value := if lane.signed then BitVec.intMax lane.bits else BitVec.allOnes lane.bits

/-- `std::numeric_limits<Lane>::lowest()`. -/
def lowest : lane.Value := if lane.signed then BitVec.intMin lane.bits else 0

/-- `std::min`. -/
def min (left right : lane.Value) : lane.Value := if lane.lt right left then right else left

/-- `std::max`. -/
def max (left right : lane.Value) : lane.Value := if lane.lt left right then right else left

end Lane

def kSaturate : UInt8 := 1

variable {ε : Type} {lane : Lane}

/-- `Narrow`. -/
def narrow (value : Int) (overflow : UInt8) : lane.Value :=
  if overflow = kSaturate then
    if value < lane.toInt lane.lowest then lane.lowest
    else if value > lane.toInt lane.greatest then lane.greatest
    else BitVec.ofInt _ value
  else BitVec.ofInt _ value

/-! ### The reference -/

/-- `Identity`. -/
def identity (op : Op) : lane.Value :=
  match op with
  | .sum => 0
  | .min => lane.greatest
  | _ => lane.lowest

/-- `SampleFor`: a place of the input, and whether the slot has one. -/
def sampleFor (plan : Plan) (anchor slot : Nat) : Checked ε (Nat × Bool) :=
  if slot < plan.padLeft.toNat then do
    let distance ← sizeSub plan.padLeft.toNat slot
    if anchor < distance then pure (0, plan.boundary == .clamp)
    else do
      let index ← sizeSub anchor distance
      if index < plan.inputCount.toNat then pure (index, true)
      else do
        let last ← sizeSub plan.inputCount.toNat 1
        pure (last, plan.boundary == .clamp)
  else do
    let distance ← sizeSub slot plan.padLeft.toNat
    if anchor ≥ plan.inputCount.toNat then do
      let last ← sizeSub plan.inputCount.toNat 1
      pure (last, plan.boundary == .clamp)
    else do
      let room ← sizeSub plan.inputCount.toNat anchor
      if distance ≥ room then do
        let last ← sizeSub plan.inputCount.toNat 1
        pure (last, plan.boundary == .clamp)
      else do
        let index ← sizeAdd anchor distance
        pure (index, true)

/-- What `ReferenceWindow` makes of the value so far and an input value. -/
def accumulate (plan : Plan) (fixed : Bool) (value inputValue : lane.Value) : lane.Value :=
  match plan.op with
  | .sum =>
      if fixed then narrow (lane.toInt value + lane.toInt inputValue) plan.fixedFormat.overflow
      else value + inputValue
  | .min => if lane.lt inputValue value then inputValue else value
  | _ => if lane.lt value inputValue then inputValue else value

/-- The loop of `ReferenceWindow` over the slots of one output. -/
def referenceValue (plan : Plan) (fixed : Bool) (input : List lane.Value) (anchor : Nat) :
    Checked ε lane.Value :=
  forRange plan.windowSize.toNat (fun slot value => do
    let sample ← sampleFor plan anchor slot
    if sample.2 = false then pure value
    else do
      let inputValue ← fetch input sample.1
      pure (accumulate plan fixed value inputValue)) (identity plan.op)

/-- `ReferenceWindow`, for buffers that are there. -/
def referenceWindow (plan : Plan) (fixed : Bool) (input output : List lane.Value) :
    Checked ε (Result × List lane.Value) :=
  if plan.ok = false then
    pure ({ inputCount := plan.inputCount, outputCount := plan.outputCount, reason := plan.reason },
      output)
  else if plan.inputCount = 0 ∧ plan.outputCount = 0 then
    pure ({ ok := true, reason := "ok" }, output)
  else do
    let final ← forRange plan.outputCount.toNat (fun index (state : Nat × List lane.Value) => do
      let value ← referenceValue plan fixed input state.1
      let output ← assign state.2 index value
      if index + 1 ≠ plan.outputCount.toNat then do
        let anchor ← sizeAdd state.1 plan.stride.toNat
        pure (anchor, output)
      else pure (state.1, output)) (0, output)
    pure ({ inputCount := plan.inputCount, outputCount := plan.outputCount, ok := true,
            reason := "ok" }, final.2)

/-! ### The paths -/

/-- `CpuRangeScratch`; a span of lanes of at least four bytes is in memory. -/
structure RangeScratch (lane : Lane) where
  first : List lane.Value
  second : List lane.Value
  addressable : 4 * first.length < 2 ^ 64 ∧ 4 * second.length < 2 ^ 64

/-- `add_window`. -/
def addWindow (plan : Plan) (left right : lane.Value) : lane.Value :=
  if plan.domain = .fixed then narrow (lane.toInt left + lane.toInt right) plan.fixedFormat.overflow
  else left + right

/-- `subtract_window`. -/
def subtractWindow (left right : lane.Value) : lane.Value := left - right

/-- `scale_window`. -/
def scaleWindow (value : lane.Value) (count : Nat) : lane.Value :=
  value * BitVec.ofNat lane.bits count

/-- `combine_window`. -/
def combineWindow (plan : Plan) (left right : lane.Value) : lane.Value :=
  match plan.op with
  | .min => lane.min left right
  | .max => lane.max left right
  | _ => addWindow plan left right

/-- `window_identity`. -/
def windowIdentity (plan : Plan) : lane.Value :=
  match plan.op with
  | .min => lane.greatest
  | .max => lane.lowest
  | _ => 0

/-- The last place of the input that a window reaches. -/
def prefixRight (plan : Plan) (anchor rightWidth : Nat) : Checked ε Nat :=
  if anchor ≥ plan.inputCount.toNat then sizeSub plan.inputCount.toNat 1
  else do
    let room ← sizeSub plan.inputCount.toNat anchor
    if rightWidth ≥ room then sizeSub plan.inputCount.toNat 1
    else do
      let behind ← sizeAdd anchor rightWidth
      sizeSub behind 1

/-- How many slots of a window lie behind the input. -/
def prefixRightMissing (plan : Plan) (anchor rightWidth : Nat) : Checked ε Nat :=
  if anchor ≥ plan.inputCount.toNat then do
    let beyond ← sizeSub anchor plan.inputCount.toNat
    sizeAdd beyond rightWidth
  else do
    let room ← sizeSub plan.inputCount.toNat anchor
    if rightWidth > room then sizeSub rightWidth room else pure 0

/-- The first place of the input that a window reaches. -/
def prefixLeft (plan : Plan) (anchor : Nat) : Checked ε Nat :=
  if anchor < plan.padLeft.toNat then pure 0 else sizeSub anchor plan.padLeft.toNat

/-- How many slots of a window lie before the input. -/
def prefixLeftMissing (plan : Plan) (anchor : Nat) : Checked ε Nat :=
  if anchor < plan.padLeft.toNat then sizeSub plan.padLeft.toNat anchor else pure 0

/-- The difference of two totals; the total of an empty beginning is not read. -/
def prefixDifference (totals : List lane.Value) (left : Nat) (value : lane.Value) :
    Checked ε lane.Value :=
  if left ≠ 0 then do
    let place ← sizeSub left 1
    let before ← fetch totals place
    pure (subtractWindow value before)
  else pure value

/-- The value with the copies of an edge that a window misses. -/
def addMissing (plan : Plan) (input : List lane.Value) (place missing : Nat) (value : lane.Value) :
    Checked ε lane.Value :=
  if missing ≠ 0 then do
    let edge ← fetch input place
    pure (addWindow plan value (scaleWindow edge missing))
  else pure value

/-- One output of `run_prefix_window`. -/
def prefixValue (plan : Plan) (input totals : List lane.Value) (index : Nat) :
    Checked ε lane.Value := do
  let anchor ← sizeMul index plan.stride.toNat
  let left ← prefixLeft plan anchor
  let rightWidth ← sizeSub plan.windowSize.toNat plan.padLeft.toNat
  let right ← prefixRight plan anchor rightWidth
  let value ← fetch totals right
  let value ← prefixDifference totals left value
  if plan.boundary = .clamp then do
    let leftMissing ← prefixLeftMissing plan anchor
    let rightMissing ← prefixRightMissing plan anchor rightWidth
    let value ← addMissing plan input 0 leftMissing value
    let last ← sizeSub plan.inputCount.toNat 1
    addMissing plan input last rightMissing value
  else pure value

/-- `run_prefix_window`; what it leaves in the scratch is not read again. -/
def runPrefixWindow (plan : Plan) (scratch : RangeScratch lane) (input output : List lane.Value) :
    Checked ε (Result × List lane.Value) :=
  if scratch.first.length < plan.inputCount.toNat ∨ scratch.second ≠ [] ∨ plan.op ≠ .sum ∨
      plan.fixedFormat.overflow = kSaturate then pure ({}, output)
  else do
    let totals ← subspan scratch.first 0 plan.inputCount.toNat
    let edge ← fetch input 0
    let totals ← assign totals 0 edge
    let last ← sizeSub plan.inputCount.toNat 1
    let totals ← forRange last (fun before totals => do
      let total ← fetch totals before
      let value ← fetch input (before + 1)
      assign totals (before + 1) (addWindow plan total value)) totals
    let output ← forRange plan.outputCount.toNat (fun index output => do
      let value ← prefixValue plan input totals index
      assign output index value) output
    pure ({ inputCount := plan.inputCount, outputCount := plan.outputCount, ok := true,
            reason := "ok" }, output)

/-- `sample` in `run_block_window`. -/
def blockSample (plan : Plan) (input : List lane.Value) (position : Nat) : Checked ε lane.Value :=
  if position < plan.padLeft.toNat then
    if plan.boundary = .clamp then fetch input 0 else pure (windowIdentity plan)
  else do
    let source ← sizeSub position plan.padLeft.toNat
    if source < plan.inputCount.toNat then fetch input source
    else if plan.boundary = .clamp then do
      let last ← sizeSub plan.inputCount.toNat 1
      fetch input last
    else pure (windowIdentity plan)

/-- The loop of a block that fills `first`. -/
def blockForward (plan : Plan) (input : List lane.Value) (begin stop : Nat)
    (first : List lane.Value) : Checked ε (List lane.Value) :=
  forRange (stop - begin) (fun turn first => do
    let value ← blockSample plan input (begin + turn)
    if turn = 0 then assign first (begin + turn) value
    else do
      let place ← sizeSub (begin + turn) 1
      let before ← fetch first place
      assign first (begin + turn) (combineWindow plan before value)) first

/-- The loop of a block that fills `second`, from its end down. -/
def blockBackward (plan : Plan) (input : List lane.Value) (begin stop : Nat)
    (second : List lane.Value) : Checked ε (List lane.Value) :=
  forRange (stop - begin) (fun turn second => do
    let index ← sizeSub (stop - turn) 1
    let value ← blockSample plan input index
    if index + 1 = stop then assign second index value
    else do
      let behind ← fetch second (index + 1)
      assign second index (combineWindow plan value behind)) second

/-- The loop over the blocks, for a number of turns; it leaves when they do not suffice. -/
def blockLoop (plan : Plan) (input : List lane.Value) (span : Nat) :
    Nat → Nat → List lane.Value → List lane.Value →
      Checked Unit (List lane.Value × List lane.Value)
  | 0, _, _, _ => leave ()
  | turns + 1, begin, first, second =>
      if begin < span then do
        let next ← sizeAdd begin plan.windowSize.toNat
        let stop := Nat.min span next
        let first ← blockForward plan input begin stop first
        let second ← blockBackward plan input begin stop second
        blockLoop plan input span turns next first second
      else pure (first, second)

/-- One output of `run_block_window`. -/
def blockValue (plan : Plan) (first second : List lane.Value) (index : Nat) :
    Checked ε lane.Value := do
  let left ← sizeMul index plan.stride.toNat
  let behind ← sizeAdd left plan.windowSize.toNat
  let right ← sizeSub behind 1
  let suffix ← fetch second left
  let reached ← fetch first right
  pure (combineWindow plan suffix reached)

/-- `run_block_window`; what it leaves in the scratch is not read again. -/
def runBlockWindow (plan : Plan) (scratch : RangeScratch lane) (input output : List lane.Value) :
    Checked Unit (Result × List lane.Value) :=
  let lastAnchor := (plan.outputCount - 1) * plan.stride
  let span := lastAnchor + plan.windowSize
  if checkedMul (plan.outputCount - 1) plan.stride = false ∨
      checkedAdd lastAnchor plan.windowSize = false ∨ scratch.first.length < span.toNat ∨
      scratch.second.length < span.toNat ∨ plan.op = .sum then pure ({}, output)
  else do
    let filled ←
      blockLoop plan input span.toNat (span.toNat + 1) 0 scratch.first scratch.second
    let output ← forRange plan.outputCount.toNat (fun index output => do
      let value ← blockValue plan filled.1 filled.2 index
      assign output index value) output
    pure ({ inputCount := plan.inputCount, outputCount := plan.outputCount, ok := true,
            reason := "ok" }, output)

/-- `RangePath`. -/
inductive RangePath where
  | direct
  | sharedHalo
  | prefixDifference
  | blockPrefixSuffix
  | tiledDifference
  deriving DecidableEq, Repr

/-- What `run_window` ends with. -/
inductive Status where
  | success
  | worksetOverflow
  | failed (reason : String)
  deriving DecidableEq, Repr

/-- `execute` in `run_window`. -/
def executeWindow (path : RangePath) (plan : Plan) (scratch : RangeScratch lane)
    (input output : List lane.Value) : Checked Unit (Result × List lane.Value) :=
  match path with
  | .prefixDifference => runPrefixWindow plan scratch input output
  | .blockPrefixSuffix => runBlockWindow plan scratch input output
  | .direct => referenceWindow plan (plan.domain == .fixed) input output
  | _ => pure ({}, output)

/-- The end of `run_window`, with the counts of the run in the plan. -/
def runPlan (path : RangePath) (plan : Plan) (scratch : RangeScratch lane)
    (input output : List lane.Value) : Checked Unit (Status × List lane.Value) :=
  if plan.inputCount = 0 then pure (.success, output)
  else do
    let ran ← executeWindow path plan scratch input output
    pure (if ran.1.ok then .success else .failed ran.1.reason, ran.2)

/-- `run_window`, for a range plan in order and ports that are bound; `controlled` is the count of
the job, when it is valid. -/
def runWindow (path : RangePath) (capacity : Plan) (controlled : Option UInt64)
    (scratch : RangeScratch lane) (input output : List lane.Value) :
    Checked Unit (Status × List lane.Value) :=
  if capacity.countSource = .descriptor then runPlan path capacity scratch input output
  else
    match controlled with
    | none => pure (.worksetOverflow, output)
    | some count =>
        if count > capacity.inputCount then pure (.worksetOverflow, output)
        else runPlan path (capacity.resident count) scratch input output

/-! ### The operations -/

namespace Lane

variable (lane)

theorem toInt_inj {left right : lane.Value} (h : lane.toInt left = lane.toInt right) :
    left = right := by
  cases lane with
  | i32 => exact BitVec.toInt_inj.mp h
  | u32 => exact BitVec.eq_of_toNat_eq (Int.ofNat.inj h)
  | i64 => exact BitVec.toInt_inj.mp h
  | u64 => exact BitVec.eq_of_toNat_eq (Int.ofNat.inj h)

theorem toInt_le_greatest (value : lane.Value) : lane.toInt value ≤ lane.toInt lane.greatest := by
  have hsigned : ∀ {w : Nat} (v : BitVec w), v.toInt ≤ (BitVec.intMax w).toInt := by
    intro w v
    rw [BitVec.toInt_intMax]
    exact BitVec.toInt_le
  have hunsigned : ∀ {w : Nat} (v : BitVec w), (v.toNat : Int) ≤ ((BitVec.allOnes w).toNat : Int) := by
    intro w v
    rw [BitVec.toNat_allOnes]
    have := v.isLt
    omega
  cases lane with
  | i32 => exact hsigned value
  | u32 => exact hunsigned value
  | i64 => exact hsigned value
  | u64 => exact hunsigned value

theorem lowest_le_toInt (value : lane.Value) : lane.toInt lane.lowest ≤ lane.toInt value := by
  cases lane with
  | i32 => exact BitVec.toInt_intMin_le value
  | u32 => exact Int.natCast_nonneg _
  | i64 => exact BitVec.toInt_intMin_le value
  | u64 => exact Int.natCast_nonneg _

theorem toInt_min (left right : lane.Value) :
    lane.toInt (lane.min left right) = Min.min (lane.toInt left) (lane.toInt right) := by
  rw [Lane.min, lt]
  split_ifs with h
  · rw [decide_eq_true_iff] at h
    omega
  · rw [decide_eq_true_iff] at h
    omega

theorem toInt_max (left right : lane.Value) :
    lane.toInt (lane.max left right) = Max.max (lane.toInt left) (lane.toInt right) := by
  rw [Lane.max, lt]
  split_ifs with h
  · rw [decide_eq_true_iff] at h
    omega
  · rw [decide_eq_true_iff] at h
    omega

theorem monoidal_min : Monoidal lane.min lane.greatest where
  assoc a b c := by
    apply lane.toInt_inj
    simp only [toInt_min]
    omega
  unit_op a := by
    apply lane.toInt_inj
    have := lane.toInt_le_greatest a
    rw [toInt_min]
    omega
  op_unit a := by
    apply lane.toInt_inj
    have := lane.toInt_le_greatest a
    rw [toInt_min]
    omega

theorem monoidal_max : Monoidal lane.max lane.lowest where
  assoc a b c := by
    apply lane.toInt_inj
    simp only [toInt_max]
    omega
  unit_op a := by
    apply lane.toInt_inj
    have := lane.lowest_le_toInt a
    rw [toInt_max]
    omega
  op_unit a := by
    apply lane.toInt_inj
    have := lane.lowest_le_toInt a
    rw [toInt_max]
    omega

theorem min_self (a : lane.Value) : lane.min a a = a := by
  rw [Lane.min]
  split_ifs <;> rfl

theorem max_self (a : lane.Value) : lane.max a a = a := by
  rw [Lane.max]
  split_ifs <;> rfl

end Lane

/-- Narrowing that wraps is the sum of the lane. -/
theorem narrow_wrap {left right : lane.Value} {overflow : UInt8} (h : overflow ≠ kSaturate) :
    narrow (lane.toInt left + lane.toInt right) overflow = left + right := by
  have hvalue : ∀ value : lane.Value, BitVec.ofInt lane.bits (lane.toInt value) = value := by
    intro value
    rw [Lane.toInt]
    split_ifs
    · exact BitVec.ofInt_toInt
    · rw [BitVec.ofInt_natCast, BitVec.ofNat_toNat, BitVec.setWidth_eq]
  rw [narrow, if_neg h, BitVec.ofInt_add, hvalue, hvalue]

/-- The operation of a window. -/
def combine (op : Op) : lane.Value → lane.Value → lane.Value :=
  match op with
  | .sum => (· + ·)
  | .min => lane.min
  | _ => lane.max

theorem monoidal_combine (op : Op) : Monoidal (@combine lane op) (identity op) := by
  cases op with
  | sum => exact monoidal_add
  | min => exact lane.monoidal_min
  | max => exact lane.monoidal_max
  | unknown value => exact lane.monoidal_max

/-- The sum of the plan wraps. -/
def Plan.Wraps (plan : Plan) : Prop := plan.op = .sum → plan.fixedFormat.overflow ≠ kSaturate

theorem addWindow_eq {plan : Plan} (h : plan.fixedFormat.overflow ≠ kSaturate)
    (left right : lane.Value) : addWindow plan left right = left + right := by
  rw [addWindow]
  split_ifs
  · exact narrow_wrap h
  · rfl

theorem accumulate_eq {plan : Plan} (h : plan.Wraps) (fixed : Bool) (value inputValue : lane.Value) :
    accumulate plan fixed value inputValue = combine plan.op value inputValue := by
  unfold accumulate combine
  cases hop : plan.op with
  | sum =>
      show (if fixed then _ else _) = _
      split_ifs
      · exact narrow_wrap (h hop)
      · rfl
  | min => rfl
  | max => rfl
  | unknown => rfl

/-! ### Slots and samples -/

/-- The items of the input. -/
def items (input : List lane.Value) (index : Nat) : lane.Value := input.getD index 0

theorem fetch_items {input : List lane.Value} {index : Nat} (h : index < input.length) :
    (fetch input index : Checked ε lane.Value) = Except.ok (items input index) := by
  have hget : input[index]? = some input[index] := List.getElem?_eq_getElem h
  rw [fetch_of_lt hget, items, List.getD_eq_getElem?_getD, hget]
  rfl

/-- What stands at a place outside the input. -/
def edge (plan : Plan) (input : List lane.Value) (index : Nat) : lane.Value :=
  if plan.boundary = .clamp then items input index else identity plan.op

/-- The input with what stands on its two sides; the places count from `padLeft` before it. -/
def samples (plan : Plan) (input : List lane.Value) : Nat → lane.Value :=
  padded (edge plan input 0) (edge plan input (plan.inputCount.toNat - 1)) plan.padLeft.toNat
    plan.inputCount.toNat (items input)

/-- **A slot is a place of the padded input**, and inactive only where the unit stands. -/
theorem sampleFor_eq {plan : Plan} (h : plan.Shaped) (input : List lane.Value) (anchor slot : Nat) :
    ∃ index active, (sampleFor plan anchor slot : Checked ε (Nat × Bool)) =
        Except.ok (index, active) ∧ index < plan.inputCount.toNat ∧
      samples plan input (anchor + slot) = if active then items input index else identity plan.op := by
  have hinputs := h.inputs
  have hlt := plan.inputCount.toNat_lt
  have hclamp : ∀ index, edge plan input index =
      if (plan.boundary == .clamp) = true then items input index else identity plan.op := by
    intro index
    rw [edge]
    simp only [beq_iff_eq]
  rw [sampleFor, samples, padded]
  by_cases hslot : slot < plan.padLeft.toNat
  · rw [if_pos hslot, sizeSub_eq (by omega), ok_bind]
    by_cases hbefore : anchor < plan.padLeft.toNat - slot
    · rw [if_pos hbefore, if_pos (by omega)]
      exact ⟨_, _, rfl, hinputs, hclamp 0⟩
    · rw [if_neg hbefore, if_neg (by omega), sizeSub_eq (by omega), ok_bind,
        show anchor + slot - plan.padLeft.toNat = anchor - (plan.padLeft.toNat - slot) by omega]
      by_cases hinside : anchor - (plan.padLeft.toNat - slot) < plan.inputCount.toNat
      · rw [if_pos hinside, if_pos hinside]
        exact ⟨_, _, rfl, hinside, rfl⟩
      · rw [if_neg hinside, if_neg hinside, sizeSub_eq (by omega), ok_bind]
        exact ⟨_, _, rfl, by omega, hclamp _⟩
  · rw [if_neg hslot, if_neg (by omega), sizeSub_eq (by omega), ok_bind]
    by_cases hanchor : anchor ≥ plan.inputCount.toNat
    · rw [if_pos hanchor, if_neg (by omega), sizeSub_eq (by omega), ok_bind]
      exact ⟨_, _, rfl, by omega, hclamp _⟩
    · rw [if_neg hanchor, sizeSub_eq (by omega), ok_bind]
      by_cases hroom : slot - plan.padLeft.toNat ≥ plan.inputCount.toNat - anchor
      · rw [if_pos hroom, if_neg (by omega), sizeSub_eq (by omega), ok_bind]
        exact ⟨_, _, rfl, by omega, hclamp _⟩
      · rw [if_neg hroom, if_pos (by omega), sizeAdd_eq (by omega), ok_bind,
          show anchor + slot - plan.padLeft.toNat = anchor + (slot - plan.padLeft.toNat) by omega]
        exact ⟨_, _, rfl, by omega, rfl⟩

/-- The value of one output. -/
def windowValue (plan : Plan) (input : List lane.Value) (index : Nat) : lane.Value :=
  stretch (combine plan.op) (identity plan.op) (samples plan input) (index * plan.stride.toNat)
    plan.windowSize.toNat

/-- The result of a run that wrote these values, and the output it leaves. -/
def written (plan : Plan) (input output : List lane.Value) : Result × List lane.Value :=
  ({ inputCount := plan.inputCount, outputCount := plan.outputCount, ok := true, reason := "ok" },
    (List.range plan.outputCount.toNat).map (windowValue plan input) ++
      output.drop plan.outputCount.toNat)

/-! ### The reference is a fold over the padded input -/

theorem referenceValue_eq {plan : Plan} (h : plan.Shaped) (hwraps : plan.Wraps) (fixed : Bool)
    {input : List lane.Value} (hinput : plan.inputCount.toNat ≤ input.length) (anchor : Nat) :
    (referenceValue plan fixed input anchor : Checked ε lane.Value) =
      Except.ok (stretch (combine plan.op) (identity plan.op) (samples plan input) anchor
        plan.windowSize.toNat) := by
  have hloop : ∀ slots, (forRange slots (fun slot value => do
      let sample ← sampleFor plan anchor slot
      if sample.2 = false then pure value
      else do
        let inputValue ← fetch input sample.1
        pure (accumulate plan fixed value inputValue)) (identity plan.op) :
          Checked ε lane.Value) =
      Except.ok (stretch (combine plan.op) (identity plan.op) (samples plan input) anchor slots) := by
    intro slots
    induction slots with
    | zero => rfl
    | succ slots ih =>
        obtain ⟨index, active, hsample, hindex, hvalue⟩ :=
          sampleFor_eq (ε := ε) h input anchor slots
        rw [forRange_succ, ih, ok_bind, hsample, ok_bind, stretch_succ, hvalue]
        cases active with
        | false =>
            rw [if_pos rfl, if_neg Bool.noConfusion, (monoidal_combine plan.op).op_unit]
            rfl
        | true =>
            dsimp only
            rw [if_neg Bool.noConfusion, fetch_items (by omega), ok_bind, accumulate_eq hwraps]
            rfl
  exact hloop _

/-- **What the reference writes.** -/
theorem referenceWindow_eq {plan : Plan} (h : plan.Shaped) (hwraps : plan.Wraps) (fixed : Bool)
    {input output : List lane.Value} (hinput : plan.inputCount.toNat ≤ input.length)
    (houtput : plan.outputCount.toNat ≤ output.length) :
    (referenceWindow plan fixed input output : Checked ε (Result × List lane.Value)) =
      Except.ok (written plan input output) := by
  have hok : ¬ plan.ok = false := by rw [h.accepted]; exact Bool.noConfusion
  have hcounts : ¬ (plan.inputCount = 0 ∧ plan.outputCount = 0) := by
    rintro ⟨hzero, -⟩
    have hinputs := h.inputs
    rw [hzero] at hinputs
    exact Nat.lt_irrefl 0 hinputs
  have hloop : ∀ n, n ≤ plan.outputCount.toNat →
      (forRange n (fun index (state : Nat × List lane.Value) => do
        let value ← referenceValue plan fixed input state.1
        let output ← assign state.2 index value
        if index + 1 ≠ plan.outputCount.toNat then do
          let anchor ← sizeAdd state.1 plan.stride.toNat
          pure (anchor, output)
        else pure (state.1, output)) (0, output) : Checked ε (Nat × List lane.Value)) =
      Except.ok (Nat.min n (plan.outputCount.toNat - 1) * plan.stride.toNat,
        (List.range n).map (windowValue plan input) ++ output.drop n) := by
    intro n hn
    induction n with
    | zero =>
        rw [show Nat.min 0 (plan.outputCount.toNat - 1) = 0 from Nat.zero_min _, Nat.zero_mul]
        rfl
    | succ n ih =>
        have hanchor : Nat.min n (plan.outputCount.toNat - 1) = n := Nat.min_eq_left (by omega)
        rw [forRange_succ, ih (by omega), ok_bind, hanchor, referenceValue_eq h hwraps fixed hinput,
          ok_bind]
        show (assign _ n (windowValue plan input n) >>= _) = _
        rw [assign_fill (by omega), ok_bind]
        by_cases hlast : n + 1 = plan.outputCount.toNat
        · rw [if_neg (by omega),
            show Nat.min (n + 1) (plan.outputCount.toNat - 1) = n from
              (Nat.min_eq_right (by omega)).trans (by omega)]
          rfl
        · have hfits : (n + 1) * plan.stride.toNat < 2 ^ 64 :=
            Nat.lt_of_le_of_lt (Nat.mul_le_mul_right _ (by omega)) h.anchor
          rw [Nat.add_mul, Nat.one_mul] at hfits
          rw [if_pos hlast, sizeAdd_eq hfits, ok_bind,
            show Nat.min (n + 1) (plan.outputCount.toNat - 1) = n + 1 from
              Nat.min_eq_left (by omega), Nat.add_mul, Nat.one_mul]
          rfl
  rw [referenceWindow, if_neg hok, if_neg hcounts, hloop _ (Nat.le_refl _), ok_bind]
  rfl

/-! ### The prefix path -/

/-- What the prefix loop has written after `n` places. -/
def Totals (input totals : List lane.Value) (n : Nat) : Prop :=
  ∀ index, index < n → totals[index]? = some (SlidingFold.total (items input) (index + 1))

theorem Totals.assign {input totals : List lane.Value} {n : Nat} (h : Totals input totals n)
    (hn : n < totals.length) :
    Totals input (totals.set n (SlidingFold.total (items input) (n + 1))) (n + 1) := by
  intro index hindex
  by_cases hlast : index = n
  · rw [hlast, List.getElem?_set_self hn]
  · rw [List.getElem?_set_ne (by omega)]
    exact h index (by omega)

/-- The prefix loop leaves the totals of the input. -/
theorem totalsLoop_eq {plan : Plan} (hplan : plan.fixedFormat.overflow ≠ kSaturate)
    {input totals : List lane.Value} (hinput : totals.length ≤ input.length) {n : Nat}
    (hn : n < totals.length) (h : Totals input totals 1) :
    ∃ totals', (forRange n (fun before totals => do
        let total ← fetch totals before
        let value ← fetch input (before + 1)
        assign totals (before + 1) (addWindow plan total value)) totals :
          Checked ε (List lane.Value)) = Except.ok totals' ∧
      totals'.length = totals.length ∧ Totals input totals' (n + 1) := by
  refine (forRange_returns (fun i totals' => totals'.length = totals.length ∧
    Totals input totals' (i + 1)) ⟨rfl, h⟩ ?_)
  rintro i totals' hi ⟨hlen, htotals⟩
  have hbefore := htotals i (Nat.lt_succ_self i)
  have hroom : i + 1 < totals'.length := by omega
  refine ⟨totals'.set (i + 1) (SlidingFold.total (items input) (i + 1 + 1)), ?_, ?_,
    htotals.assign hroom⟩
  · rw [fetch_of_lt hbefore, ok_bind, fetch_items (by omega), ok_bind, addWindow_eq hplan,
      ← total_succ]
    exact assign_of_lt hroom
  · rw [List.length_set, hlen]

theorem scaleWindow_eq (value : lane.Value) (count : Nat) : scaleWindow value count = count • value := by
  rw [scaleWindow, nsmul_eq_mul, BitVec.natCast_eq_ofNat, mul_comm]

theorem prefixRight_eq {plan : Plan} (h : plan.Shaped) (anchor : Nat) :
    (prefixRight plan anchor (plan.windowSize.toNat - plan.padLeft.toNat) : Checked ε Nat) =
      Except.ok (Nat.min (anchor + plan.windowSize.toNat - plan.padLeft.toNat)
        plan.inputCount.toNat - 1) := by
  have hinputs := h.inputs
  have hpadding := h.padding
  have hlt := plan.inputCount.toNat_lt
  have hmin : ∀ a b : Nat, Nat.min a b = min a b := fun _ _ => rfl
  rw [prefixRight, hmin]
  split_ifs with hanchor
  · rw [sizeSub_eq (by omega)]
    congr 1
    omega
  · rw [sizeSub_eq (by omega), ok_bind]
    split_ifs with hwidth
    · rw [sizeSub_eq (by omega)]
      congr 1
      omega
    · rw [sizeAdd_eq (by omega), ok_bind, sizeSub_eq (by omega)]
      congr 1
      omega

theorem prefixRightMissing_eq {plan : Plan} (h : plan.Shaped) {anchor : Nat}
    (hmeets : anchor < plan.padLeft.toNat + plan.inputCount.toNat) :
    (prefixRightMissing plan anchor (plan.windowSize.toNat - plan.padLeft.toNat) : Checked ε Nat) =
      Except.ok (anchor + plan.windowSize.toNat - plan.padLeft.toNat - plan.inputCount.toNat) := by
  have hpadding := h.padding
  have hlt := plan.windowSize.toNat_lt
  rw [prefixRightMissing]
  split_ifs with hanchor
  · rw [sizeSub_eq hanchor, ok_bind, sizeAdd_eq (by omega)]
    congr 1
    omega
  · rw [sizeSub_eq (by omega), ok_bind]
    split_ifs with hwidth
    · rw [sizeSub_eq (by omega)]
      congr 1
      omega
    · show Except.ok 0 = _
      congr 1
      omega

theorem prefixLeft_eq (plan : Plan) (anchor : Nat) :
    (prefixLeft plan anchor : Checked ε Nat) = Except.ok (anchor - plan.padLeft.toNat) := by
  rw [prefixLeft]
  split_ifs
  · show Except.ok 0 = _
    congr 1
    omega
  · exact sizeSub_eq (by omega)

theorem prefixLeftMissing_eq (plan : Plan) (anchor : Nat) :
    (prefixLeftMissing plan anchor : Checked ε Nat) = Except.ok (plan.padLeft.toNat - anchor) := by
  rw [prefixLeftMissing]
  split_ifs
  · exact sizeSub_eq (by omega)
  · show Except.ok 0 = _
    congr 1
    omega

theorem prefixDifference_eq {input totals : List lane.Value} {n left : Nat}
    (htotals : Totals input totals n) (hleft : left ≤ n) (value : lane.Value) :
    (prefixDifference totals left value : Checked ε lane.Value) =
      Except.ok (value - SlidingFold.total (items input) left) := by
  rw [prefixDifference]
  split_ifs with hzero
  · rw [sizeSub_eq (by omega), ok_bind, fetch_of_lt (htotals (left - 1) (by omega)), ok_bind,
      show left - 1 + 1 = left by omega]
    rfl
  · rw [not_not] at hzero
    rw [hzero, show SlidingFold.total (items input) 0 = (0 : lane.Value) from rfl, sub_zero]
    rfl

theorem addMissing_eq {plan : Plan} (hplan : plan.fixedFormat.overflow ≠ kSaturate)
    {input : List lane.Value} {place : Nat} (hplace : place < input.length) (missing : Nat)
    (value : lane.Value) :
    (addMissing plan input place missing value : Checked ε lane.Value) =
      Except.ok (value + missing • items input place) := by
  rw [addMissing]
  split_ifs with hzero
  · rw [fetch_items hplace, ok_bind, addWindow_eq hplan, scaleWindow_eq]
    rfl
  · rw [not_not] at hzero
    rw [hzero, zero_nsmul, add_zero]
    rfl

/-- **One output of the prefix path** is the fold over its window. -/
theorem prefixValue_eq {plan : Plan} (h : plan.Shaped) (hop : plan.op = .sum)
    (hplan : plan.fixedFormat.overflow ≠ kSaturate) {input totals : List lane.Value}
    (hinput : plan.inputCount.toNat ≤ input.length)
    (htotals : Totals input totals plan.inputCount.toNat) {index : Nat}
    (hindex : index < plan.outputCount.toNat) :
    (prefixValue plan input totals index : Checked ε lane.Value) =
      Except.ok (windowValue plan input index) := by
  have hinputs := h.inputs
  have hpadding := h.padding
  have hanchor : index * plan.stride.toNat ≤ (plan.outputCount.toNat - 1) * plan.stride.toNat :=
    Nat.mul_le_mul_right _ (by omega)
  have hmeets := Nat.lt_of_le_of_lt hanchor h.meets
  have hfits := Nat.lt_of_le_of_lt hanchor h.anchor
  rw [prefixValue, windowValue, sizeMul_eq hfits, ok_bind, hop]
  generalize index * plan.stride.toNat = anchor at hmeets
  have hsum : (stretch (combine Op.sum) (identity Op.sum) (samples plan input) anchor
      plan.windowSize.toNat : lane.Value) = _ :=
    stretch_padded (edge plan input 0) (edge plan input (plan.inputCount.toNat - 1))
      (items input) (show plan.padLeft.toNat ≤ anchor + plan.windowSize.toNat by omega)
      (show anchor ≤ plan.padLeft.toNat + plan.inputCount.toNat by omega)
  have hmin : ∀ a b : Nat, Nat.min a b = min a b := fun _ _ => rfl
  rw [hsum, prefixLeft_eq, ok_bind, sizeSub_eq (by omega), ok_bind, prefixRight_eq h, ok_bind, hmin,
    fetch_of_lt (htotals _ (by omega)), ok_bind, prefixDifference_eq htotals (by omega), ok_bind,
    show min (anchor + plan.windowSize.toNat - plan.padLeft.toNat) plan.inputCount.toNat - 1 + 1 =
      min (anchor + plan.windowSize.toNat - plan.padLeft.toNat) plan.inputCount.toNat by omega]
  by_cases hclamp : plan.boundary = .clamp
  · have hedge : ∀ place, (edge plan input place : lane.Value) = items input place :=
      fun place => if_pos hclamp
    rw [if_pos hclamp, prefixLeftMissing_eq, ok_bind, prefixRightMissing_eq h hmeets, ok_bind,
      addMissing_eq hplan (by omega), ok_bind, sizeSub_eq (by omega), ok_bind,
      addMissing_eq hplan (by omega), hedge, hedge]
  · have hedge : ∀ place, (edge plan input place : lane.Value) = 0 := by
      intro place
      rw [edge, if_neg hclamp, hop]
      rfl
    rw [if_neg hclamp, hedge, hedge, nsmul_zero, nsmul_zero, add_zero, add_zero]
    rfl

/-- **The prefix path.** -/
theorem runPrefixWindow_eq {plan : Plan} (h : plan.Shaped) (hop : plan.op = .sum)
    (hplan : plan.fixedFormat.overflow ≠ kSaturate) {scratch : RangeScratch lane}
    (hfirst : plan.inputCount.toNat ≤ scratch.first.length) (hsecond : scratch.second = [])
    {input output : List lane.Value} (hinput : plan.inputCount.toNat ≤ input.length)
    (houtput : plan.outputCount.toNat ≤ output.length) :
    (runPrefixWindow plan scratch input output : Checked ε (Result × List lane.Value)) =
      Except.ok (written plan input output) := by
  have hinputs := h.inputs
  have hguard : ¬ (scratch.first.length < plan.inputCount.toNat ∨ scratch.second ≠ [] ∨
      plan.op ≠ .sum ∨ plan.fixedFormat.overflow = kSaturate) := by
    rintro (hlt | hne | hne | hsat)
    · omega
    · exact hne hsecond
    · exact hne hop
    · exact hplan hsat
  have hspan : ((scratch.first.drop 0).take plan.inputCount.toNat).length =
      plan.inputCount.toNat := by
    rw [List.drop_zero, List.length_take]
    omega
  rw [runPrefixWindow, if_neg hguard, subspan_eq (by omega), ok_bind, fetch_items (by omega),
    ok_bind]
  generalize hspans : (scratch.first.drop 0).take plan.inputCount.toNat = totals at hspan
  have hstart : Totals input (totals.set 0 (items input 0)) 1 := by
    have hempty : Totals input totals 0 := fun index hindex => absurd hindex (Nat.not_lt_zero index)
    have hset := hempty.assign (by omega)
    rw [total_succ, show SlidingFold.total (items input) 0 = (0 : lane.Value) from rfl,
      zero_add] at hset
    exact hset
  have hlength : (totals.set 0 (items input 0)).length = plan.inputCount.toNat := by
    rw [List.length_set, hspan]
  obtain ⟨totals', hloop, hlen, htotals⟩ := totalsLoop_eq (ε := ε) hplan
    (show (totals.set 0 (items input 0)).length ≤ input.length by omega)
    (show plan.inputCount.toNat - 1 < (totals.set 0 (items input 0)).length by omega) hstart
  rw [show plan.inputCount.toNat - 1 + 1 = plan.inputCount.toNat by omega] at htotals
  have houtputs : (forRange plan.outputCount.toNat (fun index output => do
      let value ← prefixValue plan input totals' index
      assign output index value) output : Checked ε (List lane.Value)) =
      Except.ok ((List.range plan.outputCount.toNat).map (windowValue plan input) ++
        output.drop plan.outputCount.toNat) := by
    apply forRange_fill houtput
    intro index xs hindex _
    rw [prefixValue_eq h hop hplan hinput htotals hindex, ok_bind]
  rw [assign_of_lt (by omega), ok_bind, sizeSub_eq (by omega), ok_bind, hloop, ok_bind, houtputs,
    ok_bind]
  rfl

/-! ### The block path -/

/-- A minimum or a maximum. -/
def Extremal (plan : Plan) : Prop := plan.op = .min ∨ plan.op = .max

theorem combine_self {plan : Plan} (h : Extremal plan) (a : lane.Value) :
    combine plan.op a a = a := by
  rcases h with hop | hop
  · rw [hop]
    exact lane.min_self a
  · rw [hop]
    exact lane.max_self a

theorem combineWindow_eq {plan : Plan} (h : Extremal plan) (left right : lane.Value) :
    combineWindow plan left right = combine plan.op left right := by
  unfold combineWindow
  rcases h with hop | hop
  · rw [hop]
    rfl
  · rw [hop]
    rfl

theorem windowIdentity_eq {plan : Plan} (h : Extremal plan) :
    (windowIdentity plan : lane.Value) = identity plan.op := by
  unfold windowIdentity
  rcases h with hop | hop
  · rw [hop]
    rfl
  · rw [hop]
    rfl

theorem blockSample_eq {plan : Plan} (h : plan.Shaped) (hop : Extremal plan)
    {input : List lane.Value} (hinput : plan.inputCount.toNat ≤ input.length) (position : Nat) :
    (blockSample plan input position : Checked ε lane.Value) =
      Except.ok (samples plan input position) := by
  have hinputs := h.inputs
  have hedge : ∀ place, place < input.length →
      (if plan.boundary = .clamp then fetch input place else pure (windowIdentity plan) :
        Checked ε lane.Value) = Except.ok (edge plan input place) := by
    intro place hplace
    rw [edge, windowIdentity_eq hop]
    split_ifs
    · exact fetch_items hplace
    · rfl
  rw [blockSample, samples, padded]
  by_cases hleft : position < plan.padLeft.toNat
  · rw [if_pos hleft, if_pos hleft]
    exact hedge 0 (by omega)
  · rw [if_neg hleft, if_neg hleft, sizeSub_eq (by omega), ok_bind]
    by_cases hinside : position - plan.padLeft.toNat < plan.inputCount.toNat
    · rw [if_pos hinside, if_pos hinside]
      exact fetch_items (by omega)
    · rw [if_neg hinside, if_neg hinside, sizeSub_eq (by omega)]
      exact hedge _ (by omega)

/-- The fold over a stretch of the padded input. -/
def fold (plan : Plan) (input : List lane.Value) (start length : Nat) : lane.Value :=
  stretch (combine plan.op) (identity plan.op) (samples plan input) start length

/-- A block from its beginning: every place holds the fold up to it. -/
theorem blockForward_eq {plan : Plan} (h : plan.Shaped) (hop : Extremal plan)
    {input : List lane.Value} (hinput : plan.inputCount.toNat ≤ input.length) {begin stop : Nat}
    (hbegin : begin ≤ stop) {first : List lane.Value} (hfirst : stop ≤ first.length) :
    ∃ first', (blockForward plan input begin stop first : Checked ε (List lane.Value)) =
        Except.ok first' ∧ first'.length = first.length ∧
      (∀ place, place < begin → first'[place]? = first[place]?) ∧
      ∀ place, begin ≤ place → place < stop →
        first'[place]? = some (fold plan input begin (place + 1 - begin)) := by
  obtain ⟨first', hloop, hlen, hbefore, hblock⟩ := forRange_returns (ε := ε)
    (n := stop - begin) (s := first)
    (fun turn (first' : List lane.Value) => first'.length = first.length ∧
      (∀ place, place < begin → first'[place]? = first[place]?) ∧
      ∀ place, begin ≤ place → place < begin + turn →
        first'[place]? = some (fold plan input begin (place + 1 - begin)))
    (f := fun turn first => do
      let value ← blockSample plan input (begin + turn)
      if turn = 0 then assign first (begin + turn) value
      else do
        let place ← sizeSub (begin + turn) 1
        let before ← fetch first place
        assign first (begin + turn) (combineWindow plan before value))
    ⟨rfl, fun _ _ => rfl, fun place _ _ => by omega⟩ (by
      rintro turn first' hturn ⟨hlen, hbefore, hblock⟩
      have hroom : begin + turn < first'.length := by omega
      refine ⟨first'.set (begin + turn) (fold plan input begin (turn + 1)), ?_, ?_, ?_, ?_⟩
      · rw [blockSample_eq h hop hinput, ok_bind]
        by_cases hzero : turn = 0
        · rw [if_pos hzero, hzero, fold, (monoidal_combine plan.op).stretch_one]
          exact assign_of_lt (by omega)
        · have hlast := hblock (begin + turn - 1) (by omega) (by omega)
          rw [show begin + turn - 1 + 1 - begin = turn by omega] at hlast
          rw [if_neg hzero, sizeSub_eq (by omega), ok_bind, fetch_of_lt hlast, ok_bind,
            combineWindow_eq hop]
          exact assign_of_lt hroom
      · rw [List.length_set, hlen]
      · intro place hplace
        rw [List.getElem?_set_ne (by omega)]
        exact hbefore place hplace
      · intro place hge hlt
        by_cases hlast : place = begin + turn
        · rw [hlast, List.getElem?_set_self hroom, show begin + turn + 1 - begin = turn + 1 by omega]
        · rw [List.getElem?_set_ne (by omega)]
          exact hblock place hge (by omega))
  refine ⟨first', hloop, hlen, hbefore, fun place hge hlt => hblock place hge (by omega)⟩

/-- A block from its end: every place holds the fold from it on. -/
theorem blockBackward_eq {plan : Plan} (h : plan.Shaped) (hop : Extremal plan)
    {input : List lane.Value} (hinput : plan.inputCount.toNat ≤ input.length) {begin stop : Nat}
    (hbegin : begin ≤ stop) {second : List lane.Value} (hsecond : stop ≤ second.length) :
    ∃ second', (blockBackward plan input begin stop second : Checked ε (List lane.Value)) =
        Except.ok second' ∧ second'.length = second.length ∧
      (∀ place, place < begin → second'[place]? = second[place]?) ∧
      ∀ place, begin ≤ place → place < stop →
        second'[place]? = some (fold plan input place (stop - place)) := by
  obtain ⟨second', hloop, hlen, hbefore, hblock⟩ := forRange_returns (ε := ε)
    (n := stop - begin) (s := second)
    (fun turn (second' : List lane.Value) => second'.length = second.length ∧
      (∀ place, place < begin → second'[place]? = second[place]?) ∧
      ∀ place, stop - turn ≤ place → place < stop →
        second'[place]? = some (fold plan input place (stop - place)))
    (f := fun turn second => do
      let index ← sizeSub (stop - turn) 1
      let value ← blockSample plan input index
      if index + 1 = stop then assign second index value
      else do
        let behind ← fetch second (index + 1)
        assign second index (combineWindow plan value behind))
    ⟨rfl, fun _ _ => rfl, fun place _ _ => by omega⟩ (by
      rintro turn second' hturn ⟨hlen, hbefore, hblock⟩
      have hroom : stop - turn - 1 < second'.length := by omega
      refine ⟨second'.set (stop - turn - 1) (fold plan input (stop - turn - 1) (turn + 1)),
        ?_, ?_, ?_, ?_⟩
      · rw [sizeSub_eq (by omega), ok_bind, blockSample_eq h hop hinput, ok_bind]
        by_cases hzero : turn = 0
        · rw [if_pos (by omega), hzero, fold, (monoidal_combine plan.op).stretch_one]
          exact assign_of_lt (by omega)
        · have hlast := hblock (stop - turn - 1 + 1) (by omega) (by omega)
          rw [show stop - (stop - turn - 1 + 1) = turn by omega] at hlast
          rw [if_neg (by omega), fetch_of_lt hlast, ok_bind, combineWindow_eq hop, fold, fold,
            (monoidal_combine plan.op).stretch_cons]
          exact assign_of_lt hroom
      · rw [List.length_set, hlen]
      · intro place hplace
        rw [List.getElem?_set_ne (by omega)]
        exact hbefore place hplace
      · intro place hge hlt
        by_cases hlast : place = stop - turn - 1
        · rw [hlast, List.getElem?_set_self hroom,
            show stop - (stop - turn - 1) = turn + 1 by omega]
        · rw [List.getElem?_set_ne (by omega)]
          exact hblock place (by omega) hlt)
  refine ⟨second', hloop, hlen, hbefore, fun place hge hlt => hblock place (by omega) hlt⟩

/-- The blocks before `bound` are filled: `first` holds the folds up to a place of its block, and
`second` those from a place on. -/
structure Filled (plan : Plan) (input : List lane.Value) (span bound : Nat)
    (first second : List lane.Value) : Prop where
  first : ∀ place, place < bound → place < span → first[place]? =
    some (fold plan input (place / plan.windowSize.toNat * plan.windowSize.toNat)
      (place + 1 - place / plan.windowSize.toNat * plan.windowSize.toNat))
  second : ∀ place, place < bound → place < span → second[place]? =
    some (fold plan input place
      (min span (place / plan.windowSize.toNat * plan.windowSize.toNat + plan.windowSize.toNat) -
        place))

/-- **The loop over the blocks fills the span**, when it is given enough turns. -/
theorem blockLoop_eq {plan : Plan} (h : plan.Shaped) (hop : Extremal plan)
    {input : List lane.Value} (hinput : plan.inputCount.toNat ≤ input.length) {span : Nat}
    (hfits : span + plan.windowSize.toNat < 2 ^ 64) (turns : Nat) {block : Nat}
    {first second : List lane.Value} (hturns : span - block * plan.windowSize.toNat < turns)
    (hfirst : span ≤ first.length) (hsecond : span ≤ second.length)
    (hfilled : Filled plan input span (block * plan.windowSize.toNat) first second) :
    ∃ first' second', blockLoop plan input span turns (block * plan.windowSize.toNat) first second =
        Except.ok (first', second') ∧ Filled plan input span span first' second' := by
  have hwindow : 0 < plan.windowSize.toNat := Nat.lt_of_le_of_lt (Nat.zero_le _) h.padding
  have hdone : ∀ {first second : List lane.Value} {begin : Nat}, ¬ begin < span →
      Filled plan input span begin first second → Filled plan input span span first second :=
    fun hbegin hfilled => ⟨fun place hlt _ => hfilled.first place (by omega) hlt,
      fun place hlt _ => hfilled.second place (by omega) hlt⟩
  induction turns generalizing block first second with
  | zero => exact absurd hturns (Nat.not_lt_zero _)
  | succ turns ih =>
      rw [blockLoop]
      by_cases hbegin : block * plan.windowSize.toNat < span
      · have hmin : ∀ a b : Nat, Nat.min a b = min a b := fun _ _ => rfl
        rw [if_pos hbegin, sizeAdd_eq (by omega), ok_bind]
        dsimp only
        rw [hmin]
        have hnext : (block + 1) * plan.windowSize.toNat =
            block * plan.windowSize.toNat + plan.windowSize.toNat := by
          rw [Nat.add_mul, Nat.one_mul]
        obtain ⟨first', hforward, hlen1, hbefore1, hblock1⟩ := blockForward_eq (ε := Unit) h hop
          hinput (show block * plan.windowSize.toNat ≤
            min span (block * plan.windowSize.toNat + plan.windowSize.toNat) by omega)
          (show min span (block * plan.windowSize.toNat + plan.windowSize.toNat) ≤ first.length
            by omega)
        obtain ⟨second', hbackward, hlen2, hbefore2, hblock2⟩ := blockBackward_eq (ε := Unit) h hop
          hinput (show block * plan.windowSize.toNat ≤
            min span (block * plan.windowSize.toNat + plan.windowSize.toNat) by omega)
          (show min span (block * plan.windowSize.toNat + plan.windowSize.toNat) ≤ second.length
            by omega)
        rw [hforward, ok_bind, hbackward, ok_bind, ← hnext]
        rw [← hnext] at hblock1 hblock2
        -- a place of this block, or one that was filled before
        have hdiv : ∀ place, block * plan.windowSize.toNat ≤ place →
            place < (block + 1) * plan.windowSize.toNat → place / plan.windowSize.toNat = block := by
          intro place hge hlt
          rw [Nat.div_eq_iff hwindow]
          omega
        apply ih (by omega) (by omega) (by omega)
        constructor
        · intro place hlt hspan
          by_cases hold : place < block * plan.windowSize.toNat
          · rw [hbefore1 place hold]
            exact hfilled.first place hold hspan
          · rw [hdiv place (by omega) hlt]
            exact hblock1 place (by omega) (by omega)
        · intro place hlt hspan
          by_cases hold : place < block * plan.windowSize.toNat
          · rw [hbefore2 place hold]
            exact hfilled.second place hold hspan
          · rw [hdiv place (by omega) hlt, ← hnext]
            exact hblock2 place (by omega) (by omega)
      · rw [if_neg hbegin]
        exact ⟨first, second, rfl, hdone hbegin hfilled⟩

/-- The places that the windows of a plan reach, padding included. -/
def Plan.span (plan : Plan) : Nat :=
  (plan.outputCount.toNat - 1) * plan.stride.toNat + plan.windowSize.toNat

/-- **One output of the block path** is the fold over its window. -/
theorem blockValue_eq {plan : Plan} (h : plan.Shaped) (hop : Extremal plan)
    (hspan : plan.span < 2 ^ 64) {input first second : List lane.Value}
    (hfilled : Filled plan input plan.span plan.span first second) {index : Nat}
    (hindex : index < plan.outputCount.toNat) :
    (blockValue plan first second index : Checked ε lane.Value) =
      Except.ok (windowValue plan input index) := by
  have hwindow : 0 < plan.windowSize.toNat := Nat.lt_of_le_of_lt (Nat.zero_le _) h.padding
  have hanchor : index * plan.stride.toNat ≤ (plan.outputCount.toNat - 1) * plan.stride.toNat :=
    Nat.mul_le_mul_right _ (by omega)
  have hreach : index * plan.stride.toNat + plan.windowSize.toNat ≤ plan.span := by
    rw [Plan.span]
    omega
  rw [blockValue, windowValue, sizeMul_eq (by omega), ok_bind, sizeAdd_eq (by omega), ok_bind,
    sizeSub_eq (by omega), ok_bind]
  generalize index * plan.stride.toNat = left at hreach
  rw [fetch_of_lt (hfilled.second left (by omega) (by omega)), ok_bind,
    fetch_of_lt (hfilled.first (left + plan.windowSize.toNat - 1) (by omega) (by omega)), ok_bind,
    combineWindow_eq hop]
  show Except.ok _ = _
  congr 1
  exact (monoidal_combine plan.op).stretch_blocks (combine_self hop) (by omega) hwindow (by omega)

/-- **The block path.** -/
theorem runBlockWindow_eq {plan : Plan} (h : plan.Shaped) (hop : Extremal plan)
    {scratch : RangeScratch lane} (hfirst : plan.span ≤ scratch.first.length)
    (hsecond : plan.span ≤ scratch.second.length) {input output : List lane.Value}
    (hinput : plan.inputCount.toNat ≤ input.length)
    (houtput : plan.outputCount.toNat ≤ output.length) :
    runBlockWindow plan scratch input output = Except.ok (written plan input output) := by
  have hwindow : plan.windowSize.toNat ≤ plan.span := Nat.le_add_left _ _
  have haddressable := scratch.addressable.1
  have hpred : (plan.outputCount - 1).toNat = plan.outputCount.toNat - 1 := by
    rw [UInt64.toNat_sub_of_le]
    · rfl
    · rw [UInt64.le_iff_toNat_le]
      exact h.outputs
  have hmul : ((plan.outputCount - 1) * plan.stride).toNat =
      (plan.outputCount.toNat - 1) * plan.stride.toNat := by
    rw [toNat_mul_of_fits (by rw [hpred]; exact h.anchor), hpred]
  have hadd : ((plan.outputCount - 1) * plan.stride + plan.windowSize).toNat = plan.span := by
    rw [toNat_add_of_fits (by rw [hmul]; show plan.span < _; omega), hmul]
    rfl
  have hguard : ¬ (checkedMul (plan.outputCount - 1) plan.stride = false ∨
      checkedAdd ((plan.outputCount - 1) * plan.stride) plan.windowSize = false ∨
      scratch.first.length < plan.span ∨ scratch.second.length < plan.span ∨ plan.op = .sum) := by
    rintro (hm | ha | hlt | hlt | hsum)
    · rw [checkedMul_iff.mpr (by rw [hpred]; exact h.anchor)] at hm
      cases hm
    · rw [checkedAdd_iff.mpr (by rw [hmul]; show plan.span < _; omega)] at ha
      cases ha
    · omega
    · omega
    · rcases hop with hop | hop
      · rw [hop] at hsum
        cases hsum
      · rw [hop] at hsum
        cases hsum
  obtain ⟨first', second', hloop, hfilled⟩ := blockLoop_eq h hop hinput
    (show plan.span + plan.windowSize.toNat < 2 ^ 64 by omega) (plan.span + 1) 
    (show plan.span - 0 * plan.windowSize.toNat < plan.span + 1 by omega) hfirst hsecond
    ⟨fun place hlt _ => by omega, fun place hlt _ => by omega⟩
  rw [Nat.zero_mul] at hloop
  have houtputs : (forRange plan.outputCount.toNat (fun index output => do
      let value ← blockValue plan first' second' index
      assign output index value) output : Checked Unit (List lane.Value)) =
      Except.ok ((List.range plan.outputCount.toNat).map (windowValue plan input) ++
        output.drop plan.outputCount.toNat) := by
    apply forRange_fill houtput
    intro index xs hindex _
    rw [blockValue_eq h hop (by omega) hfilled hindex, ok_bind]
  rw [runBlockWindow]
  show (if checkedMul _ _ = false ∨ checkedAdd _ _ = false ∨ _ < UInt64.toNat _ ∨
    _ < UInt64.toNat _ ∨ plan.op = .sum then _ else _) = _
  rw [hadd, if_neg hguard, hloop, ok_bind]
  show (forRange plan.outputCount.toNat (fun index output => do
      let value ← blockValue plan first' second' index
      assign output index value) output >>= _) = _
  rw [houtputs, ok_bind]
  rfl

/-! ### The paths and the reference -/

/-- A scratch of the size that was planned for a path. -/
def PlannedScratch (path : RangePath) (capacity : Plan) (scratch : RangeScratch lane) : Prop :=
  match path with
  | .prefixDifference =>
      capacity.inputCount.toNat ≤ scratch.first.length ∧ scratch.second = []
  | .blockPrefixSuffix =>
      capacity.span ≤ scratch.first.length ∧ capacity.span ≤ scratch.second.length
  | _ => True

/-- The operations that a fast path is for. -/
def PathFor (path : RangePath) (plan : Plan) : Prop :=
  path = .prefixDifference ∧ plan.op = .sum ∧ plan.fixedFormat.overflow ≠ kSaturate ∨
    path = .blockPrefixSuffix ∧ Extremal plan

theorem span_le_of_runs {desc : Desc} {plan : Plan} (h : (planWindow desc).ok = true)
    (hruns : Runs (planWindow desc) plan) (hinputs : plan.inputCount ≠ 0) :
    plan.span ≤ (planWindow desc).span := by
  obtain ⟨-, hwindow, hstride, -⟩ := op_of_runs hruns
  have hcount := outputCount_le_of_runs h hruns hinputs
  rw [Plan.span, Plan.span, hwindow, hstride]
  exact Nat.add_le_add_right (Nat.mul_le_mul_right _ (by omega)) _

/-- **A fast path leaves what the reference leaves**, for every plan that is run. -/
theorem executeWindow_eq {desc : Desc} {plan : Plan} (h : (planWindow desc).ok = true)
    (hruns : Runs (planWindow desc) plan) (hinputs : plan.inputCount ≠ 0) {path : RangePath}
    (hpath : PathFor path plan) {scratch : RangeScratch lane}
    (hscratch : PlannedScratch path (planWindow desc) scratch) {input output : List lane.Value}
    (hinput : plan.inputCount.toNat ≤ input.length)
    (houtput : plan.outputCount.toNat ≤ output.length) :
    executeWindow path plan scratch input output = Except.ok (written plan input output) ∧
      (referenceWindow plan (plan.domain == .fixed) input output :
        Checked Unit (Result × List lane.Value)) = Except.ok (written plan input output) := by
  have hshaped := shaped_of_runs h hruns hinputs
  rcases hpath with ⟨rfl, hop, hwrap⟩ | ⟨rfl, hop⟩
  · constructor
    · have hcount : plan.inputCount.toNat ≤ (planWindow desc).inputCount.toNat := by
        rcases hruns with ⟨-, rfl⟩ | ⟨-, count, hcount, rfl⟩
        · exact Nat.le_refl _
        · exact UInt64.le_iff_toNat_le.mp hcount
      exact runPrefixWindow_eq hshaped hop hwrap (Nat.le_trans hcount hscratch.1) hscratch.2 hinput
        houtput
    · exact referenceWindow_eq hshaped (fun _ => hwrap) _ hinput houtput
  · constructor
    · have hspan := span_le_of_runs h hruns hinputs
      exact runBlockWindow_eq hshaped hop (Nat.le_trans hspan hscratch.1)
        (Nat.le_trans hspan hscratch.2) hinput houtput
    · refine referenceWindow_eq hshaped (fun hsum => ?_) _ hinput houtput
      rcases hop with hop | hop
      · rw [hop] at hsum
        cases hsum
      · rw [hop] at hsum
        cases hsum

/-- A plan that runs over no input writes nothing. -/
theorem outputCount_zero {desc : Desc} {plan : Plan} (h : (planWindow desc).ok = true)
    (hruns : Runs (planWindow desc) plan) (hinputs : plan.inputCount = 0) :
    plan.outputCount = 0 ∧ plan.ok = true := by
  have hplanned := planned_of_ok rfl h
  rcases hruns with ⟨-, rfl⟩ | ⟨-, count, -, rfl⟩
  · rcases hplanned.counts with ⟨-, -, hzero⟩ | ⟨hin, -, -, hsame, -⟩
    · exact ⟨hzero, h⟩
    · exact absurd (hsame ▸ hinputs) hin
  · exact ⟨hinputs, h⟩

/-- **The fast paths of a window are the reference.**  Over every plan that `run_window` may run,
with a scratch of the planned size, they stay inside their arrays, succeed, and write what the
reference writes. -/
theorem windowPaths_eq_reference {desc : Desc} (h : (planWindow desc).ok = true) {plan : Plan}
    (hruns : Runs (planWindow desc) plan) {path : RangePath} (hpath : PathFor path plan)
    {controlled : Option UInt64}
    (hcontrolled : (planWindow desc).countSource ≠ .descriptor → controlled = some plan.inputCount)
    {scratch : RangeScratch lane} (hscratch : PlannedScratch path (planWindow desc) scratch)
    {input output : List lane.Value} (hinput : plan.inputCount.toNat ≤ input.length)
    (houtput : plan.outputCount.toNat ≤ output.length) :
    ∃ result reference,
      runWindow path (planWindow desc) controlled scratch input output =
        Except.ok (.success, result) ∧
      (referenceWindow plan (plan.domain == .fixed) input output :
        Checked Unit (Result × List lane.Value)) = Except.ok (reference, result) ∧
      reference.ok = true ∧
      (plan.inputCount ≠ 0 → executeWindow path plan scratch input output =
        Except.ok (reference, result)) := by
  have hrun : runWindow path (planWindow desc) controlled scratch input output =
      runPlan path plan scratch input output := by
    unfold runWindow
    rcases hruns with ⟨hsource, rfl⟩ | ⟨hsource, count, hcount, rfl⟩
    · exact if_pos hsource
    · have hsome : controlled = some count := hcontrolled hsource
      have hbound : ¬ count > (planWindow desc).inputCount := by
        rw [gt_iff_lt, UInt64.not_lt]
        exact hcount
      rw [if_neg hsource, hsome]
      exact if_neg hbound
  by_cases hinputs : plan.inputCount = 0
  · obtain ⟨houtputs, hok⟩ := outputCount_zero h hruns hinputs
    refine ⟨output, { ok := true, reason := "ok" }, ?_, ?_, rfl, fun hne => absurd hinputs hne⟩
    · rw [hrun, runPlan, if_pos hinputs]
      rfl
    · rw [referenceWindow, if_neg (by rw [hok]; exact Bool.noConfusion),
        if_pos ⟨hinputs, houtputs⟩]
      rfl
  · obtain ⟨hpathRun, hreference⟩ := executeWindow_eq h hruns hinputs hpath hscratch hinput houtput
    refine ⟨(written plan input output).2, (written plan input output).1, ?_, hreference, rfl,
      fun _ => hpathRun⟩
    rw [hrun, runPlan, if_neg hinputs, hpathRun, ok_bind]
    rfl

/-- A sum over three places of which the last window reaches beyond the input, by the prefix path. -/
theorem windowPaths_eq_reference_sum :
    ∃ result reference,
      runWindow .prefixDifference
          (planWindow { inputCount := 3, outputCount := 3, windowSize := 3, padLeft := 1 }) none
          (⟨[0, 0, 0], [], by decide⟩ : RangeScratch .u32) [5, 6, 7] [0, 0, 0] =
        Except.ok (.success, result) ∧
      (referenceWindow
          (planWindow { inputCount := 3, outputCount := 3, windowSize := 3, padLeft := 1 })
          (ComputeDomain.u32 == .fixed) [5, 6, 7] [0, 0, 0] :
        Checked Unit (Result × List (Lane.Value .u32))) = Except.ok (reference, result) ∧
      reference.ok = true ∧
      ((3 : UInt64) ≠ 0 → executeWindow .prefixDifference
          (planWindow { inputCount := 3, outputCount := 3, windowSize := 3, padLeft := 1 })
          (⟨[0, 0, 0], [], by decide⟩ : RangeScratch .u32) [5, 6, 7] [0, 0, 0] =
        Except.ok (reference, result)) :=
  @windowPaths_eq_reference .u32
    { inputCount := 3, outputCount := 3, windowSize := 3, padLeft := 1 } (by decide) _
    (Or.inl ⟨by decide, rfl⟩) .prefixDifference (Or.inl ⟨rfl, by decide, by decide⟩) none
    (fun hne => absurd (by decide) hne) ⟨[0, 0, 0], [], by decide⟩ ⟨by decide, rfl⟩ [5, 6, 7]
    [0, 0, 0] (by decide) (by decide)

end Window

end RunD
