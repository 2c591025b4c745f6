/-
Runs of range plans for counts that are known only when they start.

A plan of a resident-counted shape is frozen for the greatest count; a run
projects a smaller count into its stages, and the stages with nothing to do
get no groups.  What a projection has to give is stated by `Projects`: the
active stages are those of the same candidate for a shape of that count.
-/
import RunD.RangeCounted

namespace RunD.Range

/-! ### Parameters of a stage -/

/-- `RangeParams`. -/
structure RangeParams where
  inputCount : UInt64
  outputCount : UInt64
  windowSize : UInt64
  stride : UInt64
  padding : UInt64
  stageElementCount : UInt64
  stageAuxCount : UInt64
  stage : RangeStageKind
  deriving DecidableEq, Repr

/-- `RangeDispatch`. -/
structure RangeDispatch where
  params : RangeParams
  groups : UInt64
  width : UInt32
  deriving DecidableEq, Repr

namespace RangePlan

/-- The parameters of a stage of a plan. -/
def params (plan : RangePlan) (stage : RangeStagePlan) : RangeParams :=
  { inputCount := plan.shape.inputCount
    outputCount := plan.shape.outputCount
    windowSize := plan.shape.windowSize
    stride := plan.shape.stride
    padding := plan.shape.padding
    stageElementCount := stage.elementCount
    stageAuxCount :=
      if stage.disposition = .blockPrefixSuffix then
        checkedCeil stage.elementCount plan.shape.windowSize
      else stage.groups
    stage := stage.disposition }

/-- `RangeParams::from`. -/
def paramsFrom (plan : RangePlan) (index : Nat) : Option RangeParams :=
  if index ≥ plan.stageCount then none else (plan.stage index).map plan.params

end RangePlan

/-! ### Runs -/

/-- `RangeRun`. -/
structure RangeRun where
  plan : RangePlan
  count : UInt64
  deriving DecidableEq, Repr

namespace RangeRun

/-- `make`. -/
def make (plan : RangePlan) (count : UInt64) : Option RangeRun :=
  if count > plan.shape.inputCount ∨
      (plan.shape.residentCounted = false ∧ count ≠ plan.shape.inputCount) then none
  else some { plan, count }

/-- `Groups`, whose width is a 32-bit word. -/
def groups (count : UInt64) (width : UInt32) : UInt64 :=
  if count = 0 then 0
  else if width = 0 then 1
  else count / width.toUInt64 + (if count % width.toUInt64 ≠ 0 then 1 else 0)

/-- The loop of `PrefixCount`. -/
def prefixCountFrom (width : UInt32) : Nat → UInt64 → UInt64
  | 0, value => value
  | turns + 1, value =>
      if value = 0 then value else prefixCountFrom width turns (groups value width)

/-- `PrefixCount`. -/
def prefixCount (run : RangeRun) (level : UInt8) : UInt64 :=
  prefixCountFrom run.plan.candidate.width level.toNat run.count

/-- `ActiveSpan`; nothing when its assertion fails. -/
def activeSpan (run : RangeRun) : Option UInt64 :=
  if run.count = 0 then some 0
  else if checkedAdd (run.count - 1) run.plan.shape.windowSize then
    some (run.count - 1 + run.plan.shape.windowSize)
  else none

/-- The blocks of some elements.  The window is narrowed to the width of `Groups`. -/
def blocks (run : RangeRun) (elements : UInt64) : UInt64 :=
  groups elements run.plan.shape.windowSize.toUInt32

/-- The elements and the groups of a stage, as the switch of `stage` counts them. -/
def measure (run : RangeRun) (frozen : RangeStagePlan) : Option (UInt64 × UInt64) :=
  match frozen.disposition with
  | .tiledDifference =>
      some (run.count, groups run.count (frozen.width * kRangeTileOutputsPerLane))
  | .direct | .sharedHalo | .prefixWindow => some (run.count, groups run.count frozen.width)
  | .blockWindow =>
      some (run.count, rangeBlockQueryGroups run.plan.sourceVariant run.count
        run.plan.shape.stride run.plan.shape.windowSize frozen.width)
  | .prefixSequential => some (run.count, if run.count = 0 then 0 else 1)
  | .prefixBlock | .prefixSummary =>
      some (run.prefixCount frozen.level,
        if frozen.level ≠ 0 ∧ run.prefixCount (frozen.level - 1) ≤ frozen.width.toUInt64 then 0
        else groups (run.prefixCount frozen.level) frozen.width)
  | .prefixFixup =>
      some (run.prefixCount frozen.level,
        if groups (run.prefixCount frozen.level) frozen.width ≤ 1 then 0
        else groups (run.prefixCount frozen.level) frozen.width)
  | .blockPrefixSuffix => do
      let elements ← run.activeSpan
      some (elements, rangeBlockGroups run.plan.sourceVariant (run.blocks elements) frozen.width)

/-- A stage with the elements and the groups that were counted. -/
def dispatchOf (run : RangeRun) (frozen : RangeStagePlan) (counted : UInt64 × UInt64) :
    RangeDispatch :=
  { params :=
      { inputCount := run.count
        outputCount := run.count
        windowSize := run.plan.shape.windowSize
        stride := run.plan.shape.stride
        padding := run.plan.shape.padding
        stageElementCount := counted.1
        stageAuxCount :=
          if frozen.disposition = .blockPrefixSuffix then run.blocks counted.1 else counted.2
        stage := frozen.disposition }
    groups := counted.2
    width := frozen.width }

/-- The projection of a frozen stage. -/
def project (run : RangeRun) (frozen : RangeStagePlan) : Option RangeDispatch :=
  (run.measure frozen).map (run.dispatchOf frozen)

/-- `stage`. -/
def stage (run : RangeRun) (index : Nat) : Option RangeDispatch :=
  if index ≥ run.plan.stageCount then none
  else do
    let frozen ← run.plan.stage index
    if run.plan.shape.residentCounted = false then
      (run.plan.paramsFrom index).map fun params =>
        { params, groups := frozen.groups, width := frozen.width }
    else run.project frozen

end RangeRun

/-! ### What a projection has to give -/

namespace RangePlan

/-- The stage of a plan as a dispatch, with the parameters of `RangeParams::from`. -/
def dispatch (plan : RangePlan) (index : Nat) : Option RangeDispatch := do
  let params ← plan.paramsFrom index
  let stage ← plan.stage index
  some { params, groups := stage.groups, width := stage.width }

/-- All stages of a plan. -/
def dispatches (plan : RangePlan) : List (Option RangeDispatch) :=
  (List.range plan.stageCount).map plan.dispatch

/-- The number of stages that the candidate of a plan has for a count of elements. -/
def countedStages (plan : RangePlan) (count : UInt64) : Nat :=
  if plan.candidate.disposition = .prefixDifference ∧ plan.sourceVariant ≠ .cpu then
    match planRangePrefixTree count plan.candidate.width plan.shape.elementBytes kWordMax with
    | none => 0
    | some tree =>
        tree.stages.length + 1 - (if count > plan.candidate.width.toUInt64 then 1 else 0)
  else plan.stageCount

/-- The same candidate for a shape of a count. -/
def counted (plan : RangePlan) (count : UInt64) : RangePlan :=
  { plan with
    shape := { plan.shape with inputCount := count, outputCount := count }
    stageCount := plan.countedStages count }

end RangePlan

namespace RangeRun

/-- All stages of a run. -/
def dispatches (run : RangeRun) : List (Option RangeDispatch) :=
  (List.range run.plan.stageCount).map run.stage

/-- The stages with groups. -/
def active (dispatches : List (Option RangeDispatch)) : List (Option RangeDispatch) :=
  dispatches.filter fun dispatch => dispatch.any fun dispatch => dispatch.groups != 0

/-- A run gives what its count asks for. -/
structure Projects (run : RangeRun) : Prop where
  shape : run.count ≠ 0 → (run.plan.counted run.count).shape.valid = true
  total : none ∉ run.dispatches
  idle : run.count = 0 → active run.dispatches = []
  active : run.count ≠ 0 → active run.dispatches = (run.plan.counted run.count).dispatches
  within : ∀ (index : Nat) (dispatch : RangeDispatch) (frozen : RangeStagePlan),
    run.stage index = some dispatch → run.plan.stage index = some frozen →
      dispatch.groups ≤ frozen.groups
  whole : run.count = run.plan.shape.inputCount → run.dispatches = run.plan.dispatches

end RangeRun

end RunD.Range
