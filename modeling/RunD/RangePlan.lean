/-
Range plans, which derive their stages and temporaries a second time.

The evaluation of the chosen candidate is thrown away; a plan keeps the shape,
the candidate and the counts, and derives the schedule from them on demand.
Here every builder is given its schedule in closed form (`Extends`), and the
derived schedule is shown to be the same (`rangePlan_reproduces`).
-/
import RunD.RangeEvaluation
import RunD.RangeTree

namespace RunD.Range

/-! ### Plans -/

/-- `RangePlan::Selection`. -/
structure RangePlan where
  shape : RangeShape
  candidate : RangeCandidate
  sourceVariant : RangeSource
  cost : RangeCost
  stageCount : Nat
  temporaryCount : Nat
  legalCandidateCount : Nat
  paretoCandidateCount : Nat
  deriving DecidableEq, Repr

/-- `BuildRangePlan`: the selected plan, or the reason of a rejected one. -/
def buildRangePlan (shape : RangeShape) (caps : RangeCaps) : Except String RangePlan :=
  if shape.valid = false then Except.error "compute_range_aggregate_shape_invalid"
  else if caps.valid = false then
    Except.error (if caps.available then "compute_range_aggregate_capabilities_invalid"
      else "compute_range_aggregate_unavailable")
  else if shape.inputCount > caps.maximumStorageElementCount ∨
      shape.outputCount > caps.maximumStorageElementCount then
    Except.error "compute_range_aggregate_candidate_unavailable"
  else if (found shape caps).length = 0 then
    Except.error (
      if (evaluations shape caps).any fun evaluated => evaluated matches Except.error true then
        "compute_range_aggregate_cost_overflow"
      else "compute_range_aggregate_candidate_unavailable")
  else
    match choice shape caps with
    | none => Except.error "compute_range_aggregate_candidate_unavailable"
    | some evaluation =>
        Except.ok
          { shape
            candidate := evaluation.candidate
            sourceVariant := caps.sourceVariant
            cost := evaluation.cost
            stageCount := evaluation.stages.length
            temporaryCount := evaluation.temporaries.length
            legalCandidateCount := (found shape caps).length
            paretoCandidateCount := (pareto (found shape caps)).length }

namespace RangePlan

/-- `RangePlan::stage`; nothing when an assertion in it fails. -/
def stage (plan : RangePlan) (index : Nat) : Option RangeStagePlan :=
  if index ≥ plan.stageCount then none
  else
    match plan.candidate.disposition with
    | .direct =>
        some
          { disposition := .direct
            level := 0
            elementCount := plan.shape.outputCount
            groups :=
              if plan.candidate.width = 0 then 1
              else groupsFor plan.shape.outputCount plan.candidate.width.toUInt64
            width := plan.candidate.width }
    | .tiledDifference =>
        some
          { disposition := .tiledDifference
            level := 0
            elementCount := plan.shape.outputCount
            groups := groupsFor plan.shape.outputCount
              (plan.candidate.width * kRangeTileOutputsPerLane).toUInt64
            width := plan.candidate.width }
    | .sharedHalo =>
        some
          { disposition := .sharedHalo
            level := 0
            elementCount := plan.shape.inputCount
            groups := groupsFor plan.shape.inputCount plan.candidate.width.toUInt64
            width := plan.candidate.width }
    | .blockPrefixSuffix =>
        if plan.sourceVariant = .cpu then do
          let span ← plan.shape.affineSpan
          some (
            if index = 0 then
              { disposition := .blockPrefixSuffix
                level := 0
                elementCount := span
                groups := 1
                width := 0 }
            else
              { disposition := .blockWindow
                level := 0
                elementCount := plan.shape.outputCount
                groups := 1
                width := 0 })
        else if index = 0 then do
          let padded ← plan.shape.affineSpan
          some
            { disposition := .blockPrefixSuffix
              level := 0
              elementCount := padded
              groups := rangeBlockGroups plan.sourceVariant
                (groupsFor padded plan.shape.windowSize) plan.candidate.width
              width := plan.candidate.width }
        else
          some
            { disposition := .blockWindow
              level := 0
              elementCount := plan.shape.outputCount
              groups := rangeBlockQueryGroups plan.sourceVariant plan.shape.outputCount
                plan.shape.stride plan.shape.windowSize plan.candidate.width
              width := plan.candidate.width }
    | .prefixDifference =>
        if plan.sourceVariant = .cpu then
          some (
            if index = 0 then
              { disposition := .prefixSequential
                level := 0
                elementCount := plan.shape.inputCount
                groups := 1
                width := 0 }
            else
              { disposition := .prefixWindow
                level := 0
                elementCount := plan.shape.outputCount
                groups := 1
                width := 0 })
        else do
          let tree ← planRangePrefixTree plan.shape.inputCount plan.candidate.width
            plan.shape.elementBytes kWordMax
          if plan.stageCount ≠ tree.stages.length + 1 -
              (if plan.shape.inputCount > plan.candidate.width.toUInt64 then 1 else 0) then none
          else if index + 1 < plan.stageCount then tree.stages[index]?
          else
            some
              { disposition := .prefixWindow
                level := 0
                elementCount := plan.shape.outputCount
                groups := groupsFor plan.shape.outputCount plan.candidate.width.toUInt64
                width := plan.candidate.width }

/-- `RangePlan::temporary`; nothing when an assertion in it fails. -/
def temporary (plan : RangePlan) (index : Nat) : Option RangeTempReq :=
  if index ≥ plan.temporaryCount then none
  else if plan.candidate.disposition = .prefixDifference then
    if index = 0 then
      some
        { role := .prefixValues
          ordinal := 0
          bytes := plan.shape.payloadBytes
          alignment := plan.shape.elementBytes.toUInt64
          firstStage := 0
          lastStage := UInt8.ofNat (plan.stageCount - 1) }
    else if plan.sourceVariant = .cpu then none
    else do
      let tree ← planRangePrefixTree plan.shape.inputCount plan.candidate.width
        plan.shape.elementBytes kWordMax
      if index - 1 < tree.temporaries.length ∧
          plan.temporaryCount = tree.temporaries.length + 1 then tree.temporaries[index - 1]?
      else none
  else do
    let span ← plan.shape.affineSpan
    some
      { role := if index = 0 then .forwardValues else .backwardValues
        ordinal := 0
        bytes := span * plan.shape.elementBytes.toUInt64
        alignment := plan.shape.elementBytes.toUInt64
        firstStage := 0
        lastStage := 1 }

/-- `RangeExec::stage_scratch`: the temporaries that a stage binds on a device. -/
def stageScratch (plan : RangePlan) (stage : RangeStagePlan) : List (RangeTempRole × UInt8) :=
  match stage.disposition with
  | .tiledDifference | .direct | .sharedHalo => []
  | .prefixSequential | .prefixBlock =>
      [(.prefixValues, 0),
        if stage.groups = 1 then (.prefixValues, 0) else (.blockSummaries, stage.level)]
  | .prefixSummary =>
      if stage.level = 0 then []
      else
        [(.blockSummaries, stage.level - 1),
          if stage.groups = 1 then (.blockSummaries, stage.level - 1)
          else (.blockSummaries, stage.level)]
  | .prefixFixup =>
      [if stage.level = 0 then (.prefixValues, 0) else (.blockSummaries, stage.level - 1),
        (.blockSummaries, stage.level)]
  | .prefixWindow =>
      [(.prefixValues, 0),
        if plan.shape.inputCount ≤ plan.candidate.width.toUInt64 then (.prefixValues, 0)
        else (.blockSummaries, 0)]
  | .blockPrefixSuffix | .blockWindow =>
      [(.forwardValues, 0),
        if plan.sourceVariant = .metal then (.forwardValues, 0) else (.backwardValues, 0)]

/-- A stage uses a temporary: it binds it, or it runs on a processor, whose two stages share all
the scratch. -/
def Uses (plan : RangePlan) (stage : RangeStagePlan) (temporary : RangeTempReq) : Prop :=
  plan.sourceVariant = .cpu ∨ (temporary.role, temporary.ordinal) ∈ plan.stageScratch stage

end RangePlan

/-! ### What the steps of an evaluation add -/

theorem evaluated_bind {α β : Type} {x : Evaluated α} {f : α → Evaluated β} {b : β} :
    (x >>= f) = Except.ok b ↔ ∃ a, x = Except.ok a ∧ f a = Except.ok b := by
  rcases x with e | a
  · simp [bind, Except.bind]
  · simp [bind, Except.bind]

theorem overflowing_eq_ok {α : Type} {x : Evaluated α} {a : α} :
    overflowing x = Except.ok a ↔ x = Except.ok a := by
  rcases x with e | b
  · exact ⟨nofun, nofun⟩
  · exact Iff.rfl

theorem available_eq_ok {condition : Bool} {u : Unit} :
    available condition = Except.ok u ↔ condition = true := by
  cases condition with
  | false => exact ⟨nofun, nofun⟩
  | true => exact ⟨fun _ => rfl, fun _ => rfl⟩

/-- An evaluation with some stages and temporaries more, the stages within the limit on groups. -/
structure Extends (caps : RangeCaps) (before after : CandidateEvaluation)
    (staged : List RangeStagePlan) (scratch : List RangeTempReq) : Prop where
  candidate : after.candidate = before.candidate
  stages : after.stages = before.stages ++ staged
  temporaries : after.temporaries = before.temporaries ++ scratch
  fits : ∀ stage ∈ staged, fitsGroups caps stage.groups = true

namespace Extends

variable {caps : RangeCaps} {before middle after : CandidateEvaluation}

theorem trans {staged₁ staged₂ : List RangeStagePlan} {scratch₁ scratch₂ : List RangeTempReq}
    (h₁ : Extends caps before middle staged₁ scratch₁)
    (h₂ : Extends caps middle after staged₂ scratch₂) :
    Extends caps before after (staged₁ ++ staged₂) (scratch₁ ++ scratch₂) where
  candidate := h₂.candidate.trans h₁.candidate
  stages := by rw [h₂.stages, h₁.stages, List.append_assoc]
  temporaries := by rw [h₂.temporaries, h₁.temporaries, List.append_assoc]
  fits stage hstage := by
    rcases List.mem_append.mp hstage with hmem | hmem
    · exact h₁.fits stage hmem
    · exact h₂.fits stage hmem

/-- A step that adds to the cost only. -/
theorem charge {cost : Option RangeCost} (h : before.charge cost = Except.ok after) :
    Extends caps before after [] [] := by
  obtain ⟨charged, -, h⟩ := evaluated_bind.mp h
  injection h with h
  subst h
  exact ⟨rfl, (List.append_nil _).symm, (List.append_nil _).symm, nofun⟩

theorem stage {stage : RangeStagePlan} (h : before.appendStage caps stage = Except.ok after) :
    Extends caps before after [stage] [] := by
  obtain ⟨_, havailable, h⟩ := evaluated_bind.mp h
  obtain ⟨charged, hcharged, h⟩ := evaluated_bind.mp h
  rw [available_eq_ok, Bool.and_eq_true] at havailable
  have hcost := @Extends.charge caps _ _ _ hcharged
  injection h with h
  subst h
  refine ⟨hcost.candidate, ?_, hcost.temporaries, ?_⟩
  · rw [hcost.stages, List.append_nil]
  · intro other hother
    rw [List.mem_singleton] at hother
    rw [hother]
    exact havailable.2

theorem temporary {temporary : RangeTempReq}
    (h : before.appendTemporary caps temporary = Except.ok after) :
    Extends caps before after [] [temporary] := by
  obtain ⟨_, -, h⟩ := evaluated_bind.mp h
  obtain ⟨charged, hcharged, h⟩ := evaluated_bind.mp h
  have hcost := @Extends.charge caps _ _ _ hcharged
  injection h with h
  subst h
  refine ⟨hcost.candidate, hcost.stages, ?_, nofun⟩
  rw [hcost.temporaries, List.append_nil]

/-- Two steps after one another, the first of the cost only. -/
theorem after_charge {cost : Option RangeCost} (hcost : before.charge cost = Except.ok middle)
    {staged : List RangeStagePlan} {scratch : List RangeTempReq}
    (h : Extends caps middle after staged scratch) : Extends caps before after staged scratch :=
  (Extends.charge hcost).trans h

end Extends

/-! ### The candidates with one stage -/

section Builders

variable {shape : RangeShape} {caps : RangeCaps} {candidate : RangeCandidate}
  {evaluation : CandidateEvaluation}

/-- What a plan has to derive for an evaluation. -/
structure Schedule (caps : RangeCaps) (planned : RangeCandidate)
    (evaluation : CandidateEvaluation) (staged : List RangeStagePlan)
    (scratch : List RangeTempReq) : Prop where
  candidate : evaluation.candidate = planned
  stages : evaluation.stages = staged
  temporaries : evaluation.temporaries = scratch
  fits : ∀ stage ∈ evaluation.stages, fitsGroups caps stage.groups = true

theorem Extends.schedule {cost : RangeCost} {staged : List RangeStagePlan}
    {scratch : List RangeTempReq}
    (h : Extends caps { candidate, cost } evaluation staged scratch) :
    Schedule caps candidate evaluation staged scratch := by
  have hstages : evaluation.stages = staged := h.stages
  exact ⟨h.candidate, hstages, h.temporaries, hstages ▸ h.fits⟩

theorem buildDirect_schedule (h : buildDirect shape caps candidate = Except.ok evaluation) :
    Schedule caps candidate evaluation
      [{ disposition := .direct
         level := 0
         elementCount := shape.outputCount
         groups :=
           if candidate.width = 0 then 1 else groupsFor shape.outputCount candidate.width.toUInt64
         width := candidate.width }] [] := by
  obtain ⟨traffic, -, h⟩ := evaluated_bind.mp h
  obtain ⟨read, hread, h⟩ := evaluated_bind.mp h
  obtain ⟨written, hwritten, h⟩ := evaluated_bind.mp h
  obtain ⟨combined, hcombined, h⟩ := evaluated_bind.mp h
  obtain ⟨staged, hstaged, h⟩ := evaluated_bind.mp h
  have hschedule := (Extends.after_charge hread (Extends.after_charge hwritten
    (Extends.after_charge hcombined (Extends.stage hstaged)))).schedule
  injection h with h
  subst h
  exact ⟨hschedule.candidate, hschedule.stages, hschedule.temporaries, hschedule.fits⟩

theorem buildSharedHalo_schedule
    (h : buildSharedHalo shape caps candidate = Except.ok evaluation) :
    shape.centeredClamp = true ∧ Schedule caps candidate evaluation
      [{ disposition := .sharedHalo
         level := 0
         elementCount := shape.outputCount
         groups := groupsFor shape.outputCount candidate.width.toUInt64
         width := candidate.width }] [] := by
  obtain ⟨_, hcentered, h⟩ := evaluated_bind.mp h
  obtain ⟨_, -, h⟩ := evaluated_bind.mp h
  obtain ⟨_, -, h⟩ := evaluated_bind.mp h
  rw [overflowing_eq_ok] at h
  obtain ⟨reads, -, h⟩ := evaluated_bind.mp h
  obtain ⟨read, hread, h⟩ := evaluated_bind.mp h
  obtain ⟨written, hwritten, h⟩ := evaluated_bind.mp h
  obtain ⟨twice, -, h⟩ := evaluated_bind.mp h
  obtain ⟨combined, hcombined, hstaged⟩ := evaluated_bind.mp h
  rw [available_eq_ok, Bool.and_eq_true] at hcentered
  exact ⟨hcentered.1, (Extends.after_charge hread (Extends.after_charge hwritten
    (Extends.after_charge hcombined (Extends.stage hstaged)))).schedule⟩

theorem buildTiledDifference_schedule
    (h : buildTiledDifference shape caps candidate = Except.ok evaluation) :
    Schedule caps candidate evaluation
      [{ disposition := .tiledDifference
         level := 0
         elementCount := shape.outputCount
         groups := groupsFor shape.outputCount
           (candidate.width * kRangeTileOutputsPerLane).toUInt64
         width := candidate.width }] [] := by
  obtain ⟨_, -, h⟩ := evaluated_bind.mp h
  obtain ⟨_, -, h⟩ := evaluated_bind.mp h
  rw [overflowing_eq_ok] at h
  obtain ⟨anchors, -, h⟩ := evaluated_bind.mp h
  obtain ⟨traffic, -, h⟩ := evaluated_bind.mp h
  obtain ⟨reads, -, h⟩ := evaluated_bind.mp h
  obtain ⟨reads, -, h⟩ := evaluated_bind.mp h
  obtain ⟨e1, h1, h⟩ := evaluated_bind.mp h
  obtain ⟨e2, h2, h⟩ := evaluated_bind.mp h
  obtain ⟨e3, h3, h⟩ := evaluated_bind.mp h
  obtain ⟨e4, h4, h⟩ := evaluated_bind.mp h
  obtain ⟨e5, h5, h⟩ := evaluated_bind.mp h
  obtain ⟨e6, h6, h⟩ := evaluated_bind.mp h
  obtain ⟨e7, h7, h⟩ := evaluated_bind.mp h
  obtain ⟨e8, h8, h⟩ := evaluated_bind.mp h
  obtain ⟨e9, h9, hstaged⟩ := evaluated_bind.mp h
  exact (Extends.after_charge h1 (Extends.after_charge h2 (Extends.after_charge h3
    (Extends.after_charge h4 (Extends.after_charge h5 (Extends.after_charge h6
      (Extends.after_charge h7 (Extends.after_charge h8 (Extends.after_charge h9
        (Extends.stage hstaged)))))))))).schedule

end Builders

end RunD.Range
