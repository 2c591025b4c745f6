/-
Runs give what their counts ask for, except over blocks of wide windows
(`rangeRun_projects_iff`).

A run counts the blocks of its elements with a window that was narrowed to 32
bits, where the plan and the parameters divide by the window itself.  All the
other stages are counted as the plan counts them; over a hierarchy the stages
that stay active are the hierarchy of the smaller count.
-/
import RunD.RangeRun

namespace RunD.Range

/-! ### Plans as lists of stages -/

namespace RangePlan

/-- A stage as a dispatch. -/
def freeze (plan : RangePlan) (stage : RangeStagePlan) : RangeDispatch :=
  { params := plan.params stage, groups := stage.groups, width := stage.width }

end RangePlan

/-- A plan has these stages. -/
structure Lists (plan : RangePlan) (staged : List RangeStagePlan) : Prop where
  count : plan.stageCount = staged.length
  stage : ∀ index, index < plan.stageCount → plan.stage index = staged[index]?

section Lists

variable {plan : RangePlan} {run : RangeRun} {staged smaller : List RangeStagePlan}

theorem Lists.dispatches (hlists : Lists plan staged) :
    plan.dispatches = staged.map fun stage => some (plan.freeze stage) := by
  rw [RangePlan.dispatches, hlists.count]
  apply List.ext_getElem
  · rw [List.length_map, List.length_map, List.length_range]
  · intro index hindex hstaged
    rw [List.length_map] at hstaged
    have hcount : index < plan.stageCount := hlists.count ▸ hstaged
    rw [List.getElem_map, List.getElem_map, List.getElem_range, RangePlan.dispatch,
      RangePlan.paramsFrom, if_neg (by omega), hlists.stage index hcount,
      List.getElem?_eq_getElem hstaged]
    rfl

theorem Lists.stage_eq (hlists : Lists run.plan staged)
    (hresident : run.plan.shape.residentCounted = true) {index : Nat}
    (hindex : index < staged.length) : run.stage index = run.project staged[index] := by
  have hcount : index < run.plan.stageCount := hlists.count ▸ hindex
  rw [RangeRun.stage, if_neg (by omega), hlists.stage index hcount,
    List.getElem?_eq_getElem hindex, hresident]
  rfl

theorem Lists.run_dispatches (hlists : Lists run.plan staged)
    (hresident : run.plan.shape.residentCounted = true) :
    run.dispatches = staged.map run.project := by
  rw [RangeRun.dispatches, hlists.count]
  apply List.ext_getElem
  · rw [List.length_map, List.length_map, List.length_range]
  · intro index hindex hstaged
    rw [List.length_map] at hstaged
    rw [List.getElem_map, List.getElem_map, List.getElem_range, hlists.stage_eq hresident hstaged]

/-- Everything a run has to give, from the projections of the stages of its plan. -/
theorem projects_of (hresident : run.plan.shape.residentCounted = true)
    (hvalid : run.count ≠ 0 → (run.plan.counted run.count).shape.valid = true)
    (hlists : Lists run.plan staged)
    (hsmaller : run.count ≠ 0 → Lists (run.plan.counted run.count) smaller)
    (hidle : run.count = 0 → ∀ stage ∈ staged, ∃ dispatch, run.project stage = some dispatch ∧
      dispatch.groups = 0)
    (hactive : run.count ≠ 0 → RangeRun.active (staged.map run.project) =
      smaller.map fun stage => some ((run.plan.counted run.count).freeze stage))
    (hwithin : ∀ stage ∈ staged, ∃ dispatch, run.project stage = some dispatch ∧
      dispatch.groups ≤ stage.groups)
    (hwhole : run.count = run.plan.shape.inputCount →
      ∀ stage ∈ staged, run.project stage = some (run.plan.freeze stage)) :
    run.Projects where
  shape := hvalid
  total := by
    rw [hlists.run_dispatches hresident]
    intro hmem
    obtain ⟨stage, hstage, hnone⟩ := List.mem_map.mp hmem
    obtain ⟨dispatch, hsome, -⟩ := hwithin stage hstage
    rw [hsome] at hnone
    cases hnone
  idle hzero := by
    rw [hlists.run_dispatches hresident, RangeRun.active, List.filter_eq_nil_iff]
    intro dispatch hmem
    obtain ⟨stage, hstage, hproject⟩ := List.mem_map.mp hmem
    obtain ⟨idle, hsome, hgroups⟩ := hidle hzero stage hstage
    rw [← hproject, hsome]
    show ¬ (idle.groups != 0) = true
    rw [hgroups]
    decide
  active hne := by
    rw [hlists.run_dispatches hresident, (hsmaller hne).dispatches]
    exact hactive hne
  within index dispatch frozen hdispatch hfrozen := by
    have hindex : index < staged.length := by
      by_contra hout
      rw [RangeRun.stage, if_pos (by rw [hlists.count]; omega)] at hdispatch
      cases hdispatch
    rw [hlists.stage_eq hresident hindex] at hdispatch
    rw [hlists.stage index (by rw [hlists.count]; exact hindex),
      List.getElem?_eq_getElem hindex] at hfrozen
    injection hfrozen with hfrozen
    obtain ⟨found, hsome, hle⟩ := hwithin staged[index] (List.getElem_mem hindex)
    rw [hsome] at hdispatch
    injection hdispatch with hdispatch
    rw [← hdispatch, ← hfrozen]
    exact hle
  whole hcount := by
    rw [hlists.run_dispatches hresident, hlists.dispatches]
    exact List.map_congr_left (hwhole hcount)

end Lists

/-! ### Shapes of a smaller count -/

section Shapes

variable {shape : RangeShape}

/-- What counting a resident asks of a shape. -/
structure Resident (shape : RangeShape) : Prop where
  counts : shape.inputCount = shape.outputCount
  stride : shape.stride = 1
  window : shape.windowSize.toNat = 2 * shape.padding.toNat + 1
  bytes : checkedMul shape.inputCount shape.elementBytes.toUInt64 = true
  positive : shape.inputCount ≠ 0

theorem resident_of_valid (hvalid : shape.valid = true) (hresident : shape.residentCounted = true) :
    Resident shape := by
  simp only [RangeShape.valid, Bool.and_eq_true, Bool.or_eq_true, beq_iff_eq, bne_iff_ne,
    decide_eq_true_iff] at hvalid
  simp only [RangeShape.residentCounted, bne_iff_ne] at hresident
  obtain ⟨⟨⟨⟨⟨⟨⟨⟨⟨⟨⟨⟨-, hinput⟩, -⟩, -⟩, -⟩, hpadding⟩, hcounted⟩, -⟩, -⟩, -⟩, -⟩, hbytes⟩, -⟩ :=
    hvalid
  obtain ⟨⟨hcounts, hstride⟩, hextent⟩ := hcounted.resolve_left hresident
  refine ⟨hcounts, hstride, ?_, ?_, hinput⟩
  · have hlt := UInt64.lt_iff_toNat_lt.mp hpadding
    have hle : shape.padding ≤ shape.windowSize := UInt64.le_of_lt hpadding
    have hsub := UInt64.toNat_sub_of_le _ _ hle
    have hone : (1 : UInt64) ≤ shape.windowSize - shape.padding := by
      rw [UInt64.le_iff_toNat_le, hsub]
      show 1 ≤ _
      omega
    have hnat := congrArg UInt64.toNat hextent
    rw [UInt64.toNat_sub_of_le _ _ hone, hsub] at hnat
    change _ - 1 = _ at hnat
    omega
  · rw [checkedMul, Bool.or_eq_true, decide_eq_true_iff]
    exact Or.inr hbytes

/-- A resident-counted shape is valid for every smaller count. -/
theorem valid_counted {count : UInt64} (hvalid : shape.valid = true) (hresident : Resident shape)
    (hne : count ≠ 0) (hle : count ≤ shape.inputCount) :
    { shape with inputCount := count, outputCount := count : RangeShape }.valid = true := by
  have hstride := hresident.stride
  have hcounts := hresident.counts
  simp only [RangeShape.valid, Bool.and_eq_true, Bool.or_eq_true, beq_iff_eq, bne_iff_ne,
    decide_eq_true_iff] at hvalid ⊢
  obtain ⟨⟨⟨⟨⟨⟨⟨⟨⟨⟨⟨⟨htraits, -⟩, -⟩, hwindow⟩, hpositive⟩, hpadding⟩, hcounted⟩, -⟩, -⟩, hbytes⟩,
    hdomain⟩, hfits⟩, -⟩ := hvalid
  have hanchor : { shape with inputCount := count, outputCount := count : RangeShape }.lastAnchor =
      count.toNat - 1 := by
    rw [RangeShape.lastAnchor]
    dsimp only
    rw [if_neg hne, hstride, UInt64.toNat_sub_of_le]
    · show (count.toNat - 1) * 1 = _
      rw [Nat.mul_one]
    · rw [UInt64.le_iff_toNat_le]
      show 1 ≤ count.toNat
      exact Nat.pos_of_ne_zero fun hz => hne (UInt64.toNat_inj.mp hz)
  have hcount := count.toNat_lt
  have hpos : count.toNat ≠ 0 := fun hz => hne (UInt64.toNat_inj.mp hz)
  refine ⟨⟨⟨⟨⟨⟨⟨⟨⟨⟨⟨⟨htraits, hne⟩, hne⟩, hwindow⟩, hpositive⟩, hpadding⟩, ?_⟩, ?_⟩, ?_⟩, hbytes⟩,
    hdomain⟩, UInt64.le_trans hle hfits⟩, UInt64.le_trans hle hfits⟩
  · exact hcounted.imp id fun hresident => ⟨⟨trivial, hresident.1.2⟩, hresident.2⟩
  · rw [hanchor]
    omega
  · rw [hanchor]
    omega

theorem shape_whole (hcounts : shape.inputCount = shape.outputCount) :
    { shape with inputCount := shape.inputCount, outputCount := shape.inputCount } = shape := by
  cases shape with
  | mk traits boundary inputCount outputCount windowSize stride padding elementBytes count =>
      change inputCount = outputCount at hcounts
      rw [hcounts]

theorem freeze_whole {plan : RangePlan} (hcounts : plan.shape.inputCount = plan.shape.outputCount)
    (stage : RangeStagePlan) :
    (plan.counted plan.shape.inputCount).freeze stage = plan.freeze stage := by
  rw [RangePlan.freeze, RangePlan.freeze, RangePlan.params, RangePlan.params, RangePlan.counted,
    shape_whole hcounts]

end Shapes

/-! ### Groups of a run -/

section Groups

variable {count elements : UInt64} {width : UInt32}

theorem groups_zero : RangeRun.groups 0 width = 0 := rfl

theorem toUInt64_ne_zero (hwidth : width ≠ 0) : width.toUInt64 ≠ 0 := by
  intro hzero
  apply hwidth
  rw [← UInt32.toNat_inj, ← UInt32.toNat_toUInt64, hzero]
  rfl

theorem groups_eq (hwidth : width.toUInt64 ≠ 0) :
    RangeRun.groups elements width = groupsFor elements width.toUInt64 := by
  have hne : width ≠ 0 := by
    rintro rfl
    exact hwidth rfl
  rw [RangeRun.groups, groupsFor, checkedCeil, if_neg hwidth]
  by_cases hzero : elements = 0
  · rw [if_pos hzero, hzero, UInt64.zero_div, UInt64.zero_mod, if_neg (not_not_intro rfl)]
    rfl
  · rw [if_neg hzero, if_neg hne]

theorem groups_narrow (hne : elements ≠ 0) :
    RangeRun.groups elements 0 = 1 := by
  rw [RangeRun.groups, if_neg hne, if_pos rfl]

theorem groups_ne_zero (hne : elements ≠ 0) : RangeRun.groups elements width ≠ 0 := by
  by_cases hwidth : width = 0
  · rw [hwidth, groups_narrow hne]
    decide
  · have hwide := toUInt64_ne_zero hwidth
    rw [groups_eq hwide]
    exact groupsFor_ne_zero hwide hne

theorem groups_mono (hle : count ≤ elements) :
    RangeRun.groups count width ≤ RangeRun.groups elements width := by
  by_cases hzero : count = 0
  · rw [hzero, groups_zero]
    exact UInt64.le_iff_toNat_le.mpr (Nat.zero_le _)
  have helements : elements ≠ 0 := by
    intro hz
    rw [hz] at hle
    exact hzero (UInt64.le_zero_iff.mp hle)
  by_cases hwidth : width = 0
  · rw [hwidth, groups_narrow hzero, groups_narrow helements]
    exact UInt64.le_refl 1
  · have hwide := toUInt64_ne_zero hwidth
    rw [groups_eq hwide, groups_eq hwide]
    exact groupsFor_mono hwide hle

end Groups

/-! ### Stages counted one by one -/

section Flat

variable {run : RangeRun} {staged : List RangeStagePlan}

/-- A stage with other counts. -/
def recount (counts : RangeStagePlan → UInt64 → UInt64 × UInt64) (count : UInt64)
    (stage : RangeStagePlan) : RangeStagePlan :=
  { stage with elementCount := (counts stage count).1, groups := (counts stage count).2 }

/-- A run of stages that are each counted from the count alone. -/
theorem projects_recount {counts : RangeStagePlan → UInt64 → UInt64 × UInt64}
    (hresident : run.plan.shape.residentCounted = true)
    (hvalid : run.count ≠ 0 → (run.plan.counted run.count).shape.valid = true)
    (hcounts : run.plan.shape.inputCount = run.plan.shape.outputCount)
    (hlists : Lists run.plan staged)
    (hsmaller : run.count ≠ 0 →
      Lists (run.plan.counted run.count) (staged.map (recount counts run.count)))
    (hmeasure : ∀ stage ∈ staged, run.measure stage = some (counts stage run.count))
    (hblocks : ∀ stage ∈ staged, stage.disposition = .blockPrefixSuffix →
      run.blocks (counts stage run.count).1 =
        checkedCeil (counts stage run.count).1 run.plan.shape.windowSize)
    (hidle : run.count = 0 → ∀ stage ∈ staged, (counts stage run.count).2 = 0)
    (hbusy : run.count ≠ 0 → ∀ stage ∈ staged, (counts stage run.count).2 ≠ 0)
    (hwithin : ∀ stage ∈ staged, (counts stage run.count).2 ≤ stage.groups)
    (hwhole : run.count = run.plan.shape.inputCount →
      ∀ stage ∈ staged, recount counts run.count stage = stage) : run.Projects := by
  have hproject : ∀ stage ∈ staged, run.project stage =
      some (run.dispatchOf stage (counts stage run.count)) := by
    intro stage hstage
    rw [RangeRun.project, hmeasure stage hstage]
    rfl
  have hfreeze : ∀ stage ∈ staged, run.dispatchOf stage (counts stage run.count) =
      (run.plan.counted run.count).freeze (recount counts run.count stage) := by
    intro stage hstage
    rw [RangeRun.dispatchOf, RangePlan.freeze, RangePlan.params]
    have hkind : (recount counts run.count stage).disposition = stage.disposition := rfl
    rw [hkind]
    by_cases hblock : stage.disposition = .blockPrefixSuffix
    · rw [if_pos hblock, if_pos hblock, hblocks stage hstage hblock]
      rfl
    · rw [if_neg hblock, if_neg hblock]
      rfl
  apply projects_of hresident hvalid hlists hsmaller
  · intro hzero stage hstage
    exact ⟨_, hproject stage hstage, hidle hzero stage hstage⟩
  · intro hne
    have hmapped : staged.map run.project = staged.map fun stage =>
        some ((run.plan.counted run.count).freeze (recount counts run.count stage)) := by
      apply List.map_congr_left
      intro stage hstage
      rw [hproject stage hstage, hfreeze stage hstage]
    rw [hmapped, RangeRun.active, List.map_map, List.filter_eq_self.mpr]
    · rfl
    · intro dispatch hmem
      obtain ⟨stage, hstage, rfl⟩ := List.mem_map.mp hmem
      exact bne_iff_ne.mpr (hbusy hne stage hstage)
  · intro stage hstage
    exact ⟨_, hproject stage hstage, hwithin stage hstage⟩
  · intro hcount stage hstage
    rw [hproject stage hstage, hfreeze stage hstage, hwhole hcount stage hstage, hcount,
      freeze_whole hcounts]

end Flat

/-! ### Candidates without a hierarchy -/

section Paths

variable {plan : RangePlan} {run : RangeRun}

/-- A list of one stage. -/
theorem lists_one {stage : RangeStagePlan} (hcount : plan.stageCount = 1)
    (hstage : plan.stage 0 = some stage) : Lists plan [stage] where
  count := hcount
  stage index hindex := by
    have hzero : index = 0 := by omega
    rw [hzero]
    exact hstage

/-- A list of two stages. -/
theorem lists_two {first second : RangeStagePlan} (hcount : plan.stageCount = 2)
    (hfirst : plan.stage 0 = some first) (hsecond : plan.stage 1 = some second) :
    Lists plan [first, second] where
  count := hcount
  stage index hindex := by
    rcases (by omega : index = 0 ∨ index = 1) with rfl | rfl
    · exact hfirst
    · exact hsecond

theorem countedStages_flat {count : UInt64}
    (hflat : ¬ (plan.candidate.disposition = .prefixDifference ∧ plan.sourceVariant ≠ .cpu)) :
    plan.countedStages count = plan.stageCount := by
  rw [RangePlan.countedStages, if_neg hflat]

/-- The counts of a stage that has the elements in groups of a width. -/
def elementGroups (width : RangeStagePlan → UInt32) (stage : RangeStagePlan) (count : UInt64) :
    UInt64 × UInt64 :=
  (count, RangeRun.groups count (width stage))

/-- A run whose stages all have the elements in groups. -/
theorem projects_elementGroups {staged : List RangeStagePlan} {width : RangeStagePlan → UInt32}
    (hvalid : run.plan.shape.valid = true) (hresident : run.plan.shape.residentCounted = true)
    (hcount : run.count ≤ run.plan.shape.inputCount) (hlists : Lists run.plan staged)
    (hsmaller : run.count ≠ 0 → Lists (run.plan.counted run.count)
      (staged.map (recount (elementGroups width) run.count)))
    (hmeasure : ∀ stage ∈ staged,
      run.measure stage = some (elementGroups width stage run.count))
    (hkind : ∀ stage ∈ staged, stage.disposition ≠ .blockPrefixSuffix)
    (hfrozen : ∀ stage ∈ staged, stage.elementCount = run.plan.shape.inputCount ∧
      stage.groups = RangeRun.groups run.plan.shape.inputCount (width stage)) : run.Projects := by
  have hshape := resident_of_valid hvalid hresident
  apply projects_recount hresident (fun hne => valid_counted hvalid hshape hne hcount)
    hshape.counts hlists hsmaller hmeasure
  · intro stage hstage hblock
    exact absurd hblock (hkind stage hstage)
  · intro hzero stage _
    show RangeRun.groups run.count _ = 0
    rw [hzero, groups_zero]
  · intro hne stage _
    exact groups_ne_zero hne
  · intro stage hstage
    rw [(hfrozen stage hstage).2]
    exact groups_mono hcount
  · intro hwhole stage hstage
    obtain ⟨helements, hgroups⟩ := hfrozen stage hstage
    have hsame : elementGroups width stage run.count = (stage.elementCount, stage.groups) := by
      rw [elementGroups, hwhole, helements, hgroups]
    rw [recount, hsame]

theorem lists_direct (hpath : plan.candidate.disposition = .direct) (hcount : plan.stageCount = 1)
    (hne : plan.shape.outputCount ≠ 0) : Lists plan
      [{ disposition := .direct
         level := 0
         elementCount := plan.shape.outputCount
         groups := RangeRun.groups plan.shape.outputCount plan.candidate.width
         width := plan.candidate.width }] := by
  apply lists_one hcount
  rw [RangePlan.stage, if_neg (by omega), hpath]
  dsimp only
  by_cases hwidth : plan.candidate.width = 0
  · rw [if_pos hwidth, hwidth, groups_narrow hne]
  · rw [if_neg hwidth, groups_eq (toUInt64_ne_zero hwidth)]

theorem lists_sharedHalo (hpath : plan.candidate.disposition = .sharedHalo)
    (hcount : plan.stageCount = 1) (hwidth : plan.candidate.width ≠ 0) : Lists plan
      [{ disposition := .sharedHalo
         level := 0
         elementCount := plan.shape.inputCount
         groups := RangeRun.groups plan.shape.inputCount plan.candidate.width
         width := plan.candidate.width }] := by
  apply lists_one hcount
  rw [RangePlan.stage, if_neg (by omega), hpath, groups_eq (toUInt64_ne_zero hwidth)]

theorem lists_tiledDifference (hpath : plan.candidate.disposition = .tiledDifference)
    (hcount : plan.stageCount = 1)
    (hwidth : plan.candidate.width * kRangeTileOutputsPerLane ≠ 0) : Lists plan
      [{ disposition := .tiledDifference
         level := 0
         elementCount := plan.shape.outputCount
         groups := RangeRun.groups plan.shape.outputCount
           (plan.candidate.width * kRangeTileOutputsPerLane)
         width := plan.candidate.width }] := by
  apply lists_one hcount
  rw [RangePlan.stage, if_neg (by omega), hpath, groups_eq (toUInt64_ne_zero hwidth)]

theorem lists_prefixCpu (hpath : plan.candidate.disposition = .prefixDifference)
    (hsource : plan.sourceVariant = .cpu) (hcount : plan.stageCount = 2)
    (hinput : plan.shape.inputCount ≠ 0) (houtput : plan.shape.outputCount ≠ 0) : Lists plan
      [{ disposition := .prefixSequential
         level := 0
         elementCount := plan.shape.inputCount
         groups := RangeRun.groups plan.shape.inputCount 0
         width := 0 },
       { disposition := .prefixWindow
         level := 0
         elementCount := plan.shape.outputCount
         groups := RangeRun.groups plan.shape.outputCount 0
         width := 0 }] := by
  apply lists_two hcount
  · rw [RangePlan.stage, if_neg (by omega), hpath, groups_narrow hinput]
    dsimp only
    rw [if_pos hsource]
    rfl
  · rw [RangePlan.stage, if_neg (by omega), hpath, groups_narrow houtput]
    dsimp only
    rw [if_pos hsource]
    rfl

variable (hvalid : run.plan.shape.valid = true)
  (hresident : run.plan.shape.residentCounted = true)
  (hcount : run.count ≤ run.plan.shape.inputCount)

include hvalid hresident hcount

theorem projects_direct (hpath : run.plan.candidate.disposition = .direct)
    (hone : run.plan.stageCount = 1) : run.Projects := by
  have hshape := resident_of_valid hvalid hresident
  have hne : run.plan.shape.outputCount ≠ 0 := hshape.counts ▸ hshape.positive
  have hcounted := @countedStages_flat run.plan run.count
    (fun hboth => by rw [hpath] at hboth; exact nomatch hboth.1)
  apply @projects_elementGroups run _ (fun stage => stage.width) hvalid hresident hcount
    (lists_direct hpath hone hne)
  · intro hbusy
    exact @lists_direct (run.plan.counted run.count) hpath (hcounted.trans hone) hbusy
  · intro stage hstage
    rw [List.mem_singleton.mp hstage]
    rfl
  · intro stage hstage
    rw [List.mem_singleton.mp hstage]
    exact nofun
  · intro stage hstage
    rw [List.mem_singleton.mp hstage, hshape.counts]
    exact ⟨rfl, rfl⟩

theorem projects_sharedHalo (hpath : run.plan.candidate.disposition = .sharedHalo)
    (hone : run.plan.stageCount = 1) (hwidth : run.plan.candidate.width ≠ 0) :
    run.Projects := by
  have hcounted := @countedStages_flat run.plan run.count
    (fun hboth => by rw [hpath] at hboth; exact nomatch hboth.1)
  apply @projects_elementGroups run _ (fun stage => stage.width) hvalid hresident hcount
    (lists_sharedHalo hpath hone hwidth)
  · intro _
    exact @lists_sharedHalo (run.plan.counted run.count) hpath (hcounted.trans hone) hwidth
  · intro stage hstage
    rw [List.mem_singleton.mp hstage]
    rfl
  · intro stage hstage
    rw [List.mem_singleton.mp hstage]
    exact nofun
  · intro stage hstage
    rw [List.mem_singleton.mp hstage]
    exact ⟨rfl, rfl⟩

theorem projects_tiledDifference (hpath : run.plan.candidate.disposition = .tiledDifference)
    (hone : run.plan.stageCount = 1)
    (hwidth : run.plan.candidate.width * kRangeTileOutputsPerLane ≠ 0) : run.Projects := by
  have hshape := resident_of_valid hvalid hresident
  have hcounted := @countedStages_flat run.plan run.count
    (fun hboth => by rw [hpath] at hboth; exact nomatch hboth.1)
  apply @projects_elementGroups run _ (fun stage => stage.width * kRangeTileOutputsPerLane) hvalid
    hresident hcount (lists_tiledDifference hpath hone hwidth)
  · intro _
    exact @lists_tiledDifference (run.plan.counted run.count) hpath (hcounted.trans hone) hwidth
  · intro stage hstage
    rw [List.mem_singleton.mp hstage]
    rfl
  · intro stage hstage
    rw [List.mem_singleton.mp hstage]
    exact nofun
  · intro stage hstage
    rw [List.mem_singleton.mp hstage, hshape.counts]
    exact ⟨rfl, rfl⟩

theorem projects_prefixCpu (hpath : run.plan.candidate.disposition = .prefixDifference)
    (hsource : run.plan.sourceVariant = .cpu) (htwo : run.plan.stageCount = 2) :
    run.Projects := by
  have hshape := resident_of_valid hvalid hresident
  have hne : run.plan.shape.outputCount ≠ 0 := hshape.counts ▸ hshape.positive
  have hcounted := @countedStages_flat run.plan run.count
    (fun hboth => hboth.2 hsource)
  apply @projects_elementGroups run _ (fun _ => 0) hvalid hresident hcount
    (lists_prefixCpu hpath hsource htwo hshape.positive hne)
  · intro hbusy
    exact @lists_prefixCpu (run.plan.counted run.count) hpath hsource (hcounted.trans htwo) hbusy
      hbusy
  · intro stage hstage
    rcases List.mem_cons.mp hstage with rfl | hstage
    · rfl
    · rw [List.mem_singleton.mp hstage]
      rfl
  · intro stage hstage
    rcases List.mem_cons.mp hstage with rfl | hstage
    · exact nofun
    · rw [List.mem_singleton.mp hstage]
      exact nofun
  · intro stage hstage
    rcases List.mem_cons.mp hstage with rfl | hstage
    · exact ⟨rfl, rfl⟩
    · rw [List.mem_singleton.mp hstage, hshape.counts]
      exact ⟨rfl, rfl⟩

end Paths

/-! ### Blocks -/

section Blocks

variable {plan : RangePlan} {run : RangeRun} {source : RangeSource} {width : UInt32}
  {stride window : UInt64}

/-- The quotients of the block formulas are groups. -/
theorem quotient_eq_groups (count : UInt64) (hne : count ≠ 0) :
    count / width.toUInt64 + (if count % width.toUInt64 ≠ 0 then 1 else 0) =
      RangeRun.groups count width := by
  by_cases hwidth : width = 0
  · rw [hwidth, groups_narrow hne]
    show count / 0 + (if count % 0 ≠ 0 then 1 else 0) = 1
    rw [UInt64.div_zero, UInt64.mod_zero, if_pos hne]
    rfl
  · rw [RangeRun.groups, if_neg hne, if_neg hwidth]

theorem rangeBlockGroups_mono {fewer blocks : UInt64} (hle : fewer ≤ blocks) :
    rangeBlockGroups source fewer width ≤ rangeBlockGroups source blocks width := by
  by_cases hzero : fewer = 0
  · rw [rangeBlockGroups, if_pos hzero]
    exact UInt64.le_iff_toNat_le.mpr (Nat.zero_le _)
  have hne : blocks ≠ 0 := by
    rintro rfl
    exact hzero (UInt64.le_zero_iff.mp hle)
  rw [rangeBlockGroups, rangeBlockGroups, if_neg hzero, if_neg hne, quotient_eq_groups _ hzero,
    quotient_eq_groups _ hne]
  by_cases hcpu : source = .cpu
  · rw [if_pos hcpu, if_pos hcpu]
    exact UInt64.le_refl 1
  · rw [if_neg hcpu, if_neg hcpu]
    by_cases hmetal : source = .metal
    · rw [if_pos hmetal, if_pos hmetal]
      exact hle
    · rw [if_neg hmetal, if_neg hmetal]
      exact groups_mono hle

theorem rangeBlockGroups_ne_zero {blocks : UInt64} (hne : blocks ≠ 0) :
    rangeBlockGroups source blocks width ≠ 0 := by
  rw [rangeBlockGroups, if_neg hne, quotient_eq_groups _ hne]
  by_cases hcpu : source = .cpu
  · rw [if_pos hcpu]
    decide
  · rw [if_neg hcpu]
    by_cases hmetal : source = .metal
    · rw [if_pos hmetal]
      exact hne
    · rw [if_neg hmetal]
      exact groups_ne_zero hne

theorem toNat_sub_one {count : UInt64} (hne : count ≠ 0) :
    (count - 1).toNat = count.toNat - 1 := by
  have hpos : 0 < count.toNat := Nat.pos_of_ne_zero fun hz => hne (UInt64.toNat_inj.mp hz)
  rw [UInt64.toNat_sub_of_le]
  · rfl
  · rw [UInt64.le_iff_toNat_le]
    exact hpos

/-- The blocks that are queried at once. -/
theorem parallelQuery_toNat {count : UInt64} (hne : count ≠ 0) :
    ((count - 1) * 1 / window + 1).toNat = (count.toNat - 1) / window.toNat + 1 := by
  have hpos : 0 < count.toNat := Nat.pos_of_ne_zero fun hz => hne (UInt64.toNat_inj.mp hz)
  have hcount := count.toNat_lt
  have hquotient : (count.toNat - 1) / window.toNat ≤ count.toNat - 1 := Nat.div_le_self _ _
  rw [UInt64.mul_one, toNat_add_of_fits, UInt64.toNat_div, toNat_sub_one hne]
  · rfl
  · rw [UInt64.toNat_div, toNat_sub_one hne]
    show _ + 1 < _
    omega

theorem rangeBlockQueryGroups_ne_zero {count : UInt64} (hne : count ≠ 0) :
    rangeBlockQueryGroups source count 1 window width ≠ 0 := by
  rw [rangeBlockQueryGroups, if_neg hne, quotient_eq_groups _ hne]
  by_cases hmetal : source = .metal
  · rw [if_pos hmetal]
    intro hzero
    have hnat := congrArg UInt64.toNat hzero
    rw [parallelQuery_toNat hne] at hnat
    exact Nat.succ_ne_zero _ hnat
  · rw [if_neg hmetal]
    by_cases hcpu : source = .cpu
    · rw [if_pos hcpu]
      decide
    · rw [if_neg hcpu]
      exact groups_ne_zero hne

theorem rangeBlockQueryGroups_mono {fewer count : UInt64} (hle : fewer ≤ count) :
    rangeBlockQueryGroups source fewer 1 window width ≤
      rangeBlockQueryGroups source count 1 window width := by
  by_cases hzero : fewer = 0
  · rw [rangeBlockQueryGroups, if_pos hzero]
    exact UInt64.le_iff_toNat_le.mpr (Nat.zero_le _)
  have hne : count ≠ 0 := by
    rintro rfl
    exact hzero (UInt64.le_zero_iff.mp hle)
  rw [rangeBlockQueryGroups, rangeBlockQueryGroups, if_neg hzero, if_neg hne,
    quotient_eq_groups _ hzero, quotient_eq_groups _ hne]
  by_cases hmetal : source = .metal
  · rw [if_pos hmetal, if_pos hmetal, UInt64.le_iff_toNat_le, parallelQuery_toNat hzero,
      parallelQuery_toNat hne]
    rw [UInt64.le_iff_toNat_le] at hle
    exact Nat.succ_le_succ (Nat.div_le_div_right (Nat.sub_le_sub_right hle 1))
  · rw [if_neg hmetal, if_neg hmetal]
    by_cases hcpu : source = .cpu
    · rw [if_pos hcpu, if_pos hcpu]
      exact UInt64.le_refl 1
    · rw [if_neg hcpu, if_neg hcpu]
      exact groups_mono hle

/-- The width of the stages over blocks. -/
def blockWidth (plan : RangePlan) : UInt32 :=
  if plan.sourceVariant = .cpu then 0 else plan.candidate.width

theorem lists_blocks {span : UInt64} (hpath : plan.candidate.disposition = .blockPrefixSuffix)
    (hcount : plan.stageCount = 2) (hspan : plan.shape.affineSpan = some span)
    (hblocks : groupsFor span plan.shape.windowSize ≠ 0) (houtput : plan.shape.outputCount ≠ 0) :
    Lists plan
      [{ disposition := .blockPrefixSuffix
         level := 0
         elementCount := span
         groups := rangeBlockGroups plan.sourceVariant (groupsFor span plan.shape.windowSize)
           (blockWidth plan)
         width := blockWidth plan },
       { disposition := .blockWindow
         level := 0
         elementCount := plan.shape.outputCount
         groups := rangeBlockQueryGroups plan.sourceVariant plan.shape.outputCount
           plan.shape.stride plan.shape.windowSize (blockWidth plan)
         width := blockWidth plan }] := by
  apply lists_two hcount
  · rw [RangePlan.stage, if_neg (by omega), hpath, blockWidth]
    dsimp only
    rw [hspan]
    by_cases hcpu : plan.sourceVariant = .cpu
    · rw [if_pos hcpu, if_pos hcpu, rangeBlockGroups, if_neg hblocks, if_pos hcpu]
      rfl
    · rw [if_neg hcpu, if_neg hcpu]
      rfl
  · rw [RangePlan.stage, if_neg (by omega), hpath, blockWidth]
    dsimp only
    rw [hspan]
    by_cases hcpu : plan.sourceVariant = .cpu
    · have hmetal : plan.sourceVariant ≠ .metal := fun hmetal => by
        rw [hcpu] at hmetal
        cases hmetal
      rw [if_pos hcpu, if_pos hcpu, rangeBlockQueryGroups, if_neg houtput, if_neg hmetal,
        if_pos hcpu]
      rfl
    · rw [if_neg hcpu, if_neg hcpu]
      rfl

/-- The span of the windows over a count of elements. -/
def spanAt (window count : UInt64) : UInt64 := if count = 0 then 0 else count - 1 + window

theorem spanAt_toNat {count : UInt64} (hne : count ≠ 0)
    (hfits : count.toNat - 1 + window.toNat < 2 ^ 64) :
    (spanAt window count).toNat = count.toNat - 1 + window.toNat := by
  rw [spanAt, if_neg hne, toNat_add_of_fits]
  · rw [toNat_sub_one hne]
  · rw [toNat_sub_one hne]
    exact hfits

theorem affineSpan_eq {shape : RangeShape} (hstride : shape.stride = 1)
    (hne : shape.outputCount ≠ 0) {span : UInt64} :
    shape.affineSpan = some span ↔
      shape.outputCount.toNat - 1 + shape.windowSize.toNat < 2 ^ 64 ∧
        span = spanAt shape.windowSize shape.outputCount := by
  rw [RangeShape.affineSpan, hstride, UInt64.mul_one, spanAt, if_neg hne]
  have hmul : checkedMul (shape.outputCount - 1) 1 = true := by
    rw [checkedMul_iff]
    show (shape.outputCount - 1).toNat * 1 < _
    rw [Nat.mul_one]
    exact (shape.outputCount - 1).toNat_lt
  rw [hmul, Bool.true_and]
  by_cases hfits : checkedAdd (shape.outputCount - 1) shape.windowSize = true
  · rw [if_pos hfits]
    rw [checkedAdd_iff, toNat_sub_one hne] at hfits
    exact ⟨fun h => ⟨hfits, (Option.some.inj h).symm⟩, fun h => congrArg some h.2.symm⟩
  · rw [if_neg hfits]
    rw [checkedAdd_iff, toNat_sub_one hne] at hfits
    exact ⟨nofun, fun h => absurd h.1 hfits⟩

/-- A window below the narrow words is divided by as it is. -/
theorem blocks_narrow (hwindow : run.plan.shape.windowSize.toNat < 2 ^ 32)
    (hne : run.plan.shape.windowSize ≠ 0) (elements : UInt64) :
    run.blocks elements = groupsFor elements run.plan.shape.windowSize := by
  have hsame : run.plan.shape.windowSize.toUInt32.toUInt64 = run.plan.shape.windowSize := by
    rw [← UInt64.toNat_inj, UInt32.toNat_toUInt64, UInt64.toNat_toUInt32,
      Nat.mod_eq_of_lt hwindow]
  rw [RangeRun.blocks, groups_eq (by rw [hsame]; exact hne), hsame]

/-- A window that does not fit the narrow words divides some span too often. -/
theorem blocks_wide {elements : UInt64} (hwindow : 2 ^ 32 ≤ run.plan.shape.windowSize.toNat)
    (hodd : run.plan.shape.windowSize.toNat % 2 = 1)
    (hspan : run.plan.shape.windowSize.toNat ≤ elements.toNat) :
    run.blocks elements ≠ checkedCeil elements run.plan.shape.windowSize := by
  intro hsame
  have hnarrow : run.plan.shape.windowSize.toUInt32.toUInt64.toNat =
      run.plan.shape.windowSize.toNat % 2 ^ 32 := by
    rw [UInt32.toNat_toUInt64, UInt64.toNat_toUInt32]
  have hne : run.plan.shape.windowSize.toUInt32.toUInt64 ≠ 0 := by
    intro hzero
    rw [hzero] at hnarrow
    change 0 = _ at hnarrow
    omega
  have hwide : run.plan.shape.windowSize ≠ 0 := by
    intro hzero
    rw [hzero] at hwindow
    exact absurd hwindow (by decide)
  rw [RangeRun.blocks, groups_eq hne] at hsame
  have hfew : elements.toNat ≤ (groupsFor elements run.plan.shape.windowSize).toNat *
      (run.plan.shape.windowSize.toNat % 2 ^ 32) := by
    have hle := (@groupsFor_le_iff elements _ hne _).mp (Nat.le_refl _)
    rw [hsame, hnarrow] at hle
    exact hle
  have hmany : ∀ fewer, fewer < (groupsFor elements run.plan.shape.windowSize).toNat →
      fewer * run.plan.shape.windowSize.toNat < elements.toNat := by
    intro fewer hlt
    rw [← Nat.not_le, groupsFor_le_iff hwide] at hlt
    exact Nat.not_le.mp hlt
  generalize (groupsFor elements run.plan.shape.windowSize).toNat = blocks at hfew hmany
  have hhalf : 2 * (run.plan.shape.windowSize.toNat % 2 ^ 32) ≤
      run.plan.shape.windowSize.toNat := by
    omega
  match blocks with
  | 0 => omega
  | 1 => omega
  | blocks + 2 =>
      have hlow := hmany (blocks + 1) (Nat.lt_succ_self _)
      have htwice : (blocks + 1) * (2 * (run.plan.shape.windowSize.toNat % 2 ^ 32)) ≤
          (blocks + 1) * run.plan.shape.windowSize.toNat :=
        Nat.mul_le_mul_left _ hhalf
      have hcover : (blocks + 2) * (run.plan.shape.windowSize.toNat % 2 ^ 32) ≤
          (blocks + 1) * (2 * (run.plan.shape.windowSize.toNat % 2 ^ 32)) := by
        rw [Nat.mul_left_comm, ← Nat.mul_assoc]
        exact Nat.mul_le_mul_right _ (by omega)
      omega

/-- What a run counts of a stage over blocks. -/
def blockCounts (plan : RangePlan) (stage : RangeStagePlan) (count : UInt64) : UInt64 × UInt64 :=
  if stage.disposition = .blockPrefixSuffix then
    (spanAt plan.shape.windowSize count,
      rangeBlockGroups plan.sourceVariant
        (groupsFor (spanAt plan.shape.windowSize count) plan.shape.windowSize) stage.width)
  else
    (count, rangeBlockQueryGroups plan.sourceVariant count 1 plan.shape.windowSize stage.width)

theorem activeSpan_eq
    (hfits : run.count ≠ 0 → run.count.toNat - 1 + run.plan.shape.windowSize.toNat < 2 ^ 64) :
    run.activeSpan = some (spanAt run.plan.shape.windowSize run.count) := by
  rw [RangeRun.activeSpan, spanAt]
  by_cases hzero : run.count = 0
  · rw [if_pos hzero, if_pos hzero]
  · rw [if_neg hzero, if_neg hzero, if_pos]
    rw [checkedAdd_iff, toNat_sub_one hzero]
    exact hfits hzero

variable (hvalid : run.plan.shape.valid = true)
  (hresident : run.plan.shape.residentCounted = true)
  (hcount : run.count ≤ run.plan.shape.inputCount)
  (hpath : run.plan.candidate.disposition = .blockPrefixSuffix)
  (htwo : run.plan.stageCount = 2) {span : UInt64} (hspan : run.plan.shape.affineSpan = some span)

include hvalid hresident hpath htwo hspan

theorem spans_of_blocks : run.plan.shape.outputCount ≠ 0 ∧ run.plan.shape.windowSize ≠ 0 ∧
    run.plan.shape.outputCount.toNat - 1 + run.plan.shape.windowSize.toNat < 2 ^ 64 ∧
    span = spanAt run.plan.shape.windowSize run.plan.shape.outputCount ∧
    Lists run.plan
      [{ disposition := .blockPrefixSuffix
         level := 0
         elementCount := span
         groups := rangeBlockGroups run.plan.sourceVariant
           (groupsFor span run.plan.shape.windowSize) (blockWidth run.plan)
         width := blockWidth run.plan },
       { disposition := .blockWindow
         level := 0
         elementCount := run.plan.shape.outputCount
         groups := rangeBlockQueryGroups run.plan.sourceVariant run.plan.shape.outputCount
           run.plan.shape.stride run.plan.shape.windowSize (blockWidth run.plan)
         width := blockWidth run.plan }] := by
  have hshape := resident_of_valid hvalid hresident
  have houtput : run.plan.shape.outputCount ≠ 0 := hshape.counts ▸ hshape.positive
  have hwindow : run.plan.shape.windowSize ≠ 0 := by
    intro hzero
    have hodd := hshape.window
    rw [hzero] at hodd
    change 0 = _ at hodd
    omega
  obtain ⟨hfits, hspanAt⟩ := (affineSpan_eq hshape.stride houtput).mp hspan
  have hne : span ≠ 0 := by
    intro hzero
    have hnat := spanAt_toNat houtput hfits
    rw [← hspanAt, hzero] at hnat
    have hodd := hshape.window
    change 0 = _ at hnat
    omega
  exact ⟨houtput, hwindow, hfits, hspanAt,
    lists_blocks hpath htwo hspan (groupsFor_ne_zero hwindow hne) houtput⟩

include hcount

theorem projects_blocks (hnarrow : run.plan.shape.windowSize.toNat < 2 ^ 32) :
    run.Projects := by
  have hshape := resident_of_valid hvalid hresident
  obtain ⟨houtput, hwindow, hfits, hspanAt, hlists⟩ :=
    spans_of_blocks hvalid hresident hpath htwo hspan
  have hcounted := @countedStages_flat run.plan run.count
    (fun hboth => by rw [hpath] at hboth; exact nomatch hboth.1)
  have hle := UInt64.le_iff_toNat_le.mp hcount
  rw [hshape.counts] at hle
  have hsmall : run.count ≠ 0 →
      run.count.toNat - 1 + run.plan.shape.windowSize.toNat < 2 ^ 64 := by
    intro _
    omega
  have hspans : spanAt run.plan.shape.windowSize run.count ≤ span := by
    rw [hspanAt, UInt64.le_iff_toNat_le, spanAt_toNat houtput hfits]
    by_cases hzero : run.count = 0
    · rw [spanAt, if_pos hzero]
      exact Nat.zero_le _
    · rw [spanAt_toNat hzero (hsmall hzero)]
      omega
  have hspan_ne : run.count ≠ 0 → spanAt run.plan.shape.windowSize run.count ≠ 0 := by
    intro hne hzero
    have hnat := spanAt_toNat hne (hsmall hne)
    rw [hzero] at hnat
    have hodd := hshape.window
    change 0 = _ at hnat
    omega
  apply @projects_recount run _ (blockCounts run.plan) hresident
    (fun hne => valid_counted hvalid hshape hne hcount) hshape.counts hlists
  · intro hne
    have hspanCounted : (run.plan.counted run.count).shape.affineSpan =
        some (spanAt run.plan.shape.windowSize run.count) :=
      (@affineSpan_eq (run.plan.counted run.count).shape hshape.stride hne _).mpr
        ⟨hsmall hne, rfl⟩
    have hcountedLists := @lists_blocks (run.plan.counted run.count) _ hpath
      (hcounted.trans htwo) hspanCounted (groupsFor_ne_zero hwindow (hspan_ne hne)) hne
    have hstride : (run.plan.counted run.count).shape.stride = 1 := hshape.stride
    rw [hstride] at hcountedLists
    exact hcountedLists
  · intro stage hstage
    rcases List.mem_cons.mp hstage with rfl | hstage
    · rw [RangeRun.measure]
      dsimp only
      rw [activeSpan_eq hsmall]
      show some _ = some _
      rw [blocks_narrow hnarrow hwindow]
      rfl
    · rw [List.mem_singleton.mp hstage, RangeRun.measure]
      dsimp only
      rw [hshape.stride]
      rfl
  · intro stage _ hblock
    rw [blocks_narrow hnarrow hwindow]
    rfl
  · intro hzero stage hstage
    rcases List.mem_cons.mp hstage with rfl | hstage
    · show rangeBlockGroups _ (groupsFor (spanAt _ _) _) _ = 0
      have hnone : groupsFor (spanAt run.plan.shape.windowSize run.count)
          run.plan.shape.windowSize = 0 := by
        rw [spanAt, if_pos hzero, ← UInt64.toNat_inj]
        exact Nat.le_zero.mp ((groupsFor_le_iff hwindow).mpr (Nat.zero_le _))
      rw [hnone]
      rfl
    · rw [List.mem_singleton.mp hstage]
      show rangeBlockQueryGroups _ _ _ _ _ = 0
      rw [rangeBlockQueryGroups, if_pos hzero]
  · intro hne stage hstage
    rcases List.mem_cons.mp hstage with rfl | hstage
    · exact rangeBlockGroups_ne_zero (groupsFor_ne_zero hwindow (hspan_ne hne))
    · rw [List.mem_singleton.mp hstage]
      exact rangeBlockQueryGroups_ne_zero hne
  · intro stage hstage
    rcases List.mem_cons.mp hstage with rfl | hstage
    · exact rangeBlockGroups_mono (groupsFor_mono hwindow hspans)
    · rw [List.mem_singleton.mp hstage]
      show rangeBlockQueryGroups _ _ 1 _ _ ≤ rangeBlockQueryGroups _ _ _ _ _
      rw [hshape.stride]
      exact rangeBlockQueryGroups_mono (hshape.counts ▸ hcount)
  · intro hwhole stage hstage
    rw [hshape.counts] at hwhole
    rcases List.mem_cons.mp hstage with rfl | hstage
    · rw [recount, blockCounts, if_pos rfl, hwhole, ← hspanAt]
    · rw [List.mem_singleton.mp hstage, recount, blockCounts, if_neg nofun, hwhole,
        hshape.stride]

omit hcount

/-- **Over blocks of a wide window the whole count is not given its parameters.** -/
theorem not_projects_blocks (hwide : 2 ^ 32 ≤ run.plan.shape.windowSize.toNat)
    (hwhole : run.count = run.plan.shape.inputCount) : ¬ run.Projects := by
  intro hprojects
  have hshape := resident_of_valid hvalid hresident
  obtain ⟨houtput, hwindow, hfits, hspanAt, hlists⟩ :=
    spans_of_blocks hvalid hresident hpath htwo hspan
  have hsame := hprojects.whole hwhole
  rw [hlists.run_dispatches hresident, hlists.dispatches, List.map_cons, List.map_cons] at hsame
  have hfirst := (List.cons.inj hsame).1
  rw [RangeRun.project, RangeRun.measure] at hfirst
  dsimp only at hfirst
  rw [activeSpan_eq (by rw [hwhole, hshape.counts]; exact fun _ => hfits), hwhole, hshape.counts,
    ← hspanAt] at hfirst
  injection hfirst with hfirst
  have haux := congrArg (fun dispatch => dispatch.params.stageAuxCount) hfirst
  change run.blocks span = checkedCeil span run.plan.shape.windowSize at haux
  refine blocks_wide hwide (by rw [hshape.window]; omega) ?_ haux
  rw [hspanAt, spanAt_toNat houtput hfits]
  omega

end Blocks

end RunD.Range
